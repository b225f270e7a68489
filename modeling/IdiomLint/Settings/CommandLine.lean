import IdiomLint.Settings.Basic

/-! Settings from the arguments of the program. -/
namespace IdiomLint

inductive CommandOption where
  | debug
  | help
  | version
  | quiet
  | disableAll
  | enableAll
  | explain (code : Code)
  | ignore (selection : Selection)
  | enable (selection : Selection)
  | disable (selection : Selection)
  | load (module : String)
  | configFile (path : String)
  | languageVersion (version : Version)
  | format (format : Format)
  | sortBy (key : SortKey)
  | verbose
  | timingStats (path : Path)
  | noColor
  /-- Everything behind a double dash. -/
  | typeCheckerArgs (args : List String)
  | file (path : String)

namespace CommandOption

def flag? (arg : String) : Option CommandOption :=
  match arg with
  | "--debug" => some debug
  | "--help" => some help
  | "-h" => some help
  | "--version" => some version
  | "--quiet" => some quiet
  | "--disable-all" => some disableAll
  | "--enable-all" => some enableAll
  | "--verbose" => some verbose
  | "-v" => some verbose
  | "--no-color" => some noColor
  | _ => none

/-- Classifiers with commas between them. -/
def selection (s : String) : Except SettingsError Selection :=
  ((Text.split ',' s).mapM Classifier.ofText).map Selection.ofList

/-- How an option reads the argument that follows it; none for what takes no argument. -/
def reader? (arg : String) : Option (String → Except SettingsError CommandOption) :=
  match arg with
  | "--explain" => some fun s => (Code.ofText s).map explain
  | "--ignore" => some fun s => (selection s).map ignore
  | "--enable" => some fun s => (selection s).map enable
  | "--disable" => some fun s => (selection s).map disable
  | "--load" => some fun s => .ok (load s)
  | "--config-file" => some fun s => .ok (configFile s)
  | "--python-version" => some fun s => (Version.ofText s).map languageVersion
  | "--format" => some fun s => (Format.ofText s).map format
  | "--sort" => some fun s => (SortKey.ofText s).map sortBy
  | "--timing-stats" => some fun s => .ok (timingStats (Path.ofText s))
  | _ => none

/-- What is neither a flag nor takes an argument: a file. -/
def operand (arg : String) : Except SettingsError CommandOption :=
  if arg.startsWith "-" then .error (.unsupportedOption arg)
  else if arg.isEmpty then .error .emptyArgument
  else .ok (file arg)

def all : List String → Except SettingsError (List CommandOption)
  | [] => .ok []
  | "--" :: rest => .ok [typeCheckerArgs rest]
  | [arg] =>
    match flag? arg, reader? arg with
    | some o, _ => .ok [o]
    | none, some _ => .error (.missingArgument arg)
    | none, none => (operand arg).map fun o => [o]
  | arg :: value :: rest =>
    match flag? arg, reader? arg with
    | some o, _ => (all (value :: rest)).map (o :: ·)
    | none, some read => do
      let o ← read value
      let os ← all rest
      pure (o :: os)
    | none, none => do
      let o ← operand arg
      let os ← all (value :: rest)
      pure (o :: os)

end CommandOption

namespace Settings

def apply (s : Settings) : CommandOption → Settings
  | .debug => { s with debug := true }
  | .help => { s with help := true }
  | .version => { s with version := true }
  | .quiet => { s with quiet := true }
  | .disableAll => { s with enable := [], disableAll := true }
  | .enableAll => { s with disable := [], enableAll := true }
  | .explain c => { s with explain := some c }
  | .ignore cs => { s with ignore := s.ignore.union cs }
  | .enable cs => { s with enable := s.enable.union cs, disable := s.disable.diff cs }
  | .disable cs => { s with disable := s.disable.union cs, enable := s.enable.diff cs }
  | .load m => { s with load := s.load ++ [.string m] }
  | .configFile p => { s with configFile := some p }
  | .languageVersion v => { s with languageVersion := some v }
  | .format f => { s with format := some f }
  | .sortBy k => { s with sortBy := some k }
  | .verbose => { s with verbose := true }
  | .timingStats p => { s with timingStats := some p }
  | .noColor => { s with color := false }
  | .typeCheckerArgs args => { s with typeCheckerArgs := args }
  | .file f => { s with files := s.files ++ [f] }

/-- The settings that arguments ask for. Help and version stand alone, and no arguments at all ask
for help. -/
def ofArguments (t : Terminal) : List String → Except SettingsError Settings
  | [] => .ok { initial t with help := true }
  | ["gen"] => .ok { initial t with generate := true }
  | first :: rest => do
    let options ← CommandOption.all (first :: rest)
    let s := options.foldl apply (initial t)
    if !rest.isEmpty && (s.help || s.version) then .error (.unexpectedValue first) else pure s

end Settings

end IdiomLint
