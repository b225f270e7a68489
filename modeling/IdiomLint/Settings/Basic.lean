import IdiomLint.Settings.Classifier
import IdiomLint.Toml.Value

/-! The settings of a run, how those of a file and of a command line join, and which kinds of
findings they ask for. -/
namespace IdiomLint

inductive Format where
  | text | github
deriving DecidableEq, Inhabited

namespace Format

def label : Format → String
  | text => "text"
  | github => "github"

def ofText (s : String) : Except SettingsError Format :=
  if s == "text" then .ok text else if s == "github" then .ok github else .error (.badFormat s)

end Format

/-- What findings are sorted by first. -/
inductive SortKey where
  | filename | error
deriving DecidableEq, Inhabited

namespace SortKey

def label : SortKey → String
  | filename => "filename"
  | error => "error"

def ofText (s : String) : Except SettingsError SortKey :=
  if s == "filename" then .ok filename else if s == "error" then .ok error else .error (.badSort s)

end SortKey

/-- A version of the checked language. -/
structure Version where
  major : Nat
  minor : Nat
deriving DecidableEq, Inhabited

namespace Version

/-- The version that is assumed where none is set. -/
def default : Version := ⟨3, 11⟩

def atLeast (v : Version) (major minor : Nat) : Bool :=
  major < v.major || (v.major = major && minor ≤ v.minor)

def part (s : String) : Except SettingsError Nat :=
  match Text.readInt s with
  | .ok n => .ok n.toNat
  | .error e => .error (.badNumber e)

def isNumeric (s : String) : Bool := !s.isEmpty && s.all Text.isNumeric

/-- Two numbers with a dot between them. -/
def ofText (s : String) : Except SettingsError Version :=
  match Text.split '.' s with
  | [a, b] =>
    if isNumeric a && isNumeric b then do
      let major ← part a
      let minor ← part b
      pure ⟨major, minor⟩
    else .error .badVersion
  | _ => .error .badVersion

end Version

/-- Where the program writes to: whether it is a terminal, and what the environment says about
colour. -/
structure Terminal where
  isTerminal : Bool
  noColor : Option String
deriving DecidableEq, Inhabited

def Terminal.allowsColor (t : Terminal) : Bool := t.isTerminal && (t.noColor.getD "").isEmpty

structure Settings where
  files : List String := []
  explain : Option Code := none
  ignore : Selection := []
  load : List Toml.Value := []
  enable : Selection := []
  disable : Selection := []
  debug : Bool := false
  generate : Bool := false
  help : Bool := false
  version : Bool := false
  quiet : Bool := false
  enableAll : Bool := false
  disableAll : Bool := false
  configFile : Option String := none
  languageVersion : Option Version := none
  typeCheckerArgs : List String := []
  format : Option Format := none
  sortBy : Option SortKey := none
  verbose : Bool := false
  timingStats : Option Path := none
  color : Bool := true
deriving Inhabited

namespace Settings

/-- Settings before anything is said. -/
def initial (t : Terminal) : Settings := { color := t.allowsColor }

def targetVersion (s : Settings) : Version := s.languageVersion.getD Version.default

/-- The first text that is given and not empty, else the second. -/
def firstNonEmpty (a b : Option String) : Option String :=
  match a with
  | some s => if s.isEmpty then b else some s
  | none => b

/-- What is enabled and what is disabled after both. A later `disable all` or `enable all` that the
earlier settings do not have takes the place of what they select. -/
def mergeSelections (old new : Settings) : Selection × Selection :=
  if !old.disableAll && new.disableAll then (new.enable, [])
  else if !old.enableAll && new.enableAll then ([], new.disable)
  else
    let disable := old.disable.union new.disable
    ((old.enable.union new.enable).diff disable, disable)

def merge (t : Terminal) (old new : Settings) : Except SettingsError Settings :=
  let (enable, disable) := mergeSelections old new
  let enableAll := old.enableAll || new.enableAll
  let disableAll := old.disableAll || new.disableAll
  if enableAll && disableAll then .error .allAndNone
  else .ok {
    files := old.files ++ new.files
    explain := old.explain.or new.explain
    ignore := old.ignore.union new.ignore
    load := old.load ++ new.load
    enable
    disable
    debug := old.debug || new.debug
    generate := old.generate || new.generate
    help := old.help || new.help
    version := old.version || new.version
    quiet := old.quiet || new.quiet
    enableAll
    disableAll
    configFile := firstNonEmpty old.configFile new.configFile
    languageVersion := new.languageVersion.or old.languageVersion
    typeCheckerArgs :=
      if new.typeCheckerArgs.isEmpty then old.typeCheckerArgs else new.typeCheckerArgs
    format := new.format.or old.format
    sortBy := new.sortBy.or old.sortBy
    verbose := old.verbose || new.verbose
    timingStats := old.timingStats.or new.timingStats
    color := old.color && new.color && t.allowsColor }

end Settings

/-- What selecting a check depends on. -/
structure Kind where
  code : Code
  categories : List String
  /-- Whether the check runs unless something is said about it. -/
  enabled : Bool
deriving DecidableEq, Inhabited

def Kind.classifier (k : Kind) : Classifier := .code k.code none

def Kind.categorySet (k : Kind) : Selection := k.categories.map fun c => .category c none

/-- The code decides before the categories, and enabling before disabling. -/
def Settings.selects (s : Settings) (k : Kind) : Bool :=
  if s.enable.contains k.classifier then true
  else if s.disable.contains k.classifier || s.ignore.contains k.classifier then false
  else if s.enable.meets k.categorySet then true
  else if s.disable.meets k.categorySet || s.disableAll then false
  else k.enabled || s.enableAll

end IdiomLint
