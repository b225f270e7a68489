import IdiomLint.Settings.Basic
import IdiomLint.Toml.Parse

/-! Settings from the text of a configuration file. -/
namespace IdiomLint.Settings

/-- The items of a list in the table; a member that is not there reads as empty. -/
def listMember (config : Toml.Table) (name : String) : Except SettingsError (List Toml.Value) :=
  match config.lookup name with
  | none => .ok []
  | some (.array items) => .ok items
  | some _ => .error (.wrongType name "list")

def boolMember (config : Toml.Table) (name : String) (missing : Bool) :
    Except SettingsError Bool :=
  match config.lookup name with
  | none => .ok missing
  | some (.bool b) => .ok b
  | some _ => .error (.wrongType name "bool")

def textMember? (config : Toml.Table) (name : String) : Except SettingsError (Option String) :=
  match config.lookup name with
  | none => .ok none
  | some (.string s) => .ok (some s)
  | some _ => .error (.wrongType name "string")

def parsed? {α : Type} (read : String → Except SettingsError α) :
    Option String → Except SettingsError (Option α)
  | none => .ok none
  | some s => (read s).map some

def textOf (room : Nat) (v : Toml.Value) : Except SettingsError String :=
  (v.write room).mapError .ofRefusal

def selectionOf (room : Nat) (values : List Toml.Value) : Except SettingsError Selection :=
  (values.mapM fun v => do Classifier.ofText (← textOf room v)).map Selection.ofList

/-- What an amendment ignores, and only below its path. -/
def amendment (room : Nat) : Toml.Value → Except SettingsError Selection
  | .table members =>
    match members.lookup "path", members.lookup "ignore" with
    | some (.string path), some (.array ignored) =>
      if members.any fun m => m.1 != "path" && m.1 != "ignore" then .error .extraAmendFields
      else (selectionOf room ignored).map fun cs =>
        Selection.ofList (cs.map (·.below (Path.ofText path)))
    | _, _ => .error .malformedAmend
  | _ => .error .malformedAmend

def amendments (config : Toml.Table) : Except SettingsError (List Toml.Value) :=
  match config.lookup "amend" with
  | none => .ok []
  | some (.array items) => .ok items
  | some _ => .error .amendNotList

def knownFields : List String :=
  ["load", "quiet", "disable_all", "enable_all", "color", "enable", "disable", "ignore",
    "mypy_args", "python_version", "format", "sort_by", "amend"]

def ofTable (t : Terminal) (config : Toml.Table) (room : Nat := Toml.standardRoom) :
    Except SettingsError Settings := do
  let load ← listMember config "load"
  let quiet ← boolMember config "quiet" false
  let disableAll ← boolMember config "disable_all" false
  let enableAll ← boolMember config "enable_all" false
  let color ← boolMember config "color" true
  let enableList ← listMember config "enable"
  let disableList ← listMember config "disable"
  let enable ← selectionOf room enableList
  let disable ← selectionOf room disableList
  let ignore ← selectionOf room (← listMember config "ignore")
  let typeCheckerArgs ← (← listMember config "mypy_args").mapM (textOf room)
  let languageVersion ← parsed? Version.ofText (← textMember? config "python_version")
  let format ← parsed? Format.ofText (← textMember? config "format")
  let sortBy ← parsed? SortKey.ofText (← textMember? config "sort_by")
  let amended ← (← amendments config).mapM (amendment room)
  let unknown := (config.map (·.1)).filter fun name => !knownFields.contains name
  if !unknown.isEmpty then .error (.unknownFields unknown)
  else pure { initial t with
    load, quiet, disableAll, enableAll, color, disable, typeCheckerArgs, languageVersion, format
    sortBy
    enable := enable.diff disable
    ignore := amended.foldl Selection.union ignore }

/-- The member of a table that says something, if there is one. -/
def truthyMember? (name : String) (t : Toml.Table) : Option Toml.Value :=
  (t.lookup name).filter Toml.Value.isTruthy

/-- The settings in a document. What is missing or says nothing leaves the settings as they
start. -/
def ofDocument (t : Terminal) (document : Toml.Table) (room : Nat := Toml.standardRoom) :
    Except SettingsError Settings :=
  match truthyMember? "tool" document with
  | none => .ok (initial t)
  | some (.table tool) =>
    match truthyMember? "refurb" tool with
    | none => .ok (initial t)
    | some (.table config) => ofTable t config room
    | some (.array _) => .error .listAsTable
    | some _ => .error .noTable
  | some _ => .error .noTable

def ofConfigText (t : Terminal) (text : String) (room : Nat := Toml.standardRoom) :
    Except SettingsError Settings :=
  match Toml.parse text room with
  | .error refusal => .error (.ofRefusal refusal)
  | .ok document => ofDocument t document room

end IdiomLint.Settings
