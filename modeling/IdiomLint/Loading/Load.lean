import IdiomLint.Loading.Library

/-! The checks that settings ask for. -/
namespace IdiomLint

/-- The kind of findings that a module's check reports. -/
def CheckModule.kind? (m : CheckModule) : Option Kind :=
  match m.content with
  | .nothing => none
  | .check c => some c.kind
  | .misdeclared kind _ _ _ => some kind

/-- The check of a module, if the settings select it. -/
def CheckModule.selected (s : Settings) (m : CheckModule) : Except LoadError (Option Check) :=
  match m.content with
  | .nothing => .ok none
  | .check c => .ok (if s.selects c.kind then some c else none)
  | .misdeclared kind location line signature =>
    match s.selects kind, signature.nodeClasses.2 with
    | true, some e => .error (.misdeclared location line e)
    | _, _ => .ok none

/-- The selected checks of the modules that settings name, in the order of the modules. -/
def Library.checks (lib : Library) (s : Settings) : Except LoadError (List Check) := do
  let ms ← lib.load s.load
  let checks ← ms.mapM (CheckModule.selected s)
  return checks.filterMap id

def loadChecks (s : Settings) : Except LoadError (List Check) := Library.standard.checks s

/-- What is printed about the loaded checks where more is asked for. -/
def enabledMessage (checks : List Check) : String :=
  let codes := (checks.map fun c => c.code.toText).eraseDups.mergeSort fun a b => a ≤ b
  "Enabled checks: "
    ++ (if codes.isEmpty then "No checks enabled" else ", ".intercalate codes) ++ "\n"

/-- The checks that run on each class of nodes. -/
def registry (checks : List Check) : List (NodeClass × List Check) :=
  (NodeClass.all.map fun cls => (cls, checks.filter fun c => c.classes.contains cls)).filter
    fun e => !e.2.isEmpty

/-- The number for a new check of a series; zero if the series is new. -/
def nextNumber (series : String) : Nat :=
  (Catalogue.builtin.filter fun c => c.code.series == series).foldl
    (fun n c => max n (c.code.number + 1)) 0

end IdiomLint
