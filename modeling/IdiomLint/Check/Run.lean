import IdiomLint.Check.Basic
import IdiomLint.Check.Visitor

/-! Running checks over a tree. The visitor says which check is run on which node; each check has
notes of its own. -/
namespace IdiomLint

/-- A finding and the check it comes from. -/
structure Report where
  code : Code
  categories : List String
  finding : Finding
deriving DecidableEq, Inhabited

/-- The notes of all checks by their codes. -/
abbrev Memory := List (Code × Notes)

namespace Memory

def get (m : Memory) (code : Code) : Notes := (m.lookup code).getD {}

def set (m : Memory) (code : Code) (notes : Notes) : Memory :=
  (code, notes) :: m.filter fun e => e.1 != code

end Memory

/-- What a run has found so far, the latest first, and what its checks remember. -/
structure RunState where
  found : List Report := []
  memory : Memory := []

instance : Inhabited RunState := ⟨{}⟩

def Check.runOn (env : Env) (n : Node) (s : RunState) (c : Check) : Except Fault RunState := do
  let (found, notes) ← c.judge.run env (s.memory.get c.code) n
  let reports := found.map fun f => ⟨c.code, c.categories, f⟩
  let memory := match c.judge with
    | .noting _ => s.memory.set c.code notes
    | _ => s.memory
  return { found := reports.reverse ++ s.found, memory }

/-- Registers checks, in their order, for the classes they ask for. -/
def Registry.ofChecks (checks : List Check) : Registry Check := fun cls =>
  match checks.filter fun c => c.classes.contains cls with
  | [] => none
  | found => some found

/-- Runs checks over a tree, going on from a state. -/
def runTree (checks : List Check) (env : Env) (s : RunState) (n : Node) : Except Fault RunState :=
  Action.perform (fun s i => i.check.runOn env i.node s) s ((Registry.ofChecks checks).accept n)

/-- What checks report about a tree, in the order in which it is found. -/
def reports (checks : List Check) (env : Env) (n : Node) : Except Fault (List Report) :=
  (runTree checks env {} n).map fun s => s.found.reverse

end IdiomLint
