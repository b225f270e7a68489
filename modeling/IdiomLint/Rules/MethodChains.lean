import IdiomLint.Check.Env
import IdiomLint.Check.Finding
import IdiomLint.Syntax.Walk

/-! Variables that only hold an object until its next method is called. -/
namespace IdiomLint.Rules.MethodChains

open Finding

/-- Whether a call is a chain of methods on the variable `name`, which its innermost call mentions
once. -/
def continues (name : String) : Node → Except Fault Bool
  | n@⟨_, .call ⟨_, .member base _⟩ _ _⟩ =>
    match base with
    | ⟨_, .name ref _⟩ =>
      if ref.name == name then (n.readCount name).map (· == 1) else .ok false
    | _ => continues name base
  | _ => .ok false

/-- A statement that could be chained onto the variable `name`, as long as nothing after it
mentions the variable. -/
structure Candidate where
  name : String
  stmt : Node

/-- The candidates whose variable a statement does not mention. -/
def stillOpen (stmt : Node) : List Candidate → Except Fault (List Candidate)
  | [] => .ok []
  | c :: rest => do
    let reads ← stmt.readCount c.name
    let more ← stillOpen stmt rest
    return if reads = 0 then c :: more else more

def assignmentMessage : String := "Assignment statement should be chained"

def returnMessage : String := "Return statement should be chained"

/-- Goes through the statements of a function. `last` is the variable assigned right before, empty
if there is none. -/
def chained (last : String) (candidates : List Candidate) :
    List Node → Except Fault (List Finding)
  | [] => .ok (candidates.map fun c => ofNode c.stmt assignmentMessage)
  | stmt :: rest => do
    let candidates ← stillOpen stmt candidates
    match stmt with
    | ⟨_, .assignment [⟨_, .name target _⟩] value⟩ =>
      let next := if target.name == "_" then "" else target.name
      let follows ← if last == "" then pure false else continues last value
      if follows then
        if last ++ "'" == target.name then
          return ofNode stmt assignmentMessage :: (← chained next candidates rest)
        else chained next (candidates ++ [⟨last, stmt⟩]) rest
      else chained next candidates rest
    | ⟨_, .returnStmt value⟩ =>
      let follows ← match value with
        | some v => if last == "" then pure false else continues last v
        | none => pure false
      if follows then return ofNode stmt returnMessage :: (← chained last candidates rest)
      else chained last candidates rest
    | _ => chained "" candidates rest

def fluentInterface (_ : Env) : Node → Except Fault (List Finding)
  | ⟨_, .function _ _ body _⟩ => chained "" [] (body.statementList?.getD [])
  | _ => .ok []

end IdiomLint.Rules.MethodChains
