import IdiomLint.Check.Env
import IdiomLint.Check.Finding
import IdiomLint.Syntax.Walk
import IdiomLint.Syntax.SourceText

/-! Loops that bind a variable without using it. -/
namespace IdiomLint.Rules.Loops

open Finding

/-- What a loop or a comprehension with one clause binds, what it goes through, and where the bound
names can be used. -/
structure LoopLike where
  index : Node
  source : Node
  contexts : List Node

def loopLike? : Node → Option LoopLike
  | ⟨_, .forLoop index source body _ _⟩ => some ⟨index, source, [body]⟩
  | ⟨_, .generator element [c]⟩ => some ⟨c.index, c.source, element :: c.conditions⟩
  | ⟨_, .dictComp key value [c]⟩ => some ⟨c.index, c.source, key :: value :: c.conditions⟩
  | _ => none

/-- The two names that a loop binds. -/
def namePair? : Node → Option (Node × Node)
  | ⟨_, .tuple [a@⟨_, .name _ _⟩, b@⟨_, .name _ _⟩]⟩ => some (a, b)
  | _ => none

def isUnused (name : Node) (contexts : List Node) : Except Fault Bool :=
  unusedIn ((name.ref?.map (·.fullname)).getD "") contexts

/-- A finding for each of two names that is not used. -/
def unusedNames (first second : Node) (contexts : List Node) (firstMessage secondMessage : String) :
    Except Fault (List Finding) := do
  let firstUnused ← isUnused first contexts
  let secondUnused ← isUnused second contexts
  return (if firstUnused then [ofNode first firstMessage] else [])
    ++ (if secondUnused then [ofNode second secondMessage] else [])

def dictItems (env : Env) (n : Node) : Except Fault (List Finding) :=
  match loopLike? n with
  | some ⟨index, ⟨_, .call ⟨_, .member dict ref⟩ [] _⟩, contexts⟩ =>
    match namePair? index with
    | some (key, value) =>
      if ref.name == "items" then do
        if ← env.isMapping dict then
          let d := dict.sourceText
          unusedNames key value contexts
            ("Key is unused, use `for " ++ value.sourceText ++ " in " ++ d ++ ".values()` instead")
            ("Value is unused, use `for " ++ key.sourceText ++ " in " ++ d ++ "` instead")
        else return []
      else .ok []
    | none => .ok []
  | _ => .ok []

def enumeration (env : Env) (n : Node) : Except Fault (List Finding) :=
  match loopLike? n with
  | some ⟨index, ⟨_, .call callee [⟨arg, _, _⟩] _⟩, contexts⟩ =>
    match namePair? index with
    | some (count, value) =>
      if callee.isNameOf "builtins.enumerate" then do
        if ← env.inherits arg "typing.Sequence" then
          let xs := arg.sourceText
          unusedNames count value contexts
            ("Index is unused, use `for " ++ value.sourceText ++ " in " ++ xs ++ "` instead")
            ("Value is unused, use `for " ++ count.sourceText ++ " in range(len(" ++ xs
              ++ "))` instead")
        else return []
      else .ok []
    | none => .ok []
  | _ => .ok []

end IdiomLint.Rules.Loops
