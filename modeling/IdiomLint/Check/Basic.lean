import IdiomLint.Check.Env
import IdiomLint.Check.Finding
import IdiomLint.Syntax.NodeClass

/-! Checks: what they are called, which nodes they look at and what they report. -/
namespace IdiomLint

/-- A parameter of a symbol. `variant` tells the overloads of a function apart; the body they
share has none. -/
structure ParamKey where
  symbol : SymbolId
  variant : Option Nat
  index : Nat
deriving DecidableEq, Inhabited

/-- What a check remembers from node to node: nodes that are already dealt with, and default
values that it has learned. -/
structure Notes where
  seen : List NodeId := []
  defaults : List (ParamKey × Node) := []

instance : Inhabited Notes := ⟨{}⟩

/-- How a check judges a node. Most look at the node alone; some can meet a fault; a few remember
what they have seen. -/
inductive Judge where
  | plain (judge : Env → Node → List Finding)
  | fallible (judge : Env → Node → Except Fault (List Finding))
  | noting (judge : Env → Notes → Node → Except Fault (List Finding × Notes))

def Judge.run : Judge → Env → Notes → Node → Except Fault (List Finding × Notes)
  | plain f, env, notes, n => .ok (f env n, notes)
  | fallible f, env, notes, n => (f env n).map fun found => (found, notes)
  | noting f, env, notes, n => f env notes n

structure Check where
  code : Code
  name : Option String
  categories : List String
  enabled : Bool := true
  /-- The classes of nodes it is run on. -/
  classes : List NodeClass
  judge : Judge
  /-- The lines of its explanation; none if it has no explanation. -/
  explanation : Option (List String)
  /-- Where it is kept. -/
  location : String

def Check.kind (c : Check) : Kind := ⟨c.code, c.categories, c.enabled⟩

end IdiomLint
