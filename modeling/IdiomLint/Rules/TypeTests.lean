import IdiomLint.Rules.Comparisons

/-! Tests of the type of a value. -/
namespace IdiomLint.Rules.TypeTests

open Finding

/-- `type(x) is type(None)`. -/
def typeIsNone (_ : Env) : Node → List Finding
  | n@⟨_, .comparison [op] [⟨_, .call callee [⟨arg, _, _⟩] _⟩, right]⟩ =>
    if Comparisons.isSameness op && callee.isNameOf "builtins.type" && right.isTypeOfNone then
      let x := arg.sourceText
      let new := if op == .is || op == .eq then "is" else "is not"
      [replace n ("type(" ++ x ++ ") " ++ op.symbol ++ " type(None)") (x ++ " " ++ new ++ " None")]
    else []
  | _ => []

/-- The place of `type(None)` in a union, counted by how often a right side was entered. -/
def noneInUnion? (place : Nat) : Node → Option Nat
  | n@⟨_, .binary op left right _ _⟩ =>
    if n.isTypeOfNone then some place
    else if op = .bitOr then (noneInUnion? place left).or (noneInUnion? (place + 1) right)
    else none
  | n => if n.isTypeOfNone then some place else none

/-- How the types that an instance test lists are shown if `type(None)` is one of them. -/
def typesWithNone? : Node → Option String
  | n@⟨_, .binary .bitOr _ _ _ _⟩ =>
    (noneInUnion? 0 n).map fun place =>
      if place = 0 then "type(None) | ..." else "... | type(None)"
  | ⟨_, .tuple items⟩ =>
    (items.findIdx? Node.isTypeOfNone).map fun place =>
      if place = 0 then "(type(None), ...)" else "(..., type(None))"
  | _ => none

def instanceOfNone (_ : Env) : Node → List Finding
  | n@⟨_, .call callee [_, ⟨type, _, _⟩] _⟩ =>
    if callee.isNameOf "builtins.isinstance" then
      if type.isTypeOfNone then [replace n "isinstance(x, type(None))" "x is None"]
      else
        match typesWithNone? type with
        | some types =>
          [replace n ("isinstance(x, " ++ types ++ ")") "x is None or isinstance(x, ...)"]
        | none => []
    else []
  | _ => []

/-- Two tests of one value. The second test has to have an argument to compare with. -/
def sameValueTests (env : Env) (n : Node) : Except Fault (List Finding) :=
  match n.operands? .or with
  | some (⟨_, .call ⟨_, .name f _⟩ [⟨value, _, _⟩, ⟨type, _, _⟩] _⟩,
      ⟨_, .call ⟨_, .name g _⟩ others _⟩) =>
    if f.fullname == g.fullname
        && (f.fullname == "builtins.isinstance" || f.fullname == "builtins.issubclass") then
      match others with
      | [] => .error .outOfRange
      | other :: _ =>
        if value.equivalent other.value then
          let types := if env.version.atLeast 3 10 then "y | z" else "(y, z)"
          .ok [replace type (f.name ++ "(x, y) or " ++ f.name ++ "(x, z)")
            (f.name ++ "(x, " ++ types ++ ")")]
        else .ok []
    else .ok []
  | _ => .ok []

end IdiomLint.Rules.TypeTests
