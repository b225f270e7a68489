import IdiomLint.Rules.Conditions
import IdiomLint.Syntax.Walk

/-! Conditions that ask for the length of something only to know whether it is empty. -/
namespace IdiomLint.Rules.Emptiness

open Finding

/-- The argument of a call of `len` on something with a length. -/
def lengthOf? (env : Env) : Node → Except Fault (Option Node)
  | ⟨_, .call callee [⟨arg, _, _⟩] _⟩ =>
    if callee.isNameOf "builtins.len" then do
      return if ← env.isSized arg then some arg else none
    else .ok none
  | _ => .ok none

/-- What a comparison of a length with a number asks: that something is there, that nothing is
there, or something else. -/
def asksForItems? : CompareOp → Int → Option Bool
  | .eq, 0 => some false
  | .le, 0 => some false
  | .gt, 0 => some true
  | .ne, 0 => some true
  | .ge, 1 => some true
  | _, _ => none

/-- A container that has items exactly if the given one has: copies and views are looked
through. -/
def simplified (env : Env) : Node → Except Fault Node
  | n@⟨_, .call ⟨_, .name f _⟩ [⟨arg, _, _⟩] _⟩ =>
    if f.fullname == "builtins.list" then simplified env arg else .ok n
  | n@⟨_, .call ⟨_, .member base ref⟩ [] _⟩ =>
    if ref.name == "keys" || ref.name == "values" then do
      if ← env.isMapping base then simplified env base else return n
    else .ok n
  | n => .ok n

def isEmptyContainer : Node → Bool
  | ⟨_, .list []⟩ => true
  | ⟨_, .dict []⟩ => true
  | ⟨_, .tuple []⟩ => true
  | n => Conditions.isEmptySetCall n

def emptyComparison (env : Env) (n : Node) (op : CompareOp) (left right : Node) : List Finding :=
  let expected := (SymbolTable.simpleType? (env.typeOf right)).getD .nothing
  if (op == .eq || op == .ne) && isEmptyContainer right && env.hasType left [expected] then
    let x := left.sourceText
    [replace n n.sourceText (if op == .eq then "not " ++ x else x)]
  else []

def comparison (env : Env) (n : Node) : Except Fault (List Finding) :=
  match n with
  | ⟨_, .comparison [op] [left, ⟨_, .int k⟩]⟩ => do
    match ← lengthOf? env left, asksForItems? op k with
    | some container, some items =>
      let x := (← simplified env container).sourceText
      return [replace n n.sourceText (if items then x else "not " ++ x)]
    | _, _ => return []
  | ⟨_, .comparison [op] [left, right]⟩ => .ok (emptyComparison env n op left right)
  | _ => .ok []

def lengthCall (env : Env) (n : Node) : Except Fault (List Finding) := do
  match ← lengthOf? env n with
  | some arg => return [replace n n.sourceText arg.sourceText]
  | none => return []

/-- The parts of a condition that decide it: what `not`, `and` and `or` combine. -/
def deciding : Walk :=
  ⟨.calleeFirst, fun n => match n with
    | ⟨_, .unary _ _ _⟩ => none
    | ⟨_, .binary .and _ _ _ _⟩ => none
    | ⟨_, .binary .or _ _ _ _⟩ => none
    | _ => some 0⟩

def part (env : Env) (n : Node) : Except Fault (List Finding) :=
  match n with
  | ⟨_, .comparison _ _⟩ => comparison env n
  | ⟨_, .call _ _ _⟩ => lengthCall env n
  | _ => .ok []

def condition (env : Env) (n : Node) : Except Fault (List Finding) :=
  Node.foldEvents (fun found m => (part env m).map (found ++ ·)) [] (n.events deciding)

/-- The conditions of a node. -/
def conditionsOf : Node → List Node
  | ⟨_, .ifElse branches _⟩ => branches.map (·.1)
  | ⟨_, .matching _ cases⟩ => cases.filterMap (·.guard)
  | ⟨_, .generator _ clauses⟩ => clauses.flatMap (·.conditions)
  | ⟨_, .dictComp _ _ clauses⟩ => clauses.flatMap (·.conditions)
  | ⟨_, .conditional c _ _⟩ => [c]
  | ⟨_, .whileLoop c _ _⟩ => [c]
  | ⟨_, .assertion c _⟩ => [c]
  | _ => []

def lengthTest (env : Env) (n : Node) : Except Fault (List Finding) :=
  ((conditionsOf n).mapM (condition env)).map List.flatten

end IdiomLint.Rules.Emptiness
