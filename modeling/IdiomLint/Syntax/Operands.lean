import IdiomLint.Syntax.Equivalence

/-! The two operands next to each other in a chain of one operator, and the operands that two
comparisons have in common. -/
namespace IdiomLint

namespace Node

/-- The first two operands of a chain of the operator `op`. A right operand that is built with
another operator gives none. -/
def operands? (op : BinaryOp) : Node → Option (Node × Node)
  | ⟨_, .binary o left right _ _⟩ =>
    if o = op then
      match right with
      | ⟨_, .binary o' next _ _ _⟩ => if o' = op then some (left, next) else none
      | _ => if right.isExpression then some (left, right) else none
    else none
  | _ => none

end Node

/-- The positions of the first two equivalent nodes, in the order in which pairs are listed: by
first member, then by second. -/
def commonPositions (nodes : List Node) : Option (Nat × Nat) :=
  let indexed := nodes.zipIdx
  indexed.findSome? fun (a, i) =>
    (indexed.drop (i + 1)).findSome? fun (b, j) => if a.equivalent b then some (i, j) else none

/-- For two comparisons by `cmp` that `op` joins: the first operand, and the positions of two
equivalent ones among all four. -/
def commonInChain? (op : BinaryOp) (cmp : CompareOp) (n : Node) : Option (Node × Nat × Nat) :=
  match n.operands? op with
  | some (⟨_, .comparison [o] [a, b]⟩, ⟨_, .comparison [o'] [c, d]⟩) =>
    if o = cmp ∧ o' = cmp then (commonPositions [a, b, c, d]).map fun ij => (a, ij) else none
  | _ => none

end IdiomLint
