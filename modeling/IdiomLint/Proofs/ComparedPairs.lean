import IdiomLint.Rules.Comparisons

/-! Two comparisons that share an operand. Joined by `or` they are shown as membership in a pair,
joined by `and` as a chain. Objects are compared by an equality that is symmetric and transitive; an
object that does not equal itself is still an item of every tuple that holds it. The suggestion is
right if one comparison has the shared operand on each of its sides; if both of its places are in one
comparison, that comparison says nothing about the others, and it is wrong in general. -/
namespace IdiomLint

namespace Comparing

/-- What comparisons say about objects. -/
structure Domain (Object : Type) where
  /-- What `==` says. An object need not be equal to itself. -/
  equal : Object → Object → Prop
  symm : ∀ {a b}, equal a b → equal b a
  trans : ∀ {a b c}, equal a b → equal b c → equal a c
  /-- What the operators besides `==`, `is` and membership in a tuple say. -/
  other : CompareOp → Object → Object → Prop
  /-- Which objects count as true. -/
  holds : Object → Prop

namespace Domain

variable {Object : Type} (D : Domain Object) (value : Node → Object)

def relates : CompareOp → Object → Object → Prop
  | .eq => D.equal
  | .is => Eq
  | op => D.other op

/-- What an operator says of two operands. A tuple has for members what is one of its items or equals
one. -/
def compares : CompareOp → Node → Node → Prop
  | .isIn, a, ⟨_, .tuple items⟩ => ∃ m ∈ items, value a = value m ∨ D.equal (value a) (value m)
  | op, a, b => D.relates op (value a) (value b)

def chained : List CompareOp → List Node → Prop
  | op :: ops, a :: b :: rest => D.compares value op a b ∧ chained ops (b :: rest)
  | _, _ => True

def isTrue : Node → Prop
  | ⟨_, .comparison ops operands⟩ => D.chained value ops operands
  | ⟨_, .binary .and l r _ _⟩ => isTrue l ∧ isTrue r
  | ⟨_, .binary .or l r _ _⟩ => isTrue l ∨ isTrue r
  | n => D.holds (value n)

variable {D value} {i : Info} {l r : Node}

theorem isTrue_comparison {op : CompareOp} (h : op = .eq ∨ op = .is) :
    D.isTrue value ⟨i, .comparison [op] [l, r]⟩ ↔ D.relates op (value l) (value r) := by
  rcases h with rfl | rfl <;> exact and_iff_left trivial

theorem isTrue_chain {op : CompareOp} {m : Node} (h : op = .eq ∨ op = .is) :
    D.isTrue value ⟨i, .comparison [op, op] [l, m, r]⟩ ↔
      D.relates op (value l) (value m) ∧ D.relates op (value m) (value r) := by
  rcases h with rfl | rfl <;> exact and_congr_right fun _ => and_iff_left trivial

theorem relates_symm {op : CompareOp} (h : op = .eq ∨ op = .is) {x y : Object}
    (hxy : D.relates op x y) : D.relates op y x := by
  rcases h with rfl | rfl
  · exact D.symm hxy
  · exact Eq.symm hxy

theorem relates_trans {op : CompareOp} (h : op = .eq ∨ op = .is) {x y z : Object}
    (hxy : D.relates op x y) (hyz : D.relates op y z) : D.relates op x z := by
  rcases h with rfl | rfl
  · exact D.trans hxy hyz
  · exact Eq.trans hxy hyz

theorem isTrue_isIn {j : Info} {m : Node} :
    D.isTrue value ⟨i, .comparison [.isIn] [m, ⟨j, .tuple [l, r]⟩]⟩ ↔
      (value m = value l ∨ D.equal (value m) (value l)) ∨
        value m = value r ∨ D.equal (value m) (value r) := by
  change (∃ o ∈ [l, r], value m = value o ∨ D.equal (value m) (value o)) ∧ True ↔ _
  simp

end Domain

end Comparing

/-- The positions that are found are in order, and the nodes there are the same. -/
theorem commonPositions_eq_some {nodes : List Node} {i j : Nat}
    (h : commonPositions nodes = some (i, j)) :
    i < j ∧ ∃ a b, nodes[i]? = some a ∧ nodes[j]? = some b ∧ a.equivalent b := by
  obtain ⟨⟨a, i'⟩, ha, h⟩ := List.exists_of_findSome?_eq_some h
  obtain ⟨⟨b, j'⟩, hb, h⟩ := List.exists_of_findSome?_eq_some h
  rw [Option.ite_none_right_eq_some] at h
  obtain ⟨same, h⟩ := h
  cases h
  obtain ⟨k, hk⟩ := List.mem_iff_getElem?.1 hb
  rw [List.getElem?_drop, List.getElem?_zipIdx, Option.map_eq_some_iff] at hk
  obtain ⟨b', hb', shown⟩ := hk
  cases shown
  refine ⟨by omega, a, b, List.mem_zipIdx_iff_getElem?.1 ha, ?_, same⟩
  rwa [Nat.zero_add]

namespace Rules.Comparisons

open Comparing Finding

/-- Two comparisons by one operator that `op` joins. The operands at `i` and `j` are the same. -/
structure Pair where
  op : BinaryOp
  cmp : CompareOp
  a : Node
  b : Node
  c : Node
  d : Node
  i : Nat
  j : Nat

namespace Pair

variable (p : Pair)

def operands : List Node := [p.a, p.b, p.c, p.d]

def shared : Node := (p.operands[p.i]?).getD p.a

def others : Node × Node :=
  match (p.operands.eraseIdx p.j).eraseIdx p.i with
  | [x, y] => (x, y)
  | _ => (p.a, p.b)

/-- Whether each of the comparisons has the shared operand. -/
def crosses : Prop := p.i < 2 ∧ 2 ≤ p.j

def node : Node :=
  ⟨default, .binary p.op ⟨default, .comparison [p.cmp] [p.a, p.b]⟩
    ⟨default, .comparison [p.cmp] [p.c, p.d]⟩ none none⟩

/-- What is suggested: membership, or a chain of the operands without the repeated one. -/
def suggestion : Node :=
  if p.op = .or then
    ⟨default, .comparison [.isIn] [p.shared, ⟨default, .tuple [p.others.1, p.others.2]⟩]⟩
  else ⟨default, .comparison [p.cmp, p.cmp] (p.operands.eraseIdx p.j)⟩

def lettered (op : BinaryOp) (cmp : CompareOp) (i j : Nat) : Pair :=
  let letter (k : Nat) : Node :=
    let name := ((operandNames i j)[k]?).getD ""
    ⟨default, .name ⟨name, name, none, false⟩ none⟩
  ⟨op, cmp, letter 0, letter 1, letter 2, letter 3, i, j⟩

/-- The pair that a finding is about, with the text of the finding. -/
structure ReportedAt (n : Node) (f : Finding) : Prop where
  found : ∃ i j, n.operands? p.op = some (⟨i, .comparison [p.cmp] [p.a, p.b]⟩,
    ⟨j, .comparison [p.cmp] [p.c, p.d]⟩)
  kind : (p.op = .or ∧ p.cmp = .eq) ∨ (p.op = .and ∧ (p.cmp = .eq ∨ p.cmp = .is))
  positions : commonPositions p.operands = some (p.i, p.j)
  text : f = replace p.a (lettered p.op p.cmp p.i p.j).node.sourceText
    (lettered p.op p.cmp p.i p.j).suggestion.sourceText

/-- What has to hold for the suggestion to be right. -/
def Fits {Object : Type} (D : Domain Object) (value : Node → Object) : Prop :=
  let same := D.relates p.cmp
  let s := value p.shared
  let x := value p.others.1
  let y := value p.others.2
  match p.op with
  | .or =>
    (p.crosses → same s s ∨ (s ≠ x ∧ s ≠ y)) ∧
    (¬p.crosses → (same s s → same s x ∨ same s y) ∧ (¬same s s → ¬same x y ∧ s ≠ x ∧ s ≠ y))
  | _ => ¬p.crosses → same s s → same x y → same s x

end Pair

theorem positions_of_lt {i j : Nat} (h : i < j) (le : j < 4) :
    (i = 0 ∧ j = 1) ∨ (i = 0 ∧ j = 2) ∨ (i = 0 ∧ j = 3) ∨ (i = 1 ∧ j = 2) ∨ (i = 1 ∧ j = 3) ∨
      (i = 2 ∧ j = 3) := by
  omega

theorem text_lettered_or : ∀ i < 4, ∀ j < 4, i < j →
    (Pair.lettered .or .eq i j).node.sourceText = twoComparisons (operandNames i j) "==" "or" ∧
    (Pair.lettered .or .eq i j).suggestion.sourceText =
      (["x", "y", "z"][i]?).getD "" ++ " in (" ++ ", ".intercalate
        ((operandNames i j).filter (· != (["x", "y", "z"][i]?).getD "")) ++ ")" := by
  decide +kernel

theorem text_lettered_and : ∀ cmp ∈ [CompareOp.eq, .is], ∀ i < 4, ∀ j < 4, i < j →
    (Pair.lettered .and cmp i j).node.sourceText =
      twoComparisons (operandNames i j) cmp.symbol "and" ∧
    (Pair.lettered .and cmp i j).suggestion.sourceText =
      "x " ++ cmp.symbol ++ " y " ++ cmp.symbol ++ " z" := by
  decide +kernel

theorem commonInChain?_eq_some {op : BinaryOp} {cmp : CompareOp} {n first : Node} {i j : Nat}
    (h : commonInChain? op cmp n = some (first, i, j)) :
    ∃ k l a b c d, n.operands? op = some (⟨k, .comparison [cmp] [a, b]⟩,
        ⟨l, .comparison [cmp] [c, d]⟩) ∧
      commonPositions [a, b, c, d] = some (i, j) ∧ first = a := by
  unfold commonInChain? at h
  split at h
  case h_1 k o a b l o' c d found =>
    rw [Option.ite_none_right_eq_some, Option.map_eq_some_iff] at h
    obtain ⟨⟨rfl, rfl⟩, ij, positions, shown⟩ := h
    cases shown
    exact ⟨k, l, first, b, c, d, found, positions, rfl⟩
  case h_2 => cases h

theorem lt_of_commonPositions {a b c d : Node} {i j : Nat}
    (h : commonPositions [a, b, c, d] = some (i, j)) : i < j ∧ j < 4 := by
  obtain ⟨lt, -, y, -, hy, -⟩ := commonPositions_eq_some h
  exact ⟨lt, (List.getElem?_eq_some_iff.1 hy).1⟩

theorem exists_pair_of_mem_chainFor {n : Node} {cmp : CompareOp} (isSame : cmp = .eq ∨ cmp = .is)
    {f : Finding} (hf : f ∈ chainFor n cmp) : ∃ p : Pair, p.ReportedAt n f := by
  unfold chainFor at hf
  split at hf
  case h_1 first i j common =>
    obtain ⟨k, l, a, b, c, d, found, positions, rfl⟩ := commonInChain?_eq_some common
    obtain ⟨lt, le⟩ := lt_of_commonPositions positions
    obtain ⟨old, new⟩ := text_lettered_and cmp (by simpa using isSame) i (by omega) j le lt
    refine ⟨⟨.and, cmp, first, b, c, d, i, j⟩, ⟨⟨k, l, found⟩, .inr ⟨rfl, isSame⟩, positions, ?_⟩⟩
    rw [old, new]
    exact List.mem_singleton.1 hf
  case h_2 => cases hf

theorem exists_pair_of_mem {env : Env} {n : Node} {f : Finding}
    (hf : f ∈ alternatives env n ∨ f ∈ chain env n) : ∃ p : Pair, p.ReportedAt n f := by
  rcases hf with hf | hf
  · unfold alternatives at hf
    split at hf
    case h_1 first i j common =>
      obtain ⟨k, l, a, b, c, d, found, positions, rfl⟩ := commonInChain?_eq_some common
      obtain ⟨lt, le⟩ := lt_of_commonPositions positions
      obtain ⟨old, new⟩ := text_lettered_or i (by omega) j le lt
      refine ⟨⟨.or, .eq, first, b, c, d, i, j⟩, ⟨⟨k, l, found⟩, .inl ⟨rfl, rfl⟩, positions, ?_⟩⟩
      rw [old, new]
      exact List.mem_singleton.1 hf
    case h_2 => cases hf
  · rcases List.mem_append.1 hf with hf | hf
    · exact exists_pair_of_mem_chainFor (.inl rfl) hf
    · exact exists_pair_of_mem_chainFor (.inr rfl) hf

def joined (op : BinaryOp) (P Q : Prop) : Prop := if op = .or then P ∨ Q else P ∧ Q

namespace Pair

variable {p : Pair} {Object : Type} {D : Domain Object} {value : Node → Object}

theorem isTrue_node (connects : p.op = .or ∨ p.op = .and) (same : p.cmp = .eq ∨ p.cmp = .is) :
    D.isTrue value p.node ↔ joined p.op (D.relates p.cmp (value p.a) (value p.b))
      (D.relates p.cmp (value p.c) (value p.d)) := by
  obtain ⟨op, cmp, a, b, c, d, i, j⟩ := p
  rcases connects with rfl | rfl
  · exact or_congr (Domain.isTrue_comparison same) (Domain.isTrue_comparison same)
  · exact and_congr (Domain.isTrue_comparison same) (Domain.isTrue_comparison same)

def SharedValue (p : Pair) (value : Node → Object) : Prop :=
  ∀ a b, p.operands[p.i]? = some a → p.operands[p.j]? = some b → value a = value b

/-- Either each comparison is between the shared operand and another one, or one is between the shared
operand and itself. -/
theorem values_cases (shared : p.SharedValue value) (lt : p.i < p.j) (le : p.j < 4) :
    (p.crosses ∧
      (value p.a = value p.shared ∧ value p.b = value p.others.1 ∨
        value p.a = value p.others.1 ∧ value p.b = value p.shared) ∧
      (value p.c = value p.shared ∧ value p.d = value p.others.2 ∨
        value p.c = value p.others.2 ∧ value p.d = value p.shared)) ∨
    (¬p.crosses ∧
      (value p.a = value p.shared ∧ value p.b = value p.shared ∧
          value p.c = value p.others.1 ∧ value p.d = value p.others.2 ∨
        value p.a = value p.others.1 ∧ value p.b = value p.others.2 ∧
          value p.c = value p.shared ∧ value p.d = value p.shared)) := by
  obtain ⟨op, cmp, a, b, c, d, i, j⟩ := p
  rcases positions_of_lt lt le with ⟨rfl, rfl⟩ | ⟨rfl, rfl⟩ | ⟨rfl, rfl⟩ | ⟨rfl, rfl⟩ |
    ⟨rfl, rfl⟩ | ⟨rfl, rfl⟩
  · exact .inr ⟨by simp [Pair.crosses], .inl ⟨rfl, (shared a b rfl rfl).symm, rfl, rfl⟩⟩
  · exact .inl ⟨by simp [Pair.crosses], .inl ⟨rfl, rfl⟩, .inl ⟨(shared a c rfl rfl).symm, rfl⟩⟩
  · exact .inl ⟨by simp [Pair.crosses], .inl ⟨rfl, rfl⟩, .inr ⟨rfl, (shared a d rfl rfl).symm⟩⟩
  · exact .inl ⟨by simp [Pair.crosses], .inr ⟨rfl, rfl⟩, .inl ⟨(shared b c rfl rfl).symm, rfl⟩⟩
  · exact .inl ⟨by simp [Pair.crosses], .inr ⟨rfl, rfl⟩, .inr ⟨rfl, (shared b d rfl rfl).symm⟩⟩
  · exact .inr ⟨by simp [Pair.crosses], .inr ⟨rfl, rfl, rfl, (shared c d rfl rfl).symm⟩⟩

/-- The chain goes through the shared operand and the others, in some order. -/
theorem chain_cases (lt : p.i < p.j) (le : p.j < 4) :
    p.operands.eraseIdx p.j = [p.shared, p.others.1, p.others.2] ∨
      p.operands.eraseIdx p.j = [p.others.1, p.shared, p.others.2] ∨
      p.operands.eraseIdx p.j = [p.others.1, p.others.2, p.shared] := by
  obtain ⟨op, cmp, a, b, c, d, i, j⟩ := p
  rcases positions_of_lt lt le with ⟨rfl, rfl⟩ | ⟨rfl, rfl⟩ | ⟨rfl, rfl⟩ | ⟨rfl, rfl⟩ |
    ⟨rfl, rfl⟩ | ⟨rfl, rfl⟩
  · exact .inl rfl
  · exact .inl rfl
  · exact .inl rfl
  · exact .inr (.inl rfl)
  · exact .inr (.inl rfl)
  · exact .inr (.inr rfl)

theorem isTrue_suggestion_or (isOr : p.op = .or) :
    D.isTrue value p.suggestion ↔
      (value p.shared = value p.others.1 ∨ D.equal (value p.shared) (value p.others.1)) ∨
        value p.shared = value p.others.2 ∨ D.equal (value p.shared) (value p.others.2) := by
  rw [suggestion, if_pos isOr, Domain.isTrue_isIn]

/-- In whatever order a chain goes through three objects, it says that all of them are the same. -/
theorem isTrue_suggestion_and (isAnd : p.op = .and) (same : p.cmp = .eq ∨ p.cmp = .is)
    (lt : p.i < p.j) (le : p.j < 4) :
    D.isTrue value p.suggestion ↔ D.relates p.cmp (value p.shared) (value p.others.1) ∧
      D.relates p.cmp (value p.shared) (value p.others.2) := by
  have symm {x y : Object} : D.relates p.cmp x y → D.relates p.cmp y x := Domain.relates_symm same
  have trans {x y z : Object} : D.relates p.cmp x y → D.relates p.cmp y z → D.relates p.cmp x z :=
    Domain.relates_trans same
  rw [suggestion, if_neg (by simp [isAnd])]
  rcases chain_cases lt le with shown | shown | shown <;>
    rw [shown, Domain.isTrue_chain same]
  · exact ⟨fun h => ⟨h.1, trans h.1 h.2⟩, fun h => ⟨h.1, trans (symm h.1) h.2⟩⟩
  · exact ⟨fun h => ⟨symm h.1, h.2⟩, fun h => ⟨symm h.1, h.2⟩⟩
  · exact ⟨fun h => ⟨symm (trans h.1 h.2), symm h.2⟩,
      fun h => ⟨trans (symm h.1) h.2, symm h.2⟩⟩

/-- The suggestion says the same as the two comparisons exactly if it fits. -/
theorem isTrue_iff_suggestion (kind : (p.op = .or ∧ p.cmp = .eq) ∨
      (p.op = .and ∧ (p.cmp = .eq ∨ p.cmp = .is)))
    (shared : p.SharedValue value) (lt : p.i < p.j) (le : p.j < 4) :
    (D.isTrue value p.node ↔ D.isTrue value p.suggestion) ↔ p.Fits D value := by
  rcases kind with ⟨isOr, isEq⟩ | ⟨isAnd, same⟩
  · have symm {x y : Object} : D.equal x y → D.equal y x := D.symm
    have trans {x y z : Object} : D.equal x y → D.equal y z → D.equal x z := D.trans
    rw [isTrue_node (.inl isOr) (.inl isEq), isTrue_suggestion_or isOr]
    simp only [Fits, joined, isOr, isEq, if_true, Domain.relates]
    rcases values_cases shared lt le with ⟨crosses, first, second⟩ | ⟨apart, layout⟩
    · grind
    · grind
  · have symm {x y : Object} : D.relates p.cmp x y → D.relates p.cmp y x :=
      Domain.relates_symm same
    have trans {x y z : Object} : D.relates p.cmp x y → D.relates p.cmp y z →
        D.relates p.cmp x z := Domain.relates_trans same
    rw [isTrue_node (.inr isAnd) same, isTrue_suggestion_and isAnd same lt le]
    simp only [Fits, joined, isAnd, reduceCtorEq, if_false]
    rcases values_cases shared lt le with ⟨crosses, first, second⟩ | ⟨apart, layout⟩
    · grind
    · grind

end Pair

/-- A chain of `op` with a node in the place of its first two operands. -/
def inPlace (op : BinaryOp) (n new : Node) : Node :=
  match n with
  | ⟨i, .binary _ _ ⟨_, .binary o _ rest _ _⟩ method analyzed⟩ =>
    if o = op then ⟨i, .binary op new rest method analyzed⟩ else new
  | _ => new

theorem isTrue_inPlace {Object : Type} {D : Domain Object} {value : Node → Object} {op : BinaryOp}
    (connects : op = .or ∨ op = .and) {n l r new : Node} (h : n.operands? op = some (l, r))
    (same : D.isTrue value new ↔ joined op (D.isTrue value l) (D.isTrue value r)) :
    D.isTrue value (inPlace op n new) ↔ D.isTrue value n := by
  have whole (i : Info) (l r : Node) (method : Option Ty) (analyzed : Option Node) :
      D.isTrue value ⟨i, .binary op l r method analyzed⟩ ↔
        joined op (D.isTrue value l) (D.isTrue value r) := by
    rcases connects with rfl | rfl <;> rfl
  unfold Node.operands? at h
  split at h
  case h_1 i o left right method analyzed =>
    rw [Option.ite_none_right_eq_some] at h
    obtain ⟨rfl, h⟩ := h
    split at h
    case h_1 k o' next rest method' analyzed' =>
      rw [Option.ite_none_right_eq_some] at h
      obtain ⟨rfl, shown⟩ := h
      cases shown
      have replaced : inPlace o' ⟨i, .binary o' l ⟨k, .binary o' r rest method' analyzed'⟩ method
          analyzed⟩ new = ⟨i, .binary o' new rest method analyzed⟩ := if_pos rfl
      rw [replaced, whole, whole, whole, same]
      rcases connects with rfl | rfl
      · exact or_assoc
      · exact and_assoc
    case h_2 other =>
      rw [Option.ite_none_right_eq_some] at h
      obtain ⟨-, shown⟩ := h
      cases shown
      have replaced : inPlace o ⟨i, .binary o l r method analyzed⟩ new = new := by
        unfold inPlace
        split
        case h_1 shape =>
          cases shape
          exact absurd rfl (other _ _ _ _ _ _)
        case h_2 => rfl
      rw [replaced, whole, same]
  case h_2 => cases h

/-- What is suggested for two comparisons says the same as they do exactly if it fits: if each of them
has the shared operand and that equals itself, always. -/
theorem compared_pair_same_iff {env : Env} {n : Node} {f : Finding}
    (hf : f ∈ alternatives env n ∨ f ∈ chain env n) :
    ∃ p : Pair, p.ReportedAt n f ∧
      ∀ (Object : Type) (D : Domain Object) (value : Node → Object),
        (∀ a ∈ p.operands, ∀ b ∈ p.operands, a.equivalent b → value a = value b) →
        ((D.isTrue value p.node ↔ D.isTrue value p.suggestion) ↔ p.Fits D value) ∧
        (p.Fits D value →
          (D.isTrue value (inPlace p.op n p.suggestion) ↔ D.isTrue value n)) := by
  obtain ⟨p, reported⟩ := exists_pair_of_mem hf
  refine ⟨p, reported, fun Object D value uniform => ?_⟩
  obtain ⟨lt, le⟩ := lt_of_commonPositions reported.positions
  have shared : p.SharedValue value := by
    intro a b ha hb
    obtain ⟨-, a', b', ha', hb', equivalent⟩ := commonPositions_eq_some reported.positions
    obtain rfl : a = a' := Option.some.inj (ha.symm.trans ha')
    obtain rfl : b = b' := Option.some.inj (hb.symm.trans hb')
    exact uniform a (List.mem_of_getElem? ha) b (List.mem_of_getElem? hb) equivalent
  have iff := p.isTrue_iff_suggestion (D := D) reported.kind shared lt le
  refine ⟨iff, fun fits => ?_⟩
  have connects : p.op = .or ∨ p.op = .and := reported.kind.imp And.left And.left
  have same : p.cmp = .eq ∨ p.cmp = .is := by
    rcases reported.kind with ⟨-, isEq⟩ | ⟨-, same⟩
    · exact .inl isEq
    · exact same
  obtain ⟨i, j, found⟩ := reported.found
  refine isTrue_inPlace connects found ?_
  rw [← iff.2 fits, Pair.isTrue_node connects same, Domain.isTrue_comparison same,
    Domain.isTrue_comparison same]

/-- Numbers, and one object that does not equal itself. -/
def numbers : Domain (Option Nat) where
  equal a b := ∃ k, a = some k ∧ b = some k
  symm := fun ⟨k, ha, hb⟩ => ⟨k, hb, ha⟩
  trans := fun ⟨k, ha, hb⟩ ⟨_, hb', hc⟩ => ⟨k, ha, hc.trans (hb'.symm.trans hb)⟩
  other _ _ _ := False
  holds a := a ≠ some 0

/-- The numbers that names stand for. What is not in the table does not equal itself. -/
def numberOf (table : List (String × Nat)) (n : Node) : Option Nat :=
  n.ref?.bind fun ref => table.lookup ref.name

def variableOf (name : String) : Node := ⟨default, .name ⟨name, name, none, false⟩ none⟩

def pairOf (op : BinaryOp) (a b c d : String) (i j : Nat) : Pair :=
  ⟨op, .eq, variableOf a, variableOf b, variableOf c, variableOf d, i, j⟩

theorem Pair.eq_of_reportedAt {p q : Pair} {f : Finding}
    (positions : commonPositions p.operands = some (p.i, p.j)) (h : q.ReportedAt p.node f) :
    q = p := by
  obtain ⟨⟨k, l, found⟩, kind, positions', -⟩ := h
  have own : q.op = p.op := by
    by_cases same : p.op = q.op
    · exact same.symm
    · have nothing : p.node.operands? q.op = none := if_neg same
      rw [nothing] at found
      cases found
  have ownFound : p.node.operands? p.op = some (⟨default, .comparison [p.cmp] [p.a, p.b]⟩,
      ⟨default, .comparison [p.cmp] [p.c, p.d]⟩) := if_pos rfl
  rw [own, ownFound] at found
  obtain ⟨op, cmp, a, b, c, d, i, j⟩ := q
  obtain ⟨op', cmp', a', b', c', d', i', j'⟩ := p
  cases found
  cases own
  cases positions.symm.trans positions'
  rfl

/-- `x == y or z == x` can be written as `x in (y, z)` even if `x` does not equal itself. -/
theorem compared_pair_same_iff_turned :
    let env : Env := ⟨.empty, ⟨3, 10⟩, []⟩
    let p := pairOf .or "x" "y" "z" "x" 0 3
    let value := numberOf [("y", 1), ("z", 2)]
    ∃ f, f ∈ alternatives env p.node ∧
      f.message = "Replace `x == y or z == x` with `x in (y, z)`" ∧
      (∀ a ∈ p.operands, ∀ b ∈ p.operands, a.equivalent b → value a = value b) ∧
      ¬numbers.equal (value (variableOf "x")) (value (variableOf "x")) ∧
      (numbers.isTrue value p.node ↔ numbers.isTrue value p.suggestion) := by
  intro env p value
  obtain ⟨f, hf⟩ : ∃ f, f ∈ alternatives env p.node := ⟨_, List.mem_singleton.2 rfl⟩
  have uniform : ∀ a ∈ p.operands, ∀ b ∈ p.operands, a.equivalent b → value a = value b := by
    decide +kernel
  obtain ⟨q, reported, same⟩ := compared_pair_same_iff (.inl hf)
  obtain rfl : p = q := (Pair.eq_of_reportedAt rfl reported).symm
  have unequal : ¬numbers.equal none none := by simp [numbers]
  have fits : p.Fits numbers value := by
    refine ⟨fun _ => .inr ⟨?_, ?_⟩, fun apart => absurd ⟨?_, ?_⟩ apart⟩ <;> decide
  refine ⟨f, hf, ?_, uniform, unequal, (same _ numbers value uniform).1.2 fits⟩
  rw [reported.text]
  decide +kernel

/-- `x == x or y == z` is no membership, and `x == x and y == z` no chain. -/
theorem repeated_operand_reported :
    let env : Env := ⟨.empty, ⟨3, 10⟩, []⟩
    let p := pairOf .or "x" "x" "y" "z" 0 1
    let q := pairOf .and "x" "x" "y" "z" 0 1
    let value := numberOf [("x", 0), ("y", 1), ("z", 1)]
    ((∃ f, f ∈ alternatives env p.node ∧ p.ReportedAt p.node f) ∧
      numbers.isTrue value p.node ∧ ¬numbers.isTrue value p.suggestion) ∧
    (∃ f, f ∈ chain env q.node ∧ q.ReportedAt q.node f) ∧
      numbers.isTrue value q.node ∧ ¬numbers.isTrue value q.suggestion := by
  intro env p q value
  have differ : ¬(some 0 = some 1) := by decide
  have unequal : ¬numbers.equal (some 0) (some 1) := by simp [numbers]
  have equal (k : Nat) : numbers.equal (some k) (some k) := ⟨k, rfl, rfl⟩
  refine ⟨⟨?_, ?_, ?_⟩, ?_, ?_, ?_⟩
  · obtain ⟨f, hf⟩ : ∃ f, f ∈ alternatives env p.node := ⟨_, List.mem_singleton.2 rfl⟩
    obtain ⟨r, reported⟩ := exists_pair_of_mem (.inl hf)
    exact ⟨f, hf, Pair.eq_of_reportedAt rfl reported ▸ reported⟩
  · exact (Pair.isTrue_node (.inl rfl) (.inl rfl)).2 (.inl (equal 0))
  · rw [Pair.isTrue_suggestion_or rfl]
    rintro ((same | same) | same | same)
    · exact differ same
    · exact unequal same
    · exact differ same
    · exact unequal same
  · obtain ⟨f, hf⟩ : ∃ f, f ∈ chain env q.node := ⟨_, List.mem_singleton.2 rfl⟩
    obtain ⟨r, reported⟩ := exists_pair_of_mem (.inr hf)
    exact ⟨f, hf, Pair.eq_of_reportedAt rfl reported ▸ reported⟩
  · exact (Pair.isTrue_node (.inr rfl) (.inl rfl)).2 ⟨equal 0, equal 1⟩
  · rw [Pair.isTrue_suggestion_and rfl (.inl rfl) (by decide) (by decide)]
    exact fun same => unequal same.1

end Rules.Comparisons

end IdiomLint
