import IdiomLint.Proofs.SameExpression
import IdiomLint.Proofs.WellFormed

/-! How the comparison of two expressions goes down. Nodes of one form are the same if their labels
are equal and their parts are the same place by place; all other nodes are compared by their
outlines. -/
namespace IdiomLint

namespace Equivalence

/-- The forms of expressions that are compared part by part. -/
inductive Form where
  | name | member | index | call | list | tuple | set | dict | star | unary | binary | comparison
  | slice
deriving DecidableEq

inductive HasForm : Form → Node → Prop where
  | name (i : Info) (ref : Ref) (binding : Option Binding) : HasForm .name ⟨i, .name ref binding⟩
  | member (i : Info) (base : Node) (ref : Ref) : HasForm .member ⟨i, .member base ref⟩
  | index (i : Info) (base key : Node) (method : Option Ty) (analyzed : Option Node) :
      HasForm .index ⟨i, .index base key method analyzed⟩
  | call (i : Info) (callee : Node) (args : List (CallArg Node)) (analyzed : Option Node) :
      HasForm .call ⟨i, .call callee args analyzed⟩
  | list (i : Info) (items : List Node) : HasForm .list ⟨i, .list items⟩
  | tuple (i : Info) (items : List Node) : HasForm .tuple ⟨i, .tuple items⟩
  | set (i : Info) (items : List Node) : HasForm .set ⟨i, .set items⟩
  | dict (i : Info) (items : List (Option Node × Node)) : HasForm .dict ⟨i, .dict items⟩
  | star (i : Info) (value : Node) : HasForm .star ⟨i, .star value⟩
  | unary (i : Info) (op : UnaryOp) (operand : Node) (method : Option Ty) :
      HasForm .unary ⟨i, .unary op operand method⟩
  | binary (i : Info) (op : BinaryOp) (left right : Node) (method : Option Ty)
      (analyzed : Option Node) : HasForm .binary ⟨i, .binary op left right method analyzed⟩
  | comparison (i : Info) (ops : List CompareOp) (operands : List Node) :
      HasForm .comparison ⟨i, .comparison ops operands⟩
  | slice (i : Info) (start stop step : Option Node) : HasForm .slice ⟨i, .slice start stop step⟩

/-- What is compared of a node besides its parts. -/
inductive Label where
  | named (name : Option String) (fullname : String)
  | counted (items : Nat)
  | passed (args : List (ArgKind × Option String))
  | given (parts : List Bool)
  | unary (op : UnaryOp)
  | binary (op : BinaryOp)
  | compared (ops : List CompareOp)

end Equivalence

namespace Node

def entryParts (e : Option Node × Node) : List Node := e.1.toList ++ [e.2]

def label : Node → Equivalence.Label
  | ⟨_, .name ref _⟩ => .named none (unmangle ref.fullname)
  | ⟨_, .member _ ref⟩ => .named (some ref.name) (unmangle ref.fullname)
  | ⟨_, .call _ args _⟩ => .passed (args.map fun a => (a.kind, a.name))
  | ⟨_, .list items⟩ => .counted items.length
  | ⟨_, .tuple items⟩ => .counted items.length
  | ⟨_, .set items⟩ => .counted items.length
  | ⟨_, .dict items⟩ => .given (items.map (·.1.isSome))
  | ⟨_, .unary op _ _⟩ => .unary op
  | ⟨_, .binary op _ _ _ _⟩ => .binary op
  | ⟨_, .comparison ops _⟩ => .compared ops
  | ⟨_, .slice start stop step⟩ => .given [start.isSome, stop.isSome, step.isSome]
  | _ => .given []

/-- The parts of a node that are compared one by one. -/
def compared : Node → List Node
  | ⟨_, .member base _⟩ => [base]
  | ⟨_, .index base key _ _⟩ => [base, key]
  | ⟨_, .call callee args _⟩ => callee :: args.map (·.value)
  | ⟨_, .list items⟩ => items
  | ⟨_, .tuple items⟩ => items
  | ⟨_, .set items⟩ => items
  | ⟨_, .dict items⟩ => items.flatMap entryParts
  | ⟨_, .star value⟩ => [value]
  | ⟨_, .unary _ operand _⟩ => [operand]
  | ⟨_, .binary _ left right _ _⟩ => [left, right]
  | ⟨_, .comparison _ operands⟩ => operands
  | ⟨_, .slice start stop step⟩ => start.toList ++ stop.toList ++ step.toList
  | _ => []

theorem mem_children_of_mem_compared {n c : Node} (h : c ∈ n.compared) :
    c ∈ n.children .calleeFirst := by
  obtain ⟨i, shape⟩ := n
  cases shape
  case call => exact List.mem_append_left _ h
  case index base key _ _ => exact List.mem_append_left _ h
  case binary => exact List.mem_append_left _ h
  all_goals first | exact h | cases h

/-- What holds of a node if it holds of its compared parts holds of all nodes. -/
theorem compared_induction {P : Node → Prop} (step : ∀ n, (∀ c ∈ n.compared, P c) → P n)
    (n : Node) : P n :=
  step n fun c _ => compared_induction step c
termination_by sizeOf n
decreasing_by exact sizeOf_lt_of_mem_children (mem_children_of_mem_compared ‹_›)

end Node

namespace Equivalence

variable {f : Form} {a b c : Node}

section

variable {as bs as' bs' : List Node}

@[simp] theorem common_nil : common as [] = true := by
  cases as <;> rfl

@[simp] theorem nil_common : common [] bs = true := rfl

@[simp] theorem common_cons : common (a :: as) (b :: bs) = (nodes a b && common as bs) := rfl

theorem common_append (same : as.length = bs.length) :
    common (as ++ as') (bs ++ bs') = (common as bs && common as' bs') := by
  induction as generalizing bs with
  | nil =>
    obtain rfl := List.length_eq_zero_iff.1 same.symm
    rfl
  | cons a as ih =>
    cases bs with
    | nil => cases same
    | cons b bs =>
      rw [List.cons_append, List.cons_append, common_cons, common_cons, ih (Nat.succ.inj same),
        Bool.and_assoc]

/-- Lists are compared place by place, as far as both go. -/
theorem common_iff : common as bs = true
    ↔ ∀ (k : Nat) (a b : Node), as[k]? = some a → bs[k]? = some b → nodes a b = true := by
  induction as generalizing bs with
  | nil => simp
  | cons a as ih =>
    cases bs with
    | nil => simp
    | cons b bs =>
      rw [common_cons, Bool.and_eq_true, ih]
      constructor
      · rintro ⟨first, rest⟩ (_ | k) x y hx hy
        · cases hx
          cases hy
          exact first
        · exact rest k x y hx hy
      · exact fun h => ⟨h 0 a b rfl rfl, fun k x y hx hy => h (k + 1) x y hx hy⟩

theorem each_iff_common : each as bs = true ↔ as.length = bs.length ∧ common as bs = true := by
  constructor
  · intro h
    have same : as.length = bs.length := by
      induction as generalizing bs with
      | nil => cases bs <;> simp_all [each]
      | cons a as ih =>
        cases bs with
        | nil => simp [each] at h
        | cons b bs =>
          rw [each, Bool.and_eq_true] at h
          rw [List.length_cons, List.length_cons, ih h.2]
    exact ⟨same, common_eq_each same ▸ h⟩
  · rintro ⟨same, h⟩
    exact common_eq_each same ▸ h

end

theorem optional_iff_common {a b : Option Node} :
    optional a b = true ↔ a.isSome = b.isSome ∧ common a.toList b.toList = true := by
  cases a <;> cases b <;> simp [optional]

theorem length_toList_eq {a b : Option Node} (same : a.isSome = b.isSome) :
    a.toList.length = b.toList.length := by
  cases a <;> cases b <;> simp_all

theorem entries_iff_common {as bs : List (Option Node × Node)} :
    entries as bs = true ↔ as.map (·.1.isSome) = bs.map (·.1.isSome)
      ∧ common (as.flatMap Node.entryParts) (bs.flatMap Node.entryParts) = true := by
  induction as generalizing bs with
  | nil => cases bs <;> simp [entries]
  | cons e as ih =>
    cases bs with
    | nil => simp [entries]
    | cons e' bs =>
      obtain ⟨key, value⟩ := e
      obtain ⟨key', value'⟩ := e'
      have step : entries ((key, value) :: as) ((key', value') :: bs)
          = (optional key key' && nodes value value' && entries as bs) := rfl
      rw [step, Bool.and_eq_true, Bool.and_eq_true, optional_iff_common, ih]
      simp only [List.map_cons, List.cons.injEq, List.flatMap_cons, Node.entryParts]
      constructor
      · rintro ⟨⟨⟨given, keys⟩, values⟩, others, rest⟩
        refine ⟨⟨given, others⟩, ?_⟩
        rw [common_append (by simp [length_toList_eq given]),
          common_append (length_toList_eq given)]
        simp [keys, values, rest]
      · rintro ⟨⟨given, others⟩, h⟩
        rw [common_append (by simp [length_toList_eq given]),
          common_append (length_toList_eq given)] at h
        simp only [common_cons, nil_common, Bool.and_true, Bool.and_eq_true] at h
        exact ⟨⟨⟨given, h.1.1⟩, h.1.2⟩, others, h.2⟩

theorem arguments_iff_common {as bs : List (CallArg Node)} :
    arguments as bs = true ↔ as.map (fun a => (a.kind, a.name)) = bs.map (fun b => (b.kind, b.name))
      ∧ common (as.map (·.value)) (bs.map (·.value)) = true := by
  induction as generalizing bs with
  | nil => cases bs <;> simp [arguments]
  | cons a as ih =>
    cases bs with
    | nil => simp [arguments]
    | cons b bs =>
      have step : arguments (a :: as) (b :: bs) = (nodes a.value b.value && a.kind == b.kind
          && a.name == b.name && arguments as bs) := rfl
      rw [step]
      simp only [Bool.and_eq_true, beq_iff_eq, ih, List.map_cons, List.cons.injEq, Prod.mk.injEq,
        common_cons]
      tauto

/-- Nodes of one form are the same if their labels are equal and their parts are the same. -/
theorem nodes_iff_of_form (ha : HasForm f a) (hb : HasForm f b) :
    nodes a b = true ↔ a.label = b.label ∧ common a.compared b.compared = true := by
  cases ha with
  | name =>
    cases hb
    simp [nodes, sameName, Node.label, Node.compared]
  | member =>
    cases hb
    simp [nodes, sameName, Node.label, Node.compared]
  | index | star =>
    cases hb
    simp [nodes, Node.label, Node.compared]
  | call =>
    cases hb
    simp only [nodes, Node.label, Node.compared, Bool.and_eq_true, arguments_iff_common,
      Label.passed.injEq, common_cons]
    tauto
  | list | tuple | set =>
    cases hb
    simp [nodes, Node.label, Node.compared, each_iff_common]
  | dict =>
    cases hb
    simp [nodes, Node.label, Node.compared, entries_iff_common]
  | unary | binary | comparison =>
    cases hb
    simp [nodes, Node.label, Node.compared, and_assoc]
  | slice =>
    cases hb
    simp only [nodes, Bool.and_eq_true, optional_iff_common, Node.label, Node.compared,
      Label.given.injEq, List.cons.injEq, and_true]
    constructor
    · rintro ⟨⟨⟨first, starts⟩, second, stops⟩, third, steps⟩
      refine ⟨⟨first, second, third⟩, ?_⟩
      rw [common_append (by simp [length_toList_eq first, length_toList_eq second]),
        common_append (length_toList_eq first), starts, stops, steps]
      rfl
    · rintro ⟨⟨first, second, third⟩, h⟩
      rw [common_append (by simp [length_toList_eq first, length_toList_eq second]),
        common_append (length_toList_eq first), Bool.and_eq_true, Bool.and_eq_true] at h
      exact ⟨⟨⟨first, h.1.1⟩, second, h.1.2⟩, third, h.2⟩

/-- Nodes of different forms, or of none, are compared by their outlines. -/
theorem nodes_iff_of_not_form (h : ∀ f, HasForm f a → ¬ HasForm f b) :
    nodes a b = true ↔ a.outline = b.outline := by
  have printed : nodes a b = (a.outline == b.outline) := by
    unfold nodes
    split
    all_goals try exact absurd (by constructor) (h _ (by constructor))
    rfl
  rw [printed, beq_iff_eq]

/-- The comparison of `a` and `b` comes to compare `m` and `n`. -/
inductive Meets (a b : Node) : Node → Node → Prop where
  | start : Meets a b a b
  | part {m n c d : Node} {f : Form} {k : Nat} : Meets a b m n → HasForm f m → HasForm f n →
      m.compared[k]? = some c → n.compared[k]? = some d → Meets a b c d

theorem Meets.of_part {c d m n : Node} {k : Nat} (ha : HasForm f a) (hb : HasForm f b)
    (hc : a.compared[k]? = some c) (hd : b.compared[k]? = some d) (met : Meets c d m n) :
    Meets a b m n := by
  induction met with
  | start => exact .part .start ha hb hc hd
  | part _ hm hn hc' hd' ih => exact .part ih hm hn hc' hd'

/-- The comparison comes to the two nodes themselves, or to what that of two of their parts does. -/
theorem Meets.first {m n : Node} (met : Meets a b m n) :
    m = a ∧ n = b ∨ ∃ (f : Form) (k : Nat) (c d : Node), HasForm f a ∧ HasForm f b
      ∧ a.compared[k]? = some c ∧ b.compared[k]? = some d ∧ Meets c d m n := by
  induction met with
  | start => exact .inl ⟨rfl, rfl⟩
  | part _ hm hn hc hd ih =>
    refine .inr ?_
    obtain ⟨rfl, rfl⟩ | ⟨f, k, c, d, ha, hb, hc', hd', met⟩ := ih
    · exact ⟨_, _, _, _, hm, hn, hc, hd, .start⟩
    · exact ⟨f, k, c, d, ha, hb, hc', hd', .part met hm hn hc hd⟩

theorem Meets.eq_of_no_form {m n : Node} (none : ∀ f, ¬ HasForm f a) (met : Meets a b m n) :
    m = a ∧ n = b := by
  obtain same | ⟨f, _, _, _, ha, _⟩ := met.first
  · exact same
  · exact absurd ha (none f)

/-- Everything that the comparison of two nodes that are the same comes to is the same. -/
theorem Meets.same {m n : Node} (met : Meets a b m n) (h : nodes a b = true) :
    nodes m n = true := by
  induction met with
  | start => exact h
  | part _ hm hn hc hd ih => exact common_iff.1 ((nodes_iff_of_form hm hn).1 ih).2 _ _ _ hc hd

/-- Two nodes are the same as far as they are looked at themselves. -/
structure Agree (m n : Node) : Prop where
  label : ∀ f, HasForm f m → HasForm f n → m.label = n.label
  outline : (∀ f, HasForm f m → ¬ HasForm f n) → m.outline = n.outline

theorem Agree.of_same {m n : Node} (h : nodes m n = true) : Agree m n where
  label _ hm hn := ((nodes_iff_of_form hm hn).1 h).1
  outline apart := (nodes_iff_of_not_form apart).1 h

/-- Two nodes are the same exactly if all pairs that their comparison comes to agree. -/
theorem nodes_iff_meets : nodes a b = true ↔ ∀ m n, Meets a b m n → Agree m n := by
  refine ⟨fun h m n met => .of_same (met.same h), fun h => ?_⟩
  induction a using Node.compared_induction generalizing b with
  | step a ih =>
    by_cases shared : ∃ f, HasForm f a ∧ HasForm f b
    · obtain ⟨f, ha, hb⟩ := shared
      refine (nodes_iff_of_form ha hb).2 ⟨(h a b .start).label f ha hb, common_iff.2 ?_⟩
      intro k c d hc hd
      exact ih c (List.mem_of_getElem? hc) fun m n met => h m n (.of_part ha hb hc hd met)
    · have apart : ∀ f, HasForm f a → ¬ HasForm f b := fun f ha hb => shared ⟨f, ha, hb⟩
      exact (nodes_iff_of_not_form apart).2 ((h a b .start).outline apart)

end Equivalence

end IdiomLint
