import IdiomLint.Proofs.Outline
import IdiomLint.Syntax.Equivalence
import IdiomLint.Syntax.NodeClass
import Mathlib

/-! Which expressions are taken to be the same. On expressions of names, members, subscripts, calls,
displays, operators and plain literals, the comparison holds exactly if both are the same once
positions are erased and names are read without their marks. -/
namespace IdiomLint

namespace Node

/-- Expressions that the comparison looks into, down to names and plain literals. -/
inductive Plain : Node → Prop where
  | int (i : Info) (value : Int) : Plain ⟨i, .int value⟩
  | str (i : Info) {value : String} (h : ∀ c ∈ value.toList, Outline.isVerbatim c) :
      Plain ⟨i, .str value⟩
  | bytes (i : Info) {value : String} (h : ∀ c ∈ value.toList, Outline.isVerbatim c) :
      Plain ⟨i, .bytes value⟩
  | name (i : Info) (ref : Ref) (binding : Option Binding) : Plain ⟨i, .name ref binding⟩
  | member (i : Info) (ref : Ref) {base : Node} : Plain base → Plain ⟨i, .member base ref⟩
  | index (i : Info) (method : Option Ty) {base key : Node} :
      Plain base → Plain key → Plain ⟨i, .index base key method none⟩
  | call (i : Info) {callee : Node} {args : List (CallArg Node)} :
      Plain callee → (∀ a ∈ args, Plain a.value) → Plain ⟨i, .call callee args none⟩
  | list (i : Info) {items : List Node} : (∀ a ∈ items, Plain a) → Plain ⟨i, .list items⟩
  | tuple (i : Info) {items : List Node} : (∀ a ∈ items, Plain a) → Plain ⟨i, .tuple items⟩
  | set (i : Info) {items : List Node} : (∀ a ∈ items, Plain a) → Plain ⟨i, .set items⟩
  | dict (i : Info) {items : List (Option Node × Node)} :
      (∀ e ∈ items, ∀ k ∈ e.1, Plain k) → (∀ e ∈ items, Plain e.2) → Plain ⟨i, .dict items⟩
  | star (i : Info) {value : Node} : Plain value → Plain ⟨i, .star value⟩
  | unary (i : Info) (op : UnaryOp) (method : Option Ty) {operand : Node} :
      Plain operand → Plain ⟨i, .unary op operand method⟩
  | binary (i : Info) (op : BinaryOp) (method : Option Ty) {left right : Node} :
      Plain left → Plain right → Plain ⟨i, .binary op left right method none⟩
  | comparison (i : Info) {ops : List CompareOp} {operands : List Node} :
      operands.length = ops.length + 1 → (∀ a ∈ operands, Plain a) →
        Plain ⟨i, .comparison ops operands⟩
  | slice (i : Info) {start stop step : Option Node} :
      (∀ a ∈ start, Plain a) → (∀ a ∈ stop, Plain a) → (∀ a ∈ step, Plain a) →
        Plain ⟨i, .slice start stop step⟩

def nowhere : Info := ⟨0, .nowhere⟩

mutual

/-- An expression without its positions and without what analysis has noted at its nodes, names
resolved and read without their marks. -/
def erase : Node → Node
  | ⟨_, .int value⟩ => ⟨nowhere, .int value⟩
  | ⟨_, .str value⟩ => ⟨nowhere, .str value⟩
  | ⟨_, .bytes value⟩ => ⟨nowhere, .bytes value⟩
  | ⟨_, .name ref _⟩ => ⟨nowhere, .name ⟨"", unmangle ref.fullname, none, false⟩ none⟩
  | ⟨_, .member base ref⟩ =>
    ⟨nowhere, .member (erase base) ⟨ref.name, unmangle ref.fullname, none, false⟩⟩
  | ⟨_, .index base key _ _⟩ => ⟨nowhere, .index (erase base) (erase key) none none⟩
  | ⟨_, .call callee args _⟩ => ⟨nowhere, .call (erase callee) (eraseArguments args) none⟩
  | ⟨_, .list items⟩ => ⟨nowhere, .list (eraseAll items)⟩
  | ⟨_, .tuple items⟩ => ⟨nowhere, .tuple (eraseAll items)⟩
  | ⟨_, .set items⟩ => ⟨nowhere, .set (eraseAll items)⟩
  | ⟨_, .dict items⟩ => ⟨nowhere, .dict (eraseEntries items)⟩
  | ⟨_, .star value⟩ => ⟨nowhere, .star (erase value)⟩
  | ⟨_, .unary op operand _⟩ => ⟨nowhere, .unary op (erase operand) none⟩
  | ⟨_, .binary op left right _ _⟩ => ⟨nowhere, .binary op (erase left) (erase right) none none⟩
  | ⟨_, .comparison ops operands⟩ => ⟨nowhere, .comparison ops (eraseAll operands)⟩
  | ⟨_, .slice start stop step⟩ =>
    ⟨nowhere, .slice (eraseOptional start) (eraseOptional stop) (eraseOptional step)⟩
  | n => n

def eraseOptional : Option Node → Option Node
  | none => none
  | some n => some (erase n)

def eraseAll : List Node → List Node
  | [] => []
  | n :: rest => erase n :: eraseAll rest

def eraseEntries : List (Option Node × Node) → List (Option Node × Node)
  | [] => []
  | (key, value) :: rest => (eraseOptional key, erase value) :: eraseEntries rest

def eraseArguments : List (CallArg Node) → List (CallArg Node)
  | [] => []
  | ⟨value, kind, name⟩ :: rest => ⟨erase value, kind, name⟩ :: eraseArguments rest

end

/-- Erasure keeps the kind of an expression. -/
theorem Plain.className_erase {a : Node} (h : Plain a) : a.erase.className = a.className := by
  cases h <;> rfl

/-- The outline of a plain expression begins with its kind. -/
theorem Plain.kind_outline {a : Node} (h : Plain a) :
    Outline.kind a.outline = a.className.toList := by
  cases h with
  | int i value => exact Outline.outline_int i value ▸ Outline.kind_enclosed rfl _
  | str i _ => exact Outline.outline_str i _ ▸ Outline.kind_enclosed rfl _
  | bytes i _ => exact Outline.outline_bytes i _ ▸ Outline.kind_enclosed rfl _
  | name i ref binding => exact Outline.outline_name i ref binding ▸ Outline.kind_enclosed rfl _
  | _ => exact Outline.kind_dump rfl _ _

end Node

namespace Equivalence

open Node (Plain erase eraseAll eraseOptional eraseEntries eraseArguments)

theorem nodes_of_className_ne {a b : Node} (h : a.className ≠ b.className) :
    nodes a b = (a.outline == b.outline) := by
  unfold nodes
  split
  all_goals try exact absurd rfl h
  rfl

/-- Plain expressions of different kinds are never taken to be the same. -/
theorem nodes_iff_of_className_ne {a b : Node} (ha : Plain a) (hb : Plain b)
    (h : a.className ≠ b.className) : nodes a b = true ↔ a.erase = b.erase := by
  have different : a.outline ≠ b.outline := by
    intro same
    apply h
    rw [← String.toList_inj, ← ha.kind_outline, ← hb.kind_outline, same]
  have erased : a.erase ≠ b.erase := by
    intro same
    apply h
    rw [← ha.className_erase, ← hb.className_erase, same]
  simp [nodes_of_className_ne h, different, erased]

/-- The comparison with an expression tells the plain ones that erasure makes equal to it. -/
def Exact (a : Node) : Prop := ∀ ⦃b⦄, Plain b → (nodes a b = true ↔ a.erase = b.erase)

theorem optional_iff {a b : Option Node} (ha : ∀ x ∈ a, Exact x) (hb : ∀ y ∈ b, Plain y) :
    optional a b = true ↔ eraseOptional a = eraseOptional b := by
  match a, b with
  | none, none => simp [optional, eraseOptional]
  | none, some y => simp [optional, eraseOptional]
  | some x, none => simp [optional, eraseOptional]
  | some x, some y => simpa [optional, eraseOptional] using ha x rfl (hb y rfl)

theorem each_iff {as bs : List Node} (ha : ∀ x ∈ as, Exact x) (hb : ∀ y ∈ bs, Plain y) :
    each as bs = true ↔ eraseAll as = eraseAll bs := by
  induction as generalizing bs with
  | nil => cases bs <;> simp [each, eraseAll]
  | cons x as ih =>
    cases bs with
    | nil => simp [each, eraseAll]
    | cons y bs =>
      rw [List.forall_mem_cons] at ha hb
      simp [each, eraseAll, ha.1 hb.1, ih ha.2 hb.2]

theorem common_eq_each {as bs : List Node} (h : as.length = bs.length) :
    common as bs = each as bs := by
  induction as generalizing bs with
  | nil => cases bs <;> simp_all [common, each]
  | cons x as ih =>
    cases bs with
    | nil => simp at h
    | cons y bs => rw [common, each, ih (Nat.succ.inj h)]

theorem entries_iff {as bs : List (Option Node × Node)} (hk : ∀ e ∈ as, ∀ x ∈ e.1, Exact x)
    (hv : ∀ e ∈ as, Exact e.2) (hk' : ∀ e ∈ bs, ∀ y ∈ e.1, Plain y) (hv' : ∀ e ∈ bs, Plain e.2) :
    entries as bs = true ↔ eraseEntries as = eraseEntries bs := by
  induction as generalizing bs with
  | nil => cases bs <;> simp [entries, eraseEntries]
  | cons e as ih =>
    cases bs with
    | nil => simp [entries, eraseEntries]
    | cons f bs =>
      rw [List.forall_mem_cons] at hk hv hk' hv'
      simp [entries, eraseEntries, optional_iff hk.1 hk'.1, hv.1 hv'.1,
        ih hk.2 hv.2 hk'.2 hv'.2]

theorem arguments_iff {as bs : List (CallArg Node)} (ha : ∀ x ∈ as, Exact x.value)
    (hb : ∀ y ∈ bs, Plain y.value) :
    arguments as bs = true ↔ eraseArguments as = eraseArguments bs := by
  induction as generalizing bs with
  | nil => cases bs <;> simp [arguments, eraseArguments]
  | cons x as ih =>
    cases bs with
    | nil => simp [arguments, eraseArguments]
    | cons y bs =>
      rw [List.forall_mem_cons] at ha hb
      simp [arguments, eraseArguments, ha.1 hb.1, ih ha.2 hb.2, and_assoc]

theorem nodes_int {i j : Info} {v w : Int} :
    nodes ⟨i, .int v⟩ ⟨j, .int w⟩ = true ↔ v = w := by
  rw [nodes, Outline.outline_int, Outline.outline_int, beq_iff_eq, Outline.enclosed_inj,
    Int.repr_inj]
  all_goals simp

theorem nodes_str {i j : Info} {v w : String} (hv : ∀ c ∈ v.toList, Outline.isVerbatim c)
    (hw : ∀ c ∈ w.toList, Outline.isVerbatim c) :
    nodes ⟨i, .str v⟩ ⟨j, .str w⟩ = true ↔ v = w := by
  rw [nodes, Outline.outline_str, Outline.outline_str, beq_iff_eq, Outline.enclosed_inj,
    Outline.literal_eq_self hv, Outline.literal_eq_self hw]
  all_goals simp

theorem nodes_bytes {i j : Info} {v w : String} (hv : ∀ c ∈ v.toList, Outline.isVerbatim c)
    (hw : ∀ c ∈ w.toList, Outline.isVerbatim c) :
    nodes ⟨i, .bytes v⟩ ⟨j, .bytes w⟩ = true ↔ v = w := by
  rw [nodes, Outline.outline_bytes, Outline.outline_bytes, beq_iff_eq, Outline.enclosed_inj,
    Outline.literal_eq_self hv, Outline.literal_eq_self hw]
  all_goals simp

/-- A chain has one operand more than operators, so equal operators leave no operand over. -/
theorem nodes_comparison {i j : Info} {ops oqs : List CompareOp} {as bs : List Node}
    (ha : as.length = ops.length + 1) (hb : bs.length = oqs.length + 1) :
    nodes ⟨i, .comparison ops as⟩ ⟨j, .comparison oqs bs⟩ = true
      ↔ ops = oqs ∧ each as bs = true := by
  rw [nodes, Bool.and_eq_true, beq_iff_eq]
  constructor
  · rintro ⟨rfl, h⟩
    exact ⟨rfl, common_eq_each (ha.trans hb.symm) ▸ h⟩
  · rintro ⟨rfl, h⟩
    exact ⟨rfl, (common_eq_each (ha.trans hb.symm)).symm ▸ h⟩

/-- Plain expressions are taken to be the same exactly if erasure makes them equal. -/
theorem equivalent_iff_erase_eq {a b : Node} (ha : Plain a) (hb : Plain b) :
    a.equivalent b = true ↔ a.erase = b.erase := by
  rw [Node.equivalent]
  -- a node of another kind never compares equal; one of the same kind is compared by its parts
  induction ha generalizing b with
  | int i value =>
    have different := nodes_iff_of_className_ne (.int i value) hb
    cases hb with
    | int j other => simp [nodes_int, erase]
    | _ => exact different (ne_of_beq_false rfl)
  | str i h =>
    have different := nodes_iff_of_className_ne (.str i h) hb
    cases hb with
    | str j h' => simp [nodes_str h h', erase]
    | _ => exact different (ne_of_beq_false rfl)
  | bytes i h =>
    have different := nodes_iff_of_className_ne (.bytes i h) hb
    cases hb with
    | bytes j h' => simp [nodes_bytes h h', erase]
    | _ => exact different (ne_of_beq_false rfl)
  | name i ref binding =>
    have different := nodes_iff_of_className_ne (.name i ref binding) hb
    cases hb with
    | name j ref' binding' => simp [nodes, sameName, erase]
    | _ => exact different (ne_of_beq_false rfl)
  | member i ref h ih =>
    have different := nodes_iff_of_className_ne (.member i ref h) hb
    cases hb with
    | member j ref' h' => simp [nodes, sameName, erase, ih h', and_comm]
    | _ => exact different (ne_of_beq_false rfl)
  | index i method h k ihBase ihKey =>
    have different := nodes_iff_of_className_ne (.index i method h k) hb
    cases hb with
    | index j method' h' k' => simp [nodes, erase, ihBase h', ihKey k']
    | _ => exact different (ne_of_beq_false rfl)
  | call i h args ih ihArgs =>
    have different := nodes_iff_of_className_ne (.call i h args) hb
    cases hb with
    | call j h' args' => simp [nodes, erase, ih h', arguments_iff (fun a ha _ => ihArgs a ha) args']
    | _ => exact different (ne_of_beq_false rfl)
  | list i h ih =>
    have different := nodes_iff_of_className_ne (.list i h) hb
    cases hb with
    | list j h' => simp [nodes, erase, each_iff (fun a ha _ => ih a ha) h']
    | _ => exact different (ne_of_beq_false rfl)
  | tuple i h ih =>
    have different := nodes_iff_of_className_ne (.tuple i h) hb
    cases hb with
    | tuple j h' => simp [nodes, erase, each_iff (fun a ha _ => ih a ha) h']
    | _ => exact different (ne_of_beq_false rfl)
  | set i h ih =>
    have different := nodes_iff_of_className_ne (.set i h) hb
    cases hb with
    | set j h' => simp [nodes, erase, each_iff (fun a ha _ => ih a ha) h']
    | _ => exact different (ne_of_beq_false rfl)
  | dict i keys values ihKeys ihValues =>
    have different := nodes_iff_of_className_ne (.dict i keys values) hb
    cases hb with
    | dict j keys' values' =>
      simp [nodes, erase, entries_iff (fun e he k hk _ => ihKeys e he k hk)
        (fun e he _ => ihValues e he) keys' values']
    | _ => exact different (ne_of_beq_false rfl)
  | star i h ih =>
    have different := nodes_iff_of_className_ne (.star i h) hb
    cases hb with
    | star j h' => simp [nodes, erase, ih h']
    | _ => exact different (ne_of_beq_false rfl)
  | unary i op method h ih =>
    have different := nodes_iff_of_className_ne (.unary i op method h) hb
    cases hb with
    | unary j op' method' h' => simp [nodes, erase, ih h']
    | _ => exact different (ne_of_beq_false rfl)
  | binary i op method h k ihLeft ihRight =>
    have different := nodes_iff_of_className_ne (.binary i op method h k) hb
    cases hb with
    | binary j op' method' h' k' => simp [nodes, erase, ihLeft h', ihRight k', and_assoc]
    | _ => exact different (ne_of_beq_false rfl)
  | comparison i len h ih =>
    have different := nodes_iff_of_className_ne (.comparison i len h) hb
    cases hb with
    | comparison j len' h' =>
      simp [nodes_comparison len len', erase, each_iff (fun a ha _ => ih a ha) h']
    | _ => exact different (ne_of_beq_false rfl)
  | slice i start stop step ihStart ihStop ihStep =>
    have different := nodes_iff_of_className_ne (.slice i start stop step) hb
    cases hb with
    | slice j start' stop' step' =>
      simp [nodes, erase, optional_iff (fun a ha _ => ihStart a ha) start',
        optional_iff (fun a ha _ => ihStop a ha) stop',
        optional_iff (fun a ha _ => ihStep a ha) step', and_assoc]
    | _ => exact different (ne_of_beq_false rfl)

def lastItem (line : Int) (name fullname : String) : Node :=
  let here : Info := ⟨line.toNat, ⟨line, 0, none, none⟩⟩
  ⟨here, .index ⟨here, .name ⟨name, fullname, some .inModule, false⟩ none⟩
    ⟨here, .unary .neg ⟨here, .int 1⟩ none⟩ none none⟩

theorem equivalent_iff_erase_eq_lastItem :
    Plain (lastItem 1 "x" "m.x") ∧ Plain (lastItem 7 "y" "m.x'*")
      ∧ (lastItem 1 "x" "m.x").equivalent (lastItem 7 "y" "m.x'*") = true := by
  have plain (line : Int) (name fullname : String) : Plain (lastItem line name fullname) :=
    .index _ none (.name _ _ _) (.unary _ _ _ (.int _ _))
  refine ⟨plain _ _ _, plain _ _ _, ?_⟩
  exact (equivalent_iff_erase_eq (plain _ _ _) (plain _ _ _)).2 rfl

end Equivalence

end IdiomLint
