import IdiomLint.Check.Env
import IdiomLint.Proofs.Statements
import IdiomLint.Proofs.VisitOrder

/-! Computations that end in no fault, and the trees and symbol tables on which nothing is missing.
Every walk over a well-formed tree enters nodes of the tree and meets no fault. -/
namespace IdiomLint

def Succeeds {α : Type} (x : Except Fault α) : Prop := ∃ a, x = .ok a

section

variable {α β σ : Type} {x : Except Fault α}

@[simp] theorem succeeds_ok (a : α) : Succeeds (.ok a) := ⟨a, rfl⟩

@[simp] theorem succeeds_pure (a : α) : Succeeds (pure a) := ⟨a, rfl⟩

@[simp] theorem not_succeeds_error (f : Fault) : ¬ Succeeds (.error f : Except Fault α) := nofun

theorem succeeds_iff_ne_error : Succeeds x ↔ ∀ f, x ≠ .error f := by
  cases x with
  | error f => simp
  | ok a => simp

@[simp] theorem succeeds_map_iff {f : α → β} : Succeeds (x.map f) ↔ Succeeds x := by
  cases x <;> simp [Except.map]

theorem Succeeds.bind {f : α → Except Fault β} (first : Succeeds x) (rest : ∀ a, Succeeds (f a)) :
    Succeeds (x >>= f) := by
  obtain ⟨a, rfl⟩ := first
  exact rest a

theorem Succeeds.ite {c : Prop} [Decidable c] {y : Except Fault α} (yes : Succeeds x)
    (no : Succeeds y) : Succeeds (if c then x else y) := by
  split
  · exact yes
  · exact no

theorem succeeds_mapM {f : α → Except Fault β} {as : List α} (each : ∀ a ∈ as, Succeeds (f a)) :
    Succeeds (as.mapM f) := by
  induction as with
  | nil => exact succeeds_pure []
  | cons a as ih =>
    obtain ⟨b, hb⟩ := each a List.mem_cons_self
    obtain ⟨bs, hbs⟩ := ih fun a ha => each a (List.mem_cons_of_mem _ ha)
    exact ⟨b :: bs, by rw [List.mapM_cons, hb, hbs]; rfl⟩

/-- Where the state decides nothing about success, a run succeeds if all its steps do. -/
theorem succeeds_foldlM_iff {step : σ → α → Except Fault σ} {Fine : α → Prop} {as : List α}
    (each : ∀ s, ∀ a ∈ as, Succeeds (step s a) ↔ Fine a) (s : σ) :
    Succeeds (as.foldlM step s) ↔ ∀ a ∈ as, Fine a := by
  induction as generalizing s with
  | nil => simp
  | cons a as ih =>
    have rest (s : σ) := ih (fun s a ha => each s a (List.mem_cons_of_mem _ ha)) s
    have first := each s a List.mem_cons_self
    rw [List.foldlM_cons, List.forall_mem_cons, ← first]
    cases step s a with
    | error f => exact iff_of_false (not_succeeds_error f) fun h => not_succeeds_error f h.1
    | ok s' => exact (rest s').trans (and_iff_right (succeeds_ok s')).symm

theorem succeeds_foldlM {step : σ → α → Except Fault σ} {as : List α}
    (each : ∀ s, ∀ a ∈ as, Succeeds (step s a)) (s : σ) : Succeeds (as.foldlM step s) :=
  (succeeds_foldlM_iff (fun s a ha => iff_true_intro (each s a ha)) s).2 fun _ _ => trivial

end

namespace Node

/-- Whether a node has the parts that the language gives it: statements in every block, a condition
in every `if`, a block in every branch and case, and one operand more than there are comparisons.
Arguments and calls need nothing said, since each argument comes with its kind and name. -/
def hasParts : Node → Bool
  | ⟨_, .block body⟩ => !body.isEmpty
  | ⟨_, .ifElse branches _⟩ => !branches.isEmpty && branches.all (·.2.blockBody?.isSome)
  | ⟨_, .matching _ cases⟩ => cases.all (·.body.blockBody?.isSome)
  | ⟨_, .comparison operators operands⟩ => operands.length == operators.length + 1
  | n => n.refusal.isNone && n.complaint.isNone

def WellFormed (n : Node) : Prop := ∀ inner : Node, inner.Within n → inner.hasParts

theorem within_trans {inner middle outer : Node} (h : inner.Within middle)
    (h' : middle.Within outer) : inner.Within outer := by
  induction h' with
  | refl => exact h
  | deeper child _ ih => exact .deeper child ih

theorem within_of_mem {n c : Node} (h : c ∈ n.children .calleeFirst) : c.Within n :=
  .deeper h (.refl c)

theorem mem_calleeFirst_of_mem {order : Order} {n c : Node} (h : c ∈ n.children order) :
    c ∈ n.children .calleeFirst := by
  cases order with
  | calleeFirst => exact h
  | argumentsFirst =>
    rw [children_argumentsFirst] at h
    split at h
    · simp only [List.mem_append, List.mem_singleton] at h
      simp only [children, List.mem_append, List.mem_cons]
      exact .inl h.symm
    · exact h

theorem wellFormed_iff {n : Node} :
    n.WellFormed ↔ n.hasParts ∧ ∀ c ∈ n.children .calleeFirst, c.WellFormed := by
  constructor
  · exact fun h => ⟨h n (.refl n), fun c hc inner within => h inner (.deeper hc within)⟩
  · rintro ⟨own, below⟩ inner within
    cases within with
    | refl => exact own
    | deeper hc within => exact below _ hc inner within

namespace WellFormed

variable {n : Node}

theorem within (h : n.WellFormed) {m : Node} (hm : m.Within n) : m.WellFormed :=
  fun inner within => h inner (within_trans within hm)

theorem child (h : n.WellFormed) {c : Node} (hc : c ∈ n.children .calleeFirst) : c.WellFormed :=
  h.within (within_of_mem hc)

theorem filled (h : n.WellFormed) : n.Filled := by
  rintro inner within i rfl
  have := h _ within
  simp [hasParts] at this

theorem refusal_eq_none (h : n.WellFormed) : n.refusal = none := by
  have own := h n (.refl n)
  obtain ⟨info, shape⟩ := n
  cases shape <;> first | rfl | simp [hasParts, refusal] at own

theorem complaint_eq_none (h : n.WellFormed) : n.complaint = none := by
  have own := h n (.refl n)
  obtain ⟨info, shape⟩ := n
  cases shape
  case reveal kind value =>
    cases kind <;> cases value <;> first | rfl | simp [hasParts, complaint] at own
  all_goals rfl

/-- A walk over a well-formed tree does nothing but enter nodes of it. -/
theorem enters {n : Node} (h : n.WellFormed) (w : Walk) {e : Event} (he : e ∈ n.events w) :
    ∃ m : Node, e = .enter m ∧ m.Within n := by
  have noFault : (if (w.reach n).isNone then n.complaint.toList.map Event.fault else []) = [] := by
    simp [h.complaint_eq_none]
  rw [events, h.refusal_eq_none] at he
  simp only [noFault, List.append_nil, List.mem_cons, List.mem_flatMap] at he
  rcases he with rfl | ⟨⟨c, hc⟩, -, he⟩
  · exact ⟨n, rfl, .refl n⟩
  · have child := mem_calleeFirst_of_mem (Walk.mem_children_of_mem_entered hc)
    obtain ⟨m, rfl, within⟩ := (h.child child).enters w he
    exact ⟨m, rfl, .deeper child within⟩
termination_by sizeOf n
decreasing_by exact sizeOf_lt_of_mem_children child

theorem succeeds_entries (h : n.WellFormed) (w : Walk) : Succeeds (n.entries w) := by
  refine succeeds_mapM fun e he => ?_
  obtain ⟨m, rfl, -⟩ := h.enters w he
  exact succeeds_ok m

theorem succeeds_foldEvents {σ : Type} {action : σ → Node → Except Fault σ} (h : n.WellFormed)
    (w : Walk) (each : ∀ s m, Succeeds (action s m)) (start : σ) :
    Succeeds (foldEvents action start (n.events w)) := by
  refine succeeds_foldlM (fun s e he => ?_) start
  obtain ⟨m, rfl, -⟩ := h.enters w he
  exact each s m

theorem succeeds_readCount (h : n.WellFormed) (fullname : String) :
    Succeeds (n.readCount fullname) :=
  succeeds_map_iff.2 (h.succeeds_entries .full)

theorem of_mem_statements (h : n.WellFormed) {stmt : Node}
    (hs : stmt ∈ n.statementList?.getD []) : stmt.WellFormed := by
  unfold statementList? at hs
  split at hs
  · exact h.child hs
  · exact h.child hs
  · simp at hs

/-- A block has a last statement. -/
theorem exists_getLast? (h : n.WellFormed) (block : n.blockBody?.isSome) :
    ∃ stmt, (n.blockBody?.getD []).getLast? = some stmt := by
  have own := h n (.refl n)
  unfold blockBody? at block ⊢
  split at block
  case h_1 i body =>
    have filled : body ≠ [] := by simpa [hasParts] using own
    exact ⟨body.getLast filled, List.getLast?_eq_some_getLast filled⟩
  case h_2 => cases block

end WellFormed

end Node

/-- A variable of the module `m`, where it is read. -/
def variableNamed (name : String) : Node :=
  ⟨default, .name ⟨name, "m." ++ name, none, false⟩ (some ⟨name, false⟩)⟩

theorem succeeds_unusedIn {contexts : List Node} (h : ∀ c ∈ contexts, Succeeds (c.entries .full))
    (fullname : String) : Succeeds (unusedIn fullname contexts) := by
  induction contexts with
  | nil => exact succeeds_ok true
  | cons context rest ih =>
    obtain ⟨here, below⟩ := List.forall_mem_cons.1 h
    exact (succeeds_map_iff.2 here).bind fun _ => (succeeds_pure false).ite (ih below)

/-- The language's tuple class is known, and whatever a class has an entry for has a symbol. -/
structure SymbolTable.Complete (table : SymbolTable) : Prop where
  tuple : (table.builtinClass? "tuple").isSome
  member {id : SymbolId} {info : ClassInfo} {name : String} :
    table.get id = .cls info → info.members.lookup name ≠ some none

namespace SymbolTable.Complete

variable {table : SymbolTable}

theorem succeeds_classOf (complete : table.Complete) (entity : Option Entity) :
    Succeeds (table.classOf entity) := by
  unfold classOf
  split
  case h_3 =>
    obtain ⟨info, hi⟩ := Option.isSome_iff_exists.1 complete.tuple
    simp [hi]
  all_goals exact succeeds_ok _

theorem succeeds_isSubclass (complete : table.Complete) (entity : Option Entity)
    (expected : List Expected) : Succeeds (table.isSubclass entity expected) := by
  refine (complete.succeeds_classOf entity).bind fun info => ?_
  cases info <;> exact succeeds_pure _

variable {env : Env} (complete : env.table.Complete) (n : Node)
include complete

theorem succeeds_isMapping : Succeeds (env.isMapping n) := complete.succeeds_isSubclass _ _

theorem succeeds_isSized : Succeeds (env.isSized n) := complete.succeeds_isSubclass _ _

theorem succeeds_inherits (fullname : String) : Succeeds (env.inherits n fullname) :=
  complete.succeeds_isSubclass _ _

end SymbolTable.Complete

end IdiomLint
