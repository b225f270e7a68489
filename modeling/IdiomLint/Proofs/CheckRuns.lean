import IdiomLint.Check.Run
import IdiomLint.Proofs.VisitOrder

/-! The steps of a run of checks: which checks are run on which nodes, what a single step reads and
writes, and where the fault of a run comes from. -/
namespace IdiomLint

@[simp] theorem map_eq_error_iff {α β : Type} {x : Except Fault α} {g : α → β} {f : Fault} :
    x.map g = .error f ↔ x = .error f := by
  cases x <;> simp [Except.map]

/-- A fold that ends in a fault meets it in one of its steps. -/
theorem exists_of_foldlM_eq_error {α σ : Type} {step : σ → α → Except Fault σ} {as : List α}
    {s : σ} {f : Fault} (h : as.foldlM step s = .error f) :
    ∃ s', ∃ a ∈ as, step s' a = .error f := by
  induction as generalizing s with
  | nil => cases h
  | cons a as ih =>
    rw [List.foldlM_cons] at h
    cases first : step s a with
    | error g =>
      rw [first] at h
      cases h
      exact ⟨s, a, List.mem_cons_self, first⟩
    | ok s' =>
      rw [first] at h
      obtain ⟨s'', b, hb, fault⟩ := ih h
      exact ⟨s'', b, List.mem_cons_of_mem _ hb, fault⟩

namespace Registry

variable {κ : Type} {r : Registry κ} {t : Node}

theorem mem_accept_iff {a : Action κ} :
    a ∈ r.accept t ↔
      (∃ n cls c, a = .invoke ⟨n, cls, c⟩ ∧ .enter n ∈ t.events .checking ∧ cls ∈ n.classes
        ∧ c ∈ r.checksOf cls)
      ∨ ∃ f, a = .fault f ∧ .fault f ∈ t.events .checking := by
  rw [accept_eq, List.mem_flatMap]
  constructor
  · rintro ⟨e, he, ha⟩
    cases e with
    | enter n =>
      simp only [atEvent_enter, invoke, List.mem_flatMap, List.mem_map] at ha
      obtain ⟨cls, hcls, c, hc, rfl⟩ := ha
      exact .inl ⟨n, cls, c, rfl, he, hcls, hc⟩
    | fault f => exact .inr ⟨f, List.mem_singleton.1 ha, he⟩
  · rintro (⟨n, cls, c, rfl, he, hcls, hc⟩ | ⟨f, rfl, he⟩)
    · refine ⟨.enter n, he, ?_⟩
      simp only [atEvent_enter, invoke, List.mem_flatMap, List.mem_map]
      exact ⟨cls, hcls, c, hc, rfl⟩
    · exact ⟨.fault f, he, List.mem_singleton_self _⟩

@[simp] theorem checksOf_ofChecks (checks : List Check) (cls : NodeClass) :
    (ofChecks checks).checksOf cls = checks.filter fun c => c.classes.contains cls := by
  unfold checksOf ofChecks
  split <;> simp_all

end Registry

def Action.step (env : Env) (s : RunState) : Action Check → Except Fault RunState
  | .invoke i => i.check.runOn env i.node s
  | .fault f => .error f

theorem runTree_eq (checks : List Check) (env : Env) (s : RunState) (t : Node) :
    runTree checks env s t = ((Registry.ofChecks checks).accept t).foldlM (Action.step env) s := by
  unfold runTree Action.perform
  congr 1
  funext s a
  cases a <;> rfl

def Check.after (c : Check) (s : RunState) (found : List Finding) (notes : Notes) : RunState where
  found := (found.map fun f => ⟨c.code, c.categories, f⟩).reverse ++ s.found
  memory := match c.judge with
    | .noting _ => s.memory.set c.code notes
    | _ => s.memory

/-- A step asks its check about the node and reads no other notes than the check's own. -/
theorem Check.runOn_eq (c : Check) (env : Env) (n : Node) (s : RunState) :
    c.runOn env n s = (c.judge.run env (s.memory.get c.code) n).map fun p => c.after s p.1 p.2 := by
  unfold runOn
  cases c.judge.run env (s.memory.get c.code) n <;> rfl

end IdiomLint
