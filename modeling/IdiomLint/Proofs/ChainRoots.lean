import IdiomLint.Proofs.MethodChains

/-! Where a chain of methods mentions its variable. The check counts mentions in the innermost call
only, so another object can take the place of the variable, and nothing mentions it any more, exactly
if the calls after the innermost do not mention it either. -/
namespace IdiomLint.Rules.MethodChains

open Finding Node

/-- A call of a method, without the object whose method it is. -/
structure MethodCall where
  info : Info
  memberInfo : Info
  method : Ref
  args : List (CallArg Node)
  analyzed : Option Node

namespace MethodCall

def on (m : MethodCall) (base : Node) : Node :=
  ⟨m.info, .call ⟨m.memberInfo, .member base m.method⟩ m.args m.analyzed⟩

def parts (m : MethodCall) : List Node := m.args.map (·.value) ++ m.analyzed.toList

theorem occurrences_on (m : MethodCall) (base : Node) (x : String) :
    (m.on base).occurrences x = base.occurrences x + occurrencesIn x m.parts := by
  simp [on, parts, occurrences_eq, held, Node.shape, isNameOf]

end MethodCall

/-- Methods that are called on a name, one after the other. -/
structure Chain where
  info : Info
  ref : Ref
  binding : Option Binding
  first : MethodCall
  later : List MethodCall

namespace Chain

def root (c : Chain) : Node := ⟨c.info, .name c.ref c.binding⟩

def on (c : Chain) (base : Node) : Node := c.later.foldl (fun base m => m.on base) (c.first.on base)

def expr (c : Chain) : Node := c.on c.root

def andThen (c : Chain) (m : MethodCall) : Chain := { c with later := c.later ++ [m] }

theorem expr_andThen (c : Chain) (m : MethodCall) : (c.andThen m).expr = m.on c.expr :=
  List.foldl_concat ..

/-- The variable is the root and no call after the innermost mentions it. -/
def OnlyRoot (c : Chain) (v : String) : Prop :=
  c.ref.fullname = v ∧ ∀ m ∈ c.later, ∀ part ∈ m.parts, part.occurrences v = 0

variable {c : Chain} {v x : String}

theorem occurrences_foldl (ms : List MethodCall) (base : Node) (x : String) :
    (ms.foldl (fun base m => m.on base) base).occurrences x =
      base.occurrences x + occurrencesIn x (ms.flatMap MethodCall.parts) := by
  induction ms generalizing base with
  | nil => rfl
  | cons m rest ih =>
    rw [List.foldl_cons, ih, m.occurrences_on, List.flatMap_cons, occurrencesIn_append]
    omega

theorem occurrences_on (c : Chain) (base : Node) (x : String) :
    (c.on base).occurrences x = base.occurrences x + occurrencesIn x c.first.parts +
      occurrencesIn x (c.later.flatMap MethodCall.parts) := by
  rw [on, occurrences_foldl, c.first.occurrences_on]

theorem occurrences_root : c.root.occurrences x = if c.ref.fullname = x then 1 else 0 := by
  simp [root, occurrences_eq, held, Node.shape, isNameOf]

/-- What the check counts, and what it leaves out. -/
theorem onlyRoot_iff (once : (c.first.on c.root).occurrences v = 1) :
    c.OnlyRoot v ↔ occurrencesIn v c.first.parts = 0 ∧
      occurrencesIn v (c.later.flatMap MethodCall.parts) = 0 := by
  rw [c.first.occurrences_on, occurrences_root] at once
  have root : c.ref.fullname = v ↔ occurrencesIn v c.first.parts = 0 := by
    split at once
    · next same => exact ⟨fun _ => by omega, fun _ => same⟩
    · next other => exact ⟨fun same => absurd same other, fun none => by omega⟩
  have later : occurrencesIn v (c.later.flatMap MethodCall.parts) = 0 ↔
      ∀ m ∈ c.later, ∀ part ∈ m.parts, part.occurrences v = 0 := by
    rw [occurrencesIn_eq_zero_iff, List.forall_mem_flatMap]
  rw [OnlyRoot, root, later]

/-- The variable occurs once, as the root, exactly if … -/
theorem occurs_once_iff (once : (c.first.on c.root).occurrences v = 1) :
    c.root.occurrences v = 1 ∧ c.expr.occurrences v = 1 ↔ c.OnlyRoot v := by
  rw [onlyRoot_iff once, expr, occurrences_on]
  rw [c.first.occurrences_on] at once
  omega

theorem replaced_iff (once : (c.first.on c.root).occurrences v = 1) :
    (∀ previous, (c.on previous).occurrences v = previous.occurrences v) ↔ c.OnlyRoot v := by
  rw [onlyRoot_iff once]
  simp only [occurrences_on]
  constructor
  · intro unchanged
    have := unchanged c.root
    omega
  · intro none previous
    omega

end Chain

theorem exists_chain {v : String} {e : Node} (h : continues v e = .ok true) :
    ∃ c : Chain, e = c.expr ∧ c.ref.name = v ∧ (c.first.on c.root).occurrences v = 1 := by
  unfold continues at h
  split at h
  case h_1 i j base method args analyzed =>
    split at h
    · next k ref binding _ _ =>
      split at h
      · next spelled =>
        obtain ⟨reads, counted, one⟩ := map_eq_ok h
        obtain ⟨-, rfl⟩ := readCount_eq_ok_iff.1 counted
        exact ⟨⟨k, ref, binding, ⟨i, j, method, args, analyzed⟩, []⟩, rfl, beq_iff_eq.1 spelled,
          beq_iff_eq.1 one⟩
      · cases h
    · obtain ⟨c, rfl, spelled, once⟩ := exists_chain h
      let m : MethodCall := ⟨i, j, method, args, analyzed⟩
      exact ⟨c.andThen m, (c.expr_andThen m).symm, spelled, once⟩
  case h_2 => cases h
termination_by sizeOf e

/-- A place is reported where it continues a chain. There a chain of methods is called on the
variable assigned before, which occurs in the chain only as its root, and is not left over when
another object takes its place, exactly if its root is that variable and no call after the innermost
mentions it. -/
theorem chained_variable_reported_iff {env : Env} {i : Info} {name : String}
    {params : List (Param Node)} {body : Node} {traits : FunctionTraits} {f : Finding} :
    ((∃ fs, fluentInterface env ⟨i, .function name params body traits⟩ = .ok fs ∧ f ∈ fs) ↔
      Succeeds (fluentInterface env ⟨i, .function name params body traits⟩) ∧
      ∃ p ∈ places (body.statementList?.getD []), f = p.report ∧ (p.Immediate ∨ p.Deferred)) ∧
    ∀ p : Place, p.Immediate ∨ p.Deferred →
      ∃ (v : String) (c : Chain), LastAssigned v p.earlier ∧ c.ref.name = v ∧
        (Returns p.stmt c.expr ∨ ∃ target, p.stmt.Assigns target c.expr) ∧
        (c.root.occurrences v = 1 ∧ c.expr.occurrences v = 1 ↔ c.OnlyRoot v) ∧
        ((∀ previous, (c.on previous).occurrences v = previous.occurrences v) ↔ c.OnlyRoot v) := by
  refine ⟨⟨?_, ?_⟩, fun p reported => ?_⟩
  · rintro ⟨fs, h, mem⟩
    exact ⟨⟨fs, h⟩, (mem_iff_of_fluentInterface h).1 mem⟩
  · rintro ⟨⟨fs, h⟩, place⟩
    exact ⟨fs, h, (mem_iff_of_fluentInterface h).2 place⟩
  · obtain ⟨v, e, ⟨last, continues⟩, stmt⟩ := Place.exists_continues reported
    obtain ⟨c, rfl, spelled, once⟩ := exists_chain continues
    exact ⟨v, c, last, spelled, stmt, Chain.occurs_once_iff once, Chain.replaced_iff once⟩

theorem report_of_wellFormed {first : Node} {rest : List Node} {p : Place}
    (wellFormed : ∀ s ∈ first :: rest, s.WellFormed) (place : p ∈ places (first :: rest))
    (reported : p.Immediate ∨ p.Deferred) (env : Env) :
    ∃ fs, fluentInterface env (functionOf (first :: rest)) = .ok fs ∧ p.report ∈ fs := by
  obtain ⟨fs, h⟩ : Succeeds (fluentInterface env (functionOf (first :: rest))) :=
    succeeds_fluentInterface (wellFormed_functionOf wellFormed)
  exact ⟨fs, h, (mem_iff_of_fluentInterface h).2 ⟨p, place, rfl, reported⟩⟩

/-- In `t = a.b()`, `return t.c().d(t)` the `return` is reported, and so is `y = t.c().d(t)` in its
place, although both mention `t` twice. -/
theorem variable_passed_to_later_call_reported :
    let first := assigning "t" (calling (knownAs "a" "a") "b" [])
    let chain := calling (calling (knownAs "t" "t") "c" []) "d" [knownAs "t" "t"]
    let returned : Node := ⟨default, .returnStmt (some chain)⟩
    let assigned := assigning "y" chain
    (∀ env, ∃ fs, fluentInterface env (functionOf [first, returned]) = .ok fs ∧
      ofNode returned returnMessage ∈ fs) ∧
    (∀ env, ∃ fs, fluentInterface env (functionOf [first, assigned]) = .ok fs ∧
      ofNode assigned assignmentMessage ∈ fs) ∧
    chain.occurrences "t" = 2 := by
  intro first chain returned assigned
  have inChain : chain.WellFormed :=
    wellFormed_calling (wellFormed_calling_knownAs _ _) (by simp [wellFormed_knownAs])
  have inFirst : first.WellFormed := wellFormed_assigning (wellFormed_calling_knownAs _ _)
  have inReturn : returned.WellFormed := by
    rw [wellFormed_iff]
    exact ⟨rfl, by simpa [returned, children] using inChain⟩
  have continued : continues "t" chain = .ok true := by
    -- the outer call is not looked at
    change continues "t" (calling (knownAs "t" "t") "c" []) = .ok true
    exact continues_calling (List.forall_mem_nil _) rfl
  have last : LastAssigned "t" [first] := .assigned .intro rfl (by decide) (by decide)
  refine ⟨fun env => ?_, fun env => ?_, ?_⟩
  · have immediate : Place.Immediate ⟨[first], returned, []⟩ :=
      ⟨"t", chain, ⟨last, continued⟩, .inl .intro⟩
    rw [← Place.report_of_returns (p := ⟨[first], returned, []⟩) .intro]
    exact report_of_wellFormed (by simp [inFirst, inReturn])
      (mem_places_iff.2 rfl) (.inl immediate) env
  · have deferred : Place.Deferred ⟨[first], assigned, []⟩ :=
      ⟨"t", chain, _, ⟨last, continued⟩, .intro, by decide, List.forall_mem_nil _⟩
    rw [← Place.report_of_assigns (p := ⟨[first], assigned, []⟩) .intro]
    exact report_of_wellFormed (by simp [inFirst, assigned, wellFormed_assigning, inChain])
      (mem_places_iff.2 rfl) (.inr deferred) env
  · simp [chain, calling, knownAs, occurrences_eq, held, Node.shape, isNameOf]

end IdiomLint.Rules.MethodChains
