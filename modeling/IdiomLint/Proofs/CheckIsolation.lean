import IdiomLint.Proofs.FaultFreedom
import IdiomLint.Proofs.LoadedModules
import IdiomLint.Proofs.SelectedChecks

/-! What checks have to do with each other. A run without the checks of one code finds what the run
with them finds less their own findings, because a step reads and writes only what its own check
remembers. The one thing that can come between is a fault of those checks, which ends a run. -/
namespace IdiomLint

namespace Memory

variable {m m' : Memory} {code other : Code} {notes : Notes}

theorem get_set_self : (m.set code notes).get code = notes := by
  simp [get, set]

theorem lookup_filter_of_ne (ne : other ≠ code) (m : Memory) :
    (m.filter fun e => e.1 != code).lookup other = m.lookup other := by
  induction m with
  | nil => rfl
  | cons e m ih =>
    obtain ⟨key, value⟩ := e
    by_cases same : key = code
    · have differs : (other == key) = false := by simpa [same] using ne
      rw [List.filter_cons_of_neg (by simp [same]), ih, List.lookup_cons, differs]
    · rw [List.filter_cons_of_pos (by simpa using same), List.lookup_cons, List.lookup_cons, ih]

theorem get_set_of_ne (ne : other ≠ code) : (m.set code notes).get other = m.get other := by
  have differs : (other == code) = false := by simpa using ne
  unfold get set
  rw [List.lookup_cons, differs]
  dsimp only
  rw [lookup_filter_of_ne ne]

theorem get_set_congr (same : m'.get other = m.get other) :
    (m'.set code notes).get other = (m.set code notes).get other := by
  by_cases eq : other = code
  · rw [eq, get_set_self, get_set_self]
  · rw [get_set_of_ne eq, get_set_of_ne eq, same]

end Memory

def Action.isOf (code : Code) : Action Check → Bool
  | .invoke i => i.check.code = code
  | .fault _ => false

def Action.others (code : Code) (actions : List (Action Check)) : List (Action Check) :=
  actions.filter fun a => !a.isOf code

def withoutCode (code : Code) (reports : List Report) : List Report :=
  reports.filter fun r => r.code ≠ code

/-- A state of a run with the checks of a code, and one of the run without them. -/
structure RunState.SameBut (code : Code) (s s' : RunState) : Prop where
  found : s'.found = withoutCode code s.found
  memory (other : Code) : other ≠ code → s'.memory.get other = s.memory.get other

namespace RunState.SameBut

variable {code : Code} {s s' r : RunState} {c : Check} {env : Env} {n : Node}

/-- A step of the checks that the other run leaves out. -/
theorem own_step (h : SameBut code s s') (own : c.code = code) (run : c.runOn env n s = .ok r) :
    SameBut code r s' := by
  rw [Check.runOn_eq] at run
  obtain ⟨⟨found, notes⟩, -, rfl⟩ := map_eq_ok run
  constructor
  · rw [h.found]
    simp [Check.after, withoutCode, own]
  · intro other ne
    rw [h.memory other ne]
    unfold Check.after
    cases c.judge with
    | noting f => exact (Memory.get_set_of_ne (own ▸ ne)).symm
    | plain f => rfl
    | fallible f => rfl

/-- A step that both runs take. The check is asked the same in both. -/
theorem common_step (h : SameBut code s s') (other : c.code ≠ code) :
    (∃ f, c.runOn env n s = .error f ∧ c.runOn env n s' = .error f) ∨
      ∃ r r', c.runOn env n s = .ok r ∧ c.runOn env n s' = .ok r' ∧ SameBut code r r' := by
  simp only [Check.runOn_eq, h.memory c.code other]
  cases c.judge.run env (s.memory.get c.code) n with
  | error f => exact .inl ⟨f, rfl, rfl⟩
  | ok p =>
    obtain ⟨found, notes⟩ := p
    refine .inr ⟨c.after s found notes, c.after s' found notes, rfl, rfl, ?_, ?_⟩
    · have kept : withoutCode code (found.map fun f => ⟨c.code, c.categories, f⟩).reverse =
          (found.map fun f => ⟨c.code, c.categories, f⟩).reverse := by
        refine List.filter_eq_self.2 fun r hr => ?_
        obtain ⟨f, -, rfl⟩ := List.mem_map.1 (List.mem_reverse.1 hr)
        simpa using other
      simp only [Check.after, withoutCode, List.filter_append] at kept ⊢
      rw [kept, h.found]
      rfl
    · intro code' ne
      unfold Check.after
      cases c.judge with
      | noting f => exact Memory.get_set_congr (h.memory code' ne)
      | plain f => exact h.memory code' ne
      | fallible f => exact h.memory code' ne

end RunState.SameBut

/-- How two runs end that start from `s` and `s'`, the second without the checks of a code: in
states that are the same but for them, or with the same fault, unless one of those checks ends the
first run. -/
def EndAlike (env : Env) (code : Code) (actions : List (Action Check)) (s s' : RunState) : Prop :=
  (∃ r r', actions.foldlM (Action.step env) s = .ok r
      ∧ (Action.others code actions).foldlM (Action.step env) s' = .ok r' ∧ r.SameBut code r')
    ∨ ∃ f, actions.foldlM (Action.step env) s = .error f
      ∧ ((Action.others code actions).foldlM (Action.step env) s' = .error f
        ∨ ∃ s'', ∃ a ∈ actions, a.isOf code ∧ a.step env s'' = .error f)

section

variable {code : Code} {s s' r r' : RunState} {env : Env} {a : Action Check}
  {actions : List (Action Check)}

theorem Action.others_cons_of_isOf (own : a.isOf code) :
    Action.others code (a :: actions) = Action.others code actions :=
  List.filter_cons_of_neg (by simp [own])

theorem Action.foldlM_others_cons (other : a.isOf code = false) :
    (Action.others code (a :: actions)).foldlM (Action.step env) s =
      a.step env s >>= (Action.others code actions).foldlM (Action.step env) := by
  rw [Action.others, List.filter_cons_of_pos (by simp [other]), List.foldlM_cons]
  rfl

/-- One step of the first run, and what the second does meanwhile. -/
theorem EndAlike.cons (h : EndAlike env code actions r r') (first : a.step env s = .ok r)
    (second : (Action.others code (a :: actions)).foldlM (Action.step env) s' =
      (Action.others code actions).foldlM (Action.step env) r') :
    EndAlike env code (a :: actions) s s' := by
  unfold EndAlike at h ⊢
  rw [← second] at h
  rw [List.foldlM_cons, first]
  rcases h with done | ⟨f, fault, same | ⟨s'', b, hb, met⟩⟩
  · exact .inl done
  · exact .inr ⟨f, fault, .inl same⟩
  · exact .inr ⟨f, fault, .inr ⟨s'', b, List.mem_cons_of_mem _ hb, met⟩⟩

/-- By induction over the steps. Only a step of a check that both runs have can go on in both. -/
theorem RunState.SameBut.endAlike (h : s.SameBut code s') (actions : List (Action Check)) :
    EndAlike env code actions s s' := by
  induction actions generalizing s s' with
  | nil => exact .inl ⟨s, s', rfl, rfl, h⟩
  | cons a actions ih =>
    have common (f : Fault) (other : a.isOf code = false) (first : a.step env s = .error f)
        (second : a.step env s' = .error f) : EndAlike env code (a :: actions) s s' := by
      refine .inr ⟨f, by rw [List.foldlM_cons, first]; rfl, .inl ?_⟩
      rw [Action.foldlM_others_cons other, second]
      rfl
    cases a with
    | fault f => exact common f rfl rfl rfl
    | invoke i =>
      by_cases own : i.check.code = code
      · have isOf : (Action.invoke i).isOf code := by simpa [Action.isOf] using own
        cases first : i.check.runOn env i.node s with
        | ok r =>
          refine (ih (h.own_step own first)).cons first ?_
          rw [Action.others_cons_of_isOf isOf]
        | error f =>
          refine .inr ⟨f, ?_, .inr ⟨s, .invoke i, List.mem_cons_self, isOf, first⟩⟩
          rw [List.foldlM_cons, show (Action.invoke i).step env s = .error f from first]
          rfl
      · have isOf : (Action.invoke i).isOf code = false := by simpa [Action.isOf] using own
        rcases h.common_step own with ⟨f, first, second⟩ | ⟨r, r', first, second, h⟩
        · exact common f isOf first second
        · refine (ih h).cons first ?_
          rw [Action.foldlM_others_cons isOf,
            show (Action.invoke i).step env s' = .ok r' from second]
          rfl

end

/-- The visitor takes the steps of the checks that are left as before. -/
theorem Registry.accept_filter (checks : List Check) (code : Code) (t : Node) :
    (ofChecks (checks.filter fun c => c.code ≠ code)).accept t =
      Action.others code ((ofChecks checks).accept t) := by
  have atEvent (e : Event) : (ofChecks (checks.filter fun c => c.code ≠ code)).atEvent e =
      Action.others code ((ofChecks checks).atEvent e) := by
    cases e with
    | fault f => rfl
    | enter n =>
      simp only [Registry.atEvent_enter, invoke, checksOf_ofChecks, Action.others,
        List.filter_flatMap, List.filter_map, List.filter_filter]
      refine List.flatMap_congr fun cls _ => congrArg (List.map _) (List.filter_congr fun c _ => ?_)
      simp [Action.isOf, Bool.and_comm]
  rw [accept_eq, accept_eq, Action.others, List.filter_flatMap]
  exact List.flatMap_congr fun e _ => atEvent e

/-- A fault that a check of a code meets on a node of a tree. -/
def FaultOf (checks : List Check) (env : Env) (t : Node) (code : Code) (f : Fault) : Prop :=
  ∃ c ∈ checks, c.code = code ∧ ∃ n notes, .enter n ∈ t.events .checking
    ∧ c.judge.run env notes n = .error f

theorem reports_filter (checks : List Check) (env : Env) (t : Node) (code : Code) :
    reports (checks.filter fun c => c.code ≠ code) env t =
        (reports checks env t).map (withoutCode code)
      ∨ ∃ f, reports checks env t = .error f ∧ FaultOf checks env t code f := by
  have start : ({} : RunState).SameBut code {} := ⟨rfl, fun _ _ => rfl⟩
  unfold reports
  rw [runTree_eq, runTree_eq, Registry.accept_filter]
  rcases start.endAlike ((Registry.ofChecks checks).accept t) with
    ⟨r, r', first, second, same⟩ | ⟨f, first, second | ⟨s, a, ha, own, met⟩⟩
  · left
    rw [first, second]
    simp [Except.map, same.found, withoutCode, List.filter_reverse]
  · left
    rw [first, second]
    rfl
  · right
    refine ⟨f, by rw [first]; rfl, ?_⟩
    rcases Registry.mem_accept_iff.1 ha with ⟨n, cls, c, rfl, entered, -, hc⟩ | ⟨g, rfl, -⟩
    · rw [Registry.checksOf_ofChecks, List.mem_filter] at hc
      rw [Action.step, Check.runOn_eq, map_eq_error_iff] at met
      exact ⟨c, hc.1, by simpa [Action.isOf] using own, n, _, entered, met⟩
    · cases own

/-- For the categories of a check it does not matter which codes are listed. -/
theorem Kind.meets_categorySet_congr (k : Kind) {a b : Selection}
    (same : ∀ name, .category name none ∈ a ↔ .category name none ∈ b) :
    a.meets k.categorySet = b.meets k.categorySet := by
  rw [Bool.eq_iff_iff, Selection.meets_iff, Selection.meets_iff]
  simp only [categorySet, List.mem_map]
  constructor
  · rintro ⟨_, listed, name, hn, rfl⟩
    exact ⟨_, (same name).1 listed, name, hn, rfl⟩
  · rintro ⟨_, listed, name, hn, rfl⟩
    exact ⟨_, (same name).2 listed, name, hn, rfl⟩

/-- Disabling a code changes nothing about the other codes. -/
theorem Settings.selects_disable (s : Settings) (code : Code) (k : Kind) :
    (s.apply (.disable [.code code none])).selects k = (s.selects k && k.code ≠ code) := by
  by_cases own : k.code = code
  · simp [selects, apply, Kind.classifier, own]
  · have enabled : (s.enable.diff [.code code none]).meets k.categorySet =
        s.enable.meets k.categorySet := k.meets_categorySet_congr (by simp)
    have disabled : (s.disable.union [.code code none]).meets k.categorySet =
        s.disable.meets k.categorySet := k.meets_categorySet_congr (by simp)
    simp [selects, apply, Kind.classifier, own, enabled, disabled]

/-- A module that loads still loads, and gives its check unless that has the disabled code. -/
theorem CheckModule.selected_disable {s : Settings} {m : CheckModule} {c : Option Check}
    (loaded : m.selected s = .ok c) (code : Code) :
    m.selected (s.apply (.disable [.code code none])) = .ok (c.filter fun c => c.code ≠ code) := by
  unfold selected at loaded ⊢
  cases content : m.content with
  | nothing =>
    rw [content] at loaded
    cases loaded
    rfl
  | check c =>
    rw [content] at loaded
    cases loaded
    simp only [Settings.selects_disable]
    cases s.selects c.kind <;> by_cases own : c.code = code <;>
      simp [Check.kind, Option.filter, own]
  | misdeclared kind location line signature =>
    rw [content] at loaded
    dsimp only at loaded ⊢
    rw [Settings.selects_disable]
    split at loaded
    · cases loaded
    case h_2 fine =>
      cases loaded
      split
      case h_1 e selected strange =>
        exact absurd strange (fine e (Bool.and_eq_true_iff.1 selected).1)
      case h_2 => rfl

theorem mapM_eq_ok_map {ε α β γ : Type} {f : α → Except ε β} {g : α → Except ε γ} {h : β → γ}
    {as : List α} {bs : List β} (each : ∀ a b, f a = .ok b → g a = .ok (h b))
    (mapped : as.mapM f = .ok bs) : as.mapM g = .ok (bs.map h) := by
  induction as generalizing bs with
  | nil =>
    cases mapped
    rfl
  | cons a as ih =>
    rw [List.mapM_cons] at mapped
    obtain ⟨b, first, mapped⟩ := bind_eq_ok mapped
    obtain ⟨bs', rest, mapped⟩ := bind_eq_ok mapped
    cases mapped
    rw [List.mapM_cons, each a b first, ih rest]
    rfl

theorem loadChecks_disable {s : Settings} {checks : List Check} (loaded : loadChecks s = .ok checks)
    (code : Code) :
    loadChecks (s.apply (.disable [.code code none])) =
      .ok (checks.filter fun c => c.code ≠ code) := by
  obtain ⟨ms, named, loaded⟩ := bind_eq_ok loaded
  obtain ⟨cs, each, loaded⟩ := bind_eq_ok loaded
  cases loaded
  have again := mapM_eq_ok_map (fun _ _ selected => CheckModule.selected_disable selected code) each
  have sameNames : (s.apply (.disable [.code code none])).load = s.load := rfl
  unfold loadChecks Library.checks
  rw [sameNames, named]
  dsimp only [bind, Except.bind]
  rw [again]
  simp [pure, Except.pure, List.filterMap_map, List.filter_filterMap]

def Settings.env (s : Settings) (table : SymbolTable) : Env := ⟨table, s.targetVersion, s.files⟩

theorem loadChecks_enableAll : loadChecks { enableAll := true } = .ok Catalogue.builtin := by
  have unnamed : ({ enableAll := true } : Settings).load = [] := rfl
  rw [loadChecks_of_unnamed unnamed, List.filter_eq_self.2]
  intro c _
  simp [Settings.selects, Selection.meets]

/-- With a code disabled, the other checks are loaded as before and report what they report beside
the checks of that code, in the same order; unless one of those checks meets a fault and so ends
the run in which it takes part. -/
theorem reports_disable {s : Settings} {checks : List Check} (loaded : loadChecks s = .ok checks)
    (code : Code) (table : SymbolTable) (t : Node) :
    let s' := s.apply (.disable [.code code none])
    ∃ others, loadChecks s' = .ok others ∧
      (reports others (s'.env table) t = (reports checks (s.env table) t).map (withoutCode code)
        ∨ ∃ f, reports checks (s.env table) t = .error f
          ∧ FaultOf checks (s.env table) t code f) :=
  ⟨_, loadChecks_disable loaded code, reports_filter checks (s.env table) t code⟩

/-- All checks over two tests of a type, with and without the check for such tests. -/
theorem reports_disable_sameValueTests :
    let s : Settings := { enableAll := true }
    let code := Catalogue.TypeTests.sameValueTests.code
    let s' := s.apply (.disable [.code code none])
    let t := askingTwice [⟨knownAs "y" "y", .pos, none⟩]
    loadChecks s = .ok Catalogue.builtin ∧
      ∃ others, loadChecks s' = .ok others ∧
        reports others (s'.env tupleOnly) t =
          (reports Catalogue.builtin (s.env tupleOnly) t).map (withoutCode code) := by
  intro s code s' t
  obtain ⟨others, loaded, same | ⟨f, fault, -⟩⟩ :=
    reports_disable loadChecks_enableAll code tupleOnly t
  · exact ⟨loadChecks_enableAll, others, loaded, same⟩
  · have wellFormed : t.WellFormed := wellFormed_askingTwice (by simp [wellFormed_knownAs])
    have complete : (s.env tupleOnly).table.Complete := complete_tupleOnly
    have fine := (succeeds_runTree_iff wellFormed complete (fun _ hc => hc) {}).2
      fun _ _ => testsNothing_of_entered_askingTwice
    exact absurd (map_eq_error_iff.1 fault) (succeeds_iff_ne_error.1 fine f)

/-- A second test without arguments: the check for such tests ends the run of all checks, and
without it the others have their say. -/
theorem fault_withholds_reports :
    let s : Settings := { enableAll := true }
    let code := Catalogue.TypeTests.sameValueTests.code
    let s' := s.apply (.disable [.code code none])
    let t := askingTwice []
    loadChecks s = .ok Catalogue.builtin ∧
      reports Catalogue.builtin (s.env tupleOnly) t = .error .outOfRange ∧
      ∃ others found, loadChecks s' = .ok others ∧ reports others (s'.env tupleOnly) t = .ok found := by
  intro s code s' t
  have wellFormed : t.WellFormed := wellFormed_askingTwice (by simp)
  have complete : (s.env tupleOnly).table.Complete := complete_tupleOnly
  have loaded : Catalogue.TypeTests.sameValueTests ∈ Catalogue.builtin := by
    simp [Catalogue.builtin]
  have fault := runTree_of_testsNothing wellFormed complete (fun _ hc => hc) loaded
    (entered_askingTwice []) rfl {}
  have fine := (succeeds_runTree_iff wellFormed complete
    (fun c (hc : c ∈ Catalogue.builtin.filter fun c => c.code ≠ code) => (List.mem_filter.1 hc).1)
    {}).2 fun own => absurd own (by simp [code])
  obtain ⟨r, run⟩ := fine
  refine ⟨loadChecks_enableAll, by rw [reports, fault]; rfl, _, r.found.reverse,
    loadChecks_disable loadChecks_enableAll code, ?_⟩
  rw [reports, show s'.env tupleOnly = s.env tupleOnly from rfl, run]
  rfl

end IdiomLint
