import IdiomLint.Proofs.CheckIsolation
import Mathlib.Data.List.Basic

/-! Checks that remember nodes. Such a check looks at a node and at some of its parts, and
remembers those parts so as not to report them again when the walk comes to them. A description of
what it remembers below each node, right for one step, says what the check reports along a whole
walk. -/
namespace IdiomLint

namespace Node

/-- A variable that a parameter or a decorated function declares. It goes by the identity of what
declares it. -/
def isVariable : Node → Bool
  | ⟨_, .leaf .variable _⟩ => true
  | _ => false

/-- The nodes of a tree as the walk of the checks enters them. -/
def reached (n : Node) : List Node :=
  n :: (n.children .argumentsFirst).attach.flatMap fun c => c.1.reached
termination_by sizeOf n
decreasing_by exact sizeOf_lt_of_mem_children c.2

theorem reached_eq (n : Node) :
    n.reached = n :: (n.children .argumentsFirst).flatMap reached := by
  rw [reached]
  congr 1
  conv_rhs => rw [← List.attach_map_subtype_val (n.children .argumentsFirst), List.flatMap_map]

theorem within_of_mem_reached {n m : Node} (hm : m ∈ n.reached) : m.Within n := by
  rw [reached_eq, List.mem_cons, List.mem_flatMap] at hm
  obtain rfl | ⟨c, hc, hm⟩ := hm
  · exact .refl m
  · exact .deeper (mem_calleeFirst_of_mem hc) (within_of_mem_reached hm)
termination_by sizeOf n
decreasing_by exact sizeOf_lt_of_mem_children hc

def ids (n : Node) : List NodeId := (n.reached.filter (!·.isVariable)).map (·.id)

theorem ids_eq (n : Node) :
    n.ids = (if n.isVariable then [] else [n.id])
      ++ (n.children .argumentsFirst).flatMap ids := by
  have below : (((n.children .argumentsFirst).flatMap reached).filter (!·.isVariable)).map (·.id)
      = (n.children .argumentsFirst).flatMap ids := by
    rw [List.filter_flatMap, List.map_flatMap]
    rfl
  rw [ids, reached_eq, List.filter_cons]
  cases n.isVariable <;> simp [below]

theorem id_mem_ids {n : Node} (h : n.isVariable = false) : n.id ∈ n.ids := by
  rw [ids_eq, h]
  simp

theorem ids_subset_of_mem {n c : Node} (h : c ∈ n.children .argumentsFirst) : c.ids ⊆ n.ids := by
  intro i hi
  rw [ids_eq, List.mem_append, List.mem_flatMap]
  exact .inr ⟨c, h, hi⟩

theorem nodup_flatMap_ids {n : Node} (h : n.ids.Nodup) :
    ((n.children .argumentsFirst).flatMap ids).Nodup := by
  rw [ids_eq] at h
  exact (List.nodup_append.1 h).2.1

/-- No part of a node has the identity of the node. -/
theorem ne_id_of_mem {n c : Node} (h : n.ids.Nodup) (real : n.isVariable = false)
    (hc : c ∈ n.children .argumentsFirst) {i : NodeId} (hi : i ∈ c.ids) : i ≠ n.id := by
  rw [ids_eq, real] at h
  exact ((List.nodup_append.1 h).2.2 n.id (by simp) i (List.mem_flatMap.2 ⟨c, hc, hi⟩)).symm

theorem nodup_ids_of_sublist {n : Node} {nodes : List Node} (distinct : n.ids.Nodup)
    (h : nodes.Sublist n.reached) (real : ∀ m ∈ nodes, m.isVariable = false) :
    (nodes.map (·.id)).Nodup := by
  have kept : nodes.filter (!·.isVariable) = nodes := List.filter_eq_self.2 (by simpa using real)
  rw [← kept]
  exact distinct.sublist ((h.filter _).map _)

/-- A walk that meets no fault enters the whole tree. -/
theorem events_eq_reached (n : Node) (clear : ∀ f, .fault f ∉ n.events .checking) :
    n.events .checking = n.reached.map .enter := by
  obtain ⟨-, shown, inside⟩ := events_of_clear rfl clear
  have below (c : Node) (hc : c ∈ n.children .argumentsFirst) :
      c.events .checking = c.reached.map .enter :=
    events_eq_reached c (inside c hc)
  rw [shown, reached_eq, List.map_cons, List.map_flatMap]
  exact congrArg _ (List.flatMap_congr below)
termination_by sizeOf n
decreasing_by exact sizeOf_lt_of_mem_children hc

theorem entries_eq_ok_iff {w : Walk} {t : Node} {nodes : List Node} :
    t.entries w = .ok nodes ↔ t.events w = nodes.map .enter := by
  unfold entries
  generalize t.events w = es
  induction es generalizing nodes with
  | nil => cases nodes <;> simp [pure, Except.pure]
  | cons e es ih =>
    rw [List.mapM_cons]
    cases e with
    | fault f => cases nodes <;> simp [bind, Except.bind]
    | enter m =>
      constructor
      · intro h
        obtain ⟨_, first, h⟩ := bind_eq_ok h
        obtain ⟨rest, more, h⟩ := bind_eq_ok h
        cases first
        cases h
        rw [ih.1 more]
        rfl
      · intro h
        cases nodes with
        | nil => cases h
        | cons n nodes =>
          cases h
          dsimp only [bind, Except.bind]
          rw [ih.2 rfl]
          rfl

theorem reached_of_entries {t : Node} {nodes : List Node}
    (walked : t.entries .checking = .ok nodes) :
    nodes = t.reached ∧ t.events .checking = t.reached.map .enter := by
  have all := entries_eq_ok_iff.1 walked
  have same := t.events_eq_reached fun f => by simp [all]
  have injective : Function.Injective Event.enter := fun _ _ h => by
    cases h
    rfl
  exact ⟨injective.list_map (all.symm.trans same), same⟩

section

variable {reach : Node → Nat} {n : Node} {handed : Bool}

/-- The parts of a node, each with whether it is one of the first few, at which a check looks
together with the node. -/
def parts (reach : Node → Nat) (n : Node) : List (Node × Bool) :=
  ((n.children .argumentsFirst).take (reach n)).map (·, true)
    ++ ((n.children .argumentsFirst).drop (reach n)).map (·, false)

theorem map_fst_parts (reach : Node → Nat) (n : Node) :
    (n.parts reach).map (·.1) = n.children .argumentsFirst := by
  simp [parts, Function.comp_def]

theorem fst_mem_of_mem_parts {p : Node × Bool} (h : p ∈ n.parts reach) :
    p.1 ∈ n.children .argumentsFirst :=
  map_fst_parts reach n ▸ List.mem_map_of_mem h

theorem handed_mem_parts_iff {c : Node} :
    (c, true) ∈ n.parts reach ↔ c ∈ (n.children .argumentsFirst).take (reach n) := by
  rw [parts, List.mem_append, List.mem_map, List.mem_map]
  simp

theorem parts_of_reach_eq_zero (h : reach n = 0) :
    n.parts reach = (n.children .argumentsFirst).map (·, false) := by
  simp [parts, h]

/-- A tree in pre-order, each node with whether it is handed on from the node above. -/
def marked (reach : Node → Nat) (n : Node) (handed : Bool) : List (Node × Bool) :=
  (n, handed) :: (n.parts reach).attach.flatMap fun p => p.1.1.marked reach p.1.2
termination_by sizeOf n
decreasing_by exact sizeOf_lt_of_mem_children (fst_mem_of_mem_parts p.2)

theorem marked_eq (reach : Node → Nat) (n : Node) (handed : Bool) :
    n.marked reach handed =
      (n, handed) :: (n.parts reach).flatMap fun p => p.1.marked reach p.2 := by
  rw [marked]
  congr 1
  conv_rhs => rw [← List.attach_map_subtype_val (n.parts reach), List.flatMap_map]

theorem map_fst_marked (reach : Node → Nat) (n : Node) (handed : Bool) :
    (n.marked reach handed).map (·.1) = n.reached := by
  have below (p : Node × Bool) (hp : p ∈ n.parts reach) :
      (p.1.marked reach p.2).map (·.1) = p.1.reached := map_fst_marked reach p.1 p.2
  rw [marked_eq, reached_eq, List.map_cons, List.map_flatMap, List.flatMap_congr below,
    ← map_fst_parts reach n, List.flatMap_map]
termination_by sizeOf n
decreasing_by exact sizeOf_lt_of_mem_children (fst_mem_of_mem_parts hp)

/-- A node of a tree that is not its root is a part of another one. -/
theorem mem_marked_iff (reach : Node → Nat) (n : Node) (handed : Bool) {p : Node × Bool} :
    p ∈ n.marked reach handed ↔ p = (n, handed) ∨ ∃ m ∈ n.reached, p ∈ m.parts reach := by
  have below (q : Node × Bool) (hq : q ∈ n.parts reach) :
      p ∈ q.1.marked reach q.2 ↔ p = q ∨ ∃ m ∈ q.1.reached, p ∈ m.parts reach :=
    mem_marked_iff reach q.1 q.2
  rw [marked_eq, List.mem_cons, List.mem_flatMap, reached_eq]
  refine or_congr_right ⟨?_, ?_⟩
  · rintro ⟨q, hq, hp⟩
    rcases (below q hq).1 hp with rfl | ⟨m, hm, hp⟩
    · exact ⟨n, List.mem_cons_self, hq⟩
    · exact ⟨m, List.mem_cons_of_mem _ (List.mem_flatMap.2 ⟨q.1, fst_mem_of_mem_parts hq, hm⟩), hp⟩
  · rintro ⟨m, hm, hp⟩
    rcases List.mem_cons.1 hm with rfl | hm
    · exact ⟨p, hp, (below p hp).2 (.inl rfl)⟩
    · obtain ⟨c, hc, hm⟩ := List.mem_flatMap.1 hm
      rw [← map_fst_parts reach n] at hc
      obtain ⟨q, hq, rfl⟩ := List.mem_map.1 hc
      exact ⟨q, hq, (below q hq).2 (.inr ⟨m, hm, hp⟩)⟩
termination_by sizeOf n
decreasing_by exact sizeOf_lt_of_mem_children (fst_mem_of_mem_parts hq)

/-- With distinct identities, a node is handed on at every place where it is or at none. -/
theorem handed_unique {m : Node} {a b : Bool} (distinct : n.ids.Nodup)
    (real : m.isVariable = false) (ha : (m, a) ∈ n.marked reach handed)
    (hb : (m, b) ∈ n.marked reach handed) : a = b := by
  have ids : n.ids = ((n.marked reach handed).filter (!·.1.isVariable)).map (·.1.id) := by
    rw [Node.ids, ← map_fst_marked reach n handed, List.filter_map, List.map_map]
    rfl
  rw [ids] at distinct
  have same := List.inj_on_of_nodup_map distinct (List.mem_filter.2 ⟨ha, by simp [real]⟩)
    (List.mem_filter.2 ⟨hb, by simp [real]⟩) rfl
  exact (Prod.mk.inj same).2

end

/-- The classes of a node besides its own. -/
theorem classes_eq (n : Node) :
    n.classes = [] ∨ (∃ cls, n.classes = [cls]) ∨ ∃ cls, n.classes = [cls, .functionItem] := by
  unfold classes
  split <;> simp

end Node

def Check.report (c : Check) (f : Finding) : Report := ⟨c.code, c.categories, f⟩

def Check.looksAt (c : Check) (n : Node) : Bool := n.classes.any c.classes.contains

theorem Check.isVariable_of_looksAt {c : Check} {n : Node} (noVariables : .variable ∉ c.classes)
    (h : c.looksAt n) : n.isVariable = false := by
  by_contra isVariable
  have classes : n.classes = [.variable] := by
    unfold Node.isVariable at isVariable
    split at isVariable
    · rfl
    · exact absurd rfl isVariable
  rw [looksAt, classes] at h
  exact noVariables (by simpa using h)

def RunState.seenBy (s : RunState) (c : Check) : List NodeId := (s.memory.get c.code).seen

def Check.stepAt (c : Check) (env : Env) (s : RunState) (n : Node) : Except Fault RunState :=
  ((Registry.ofChecks [c]).atEvent (.enter n)).foldlM (Action.step env) s

theorem Check.stepAt_eq {c : Check} (plain : .functionItem ∉ c.classes) (env : Env) (s : RunState)
    (n : Node) : c.stepAt env s n = if c.looksAt n then c.runOn env n s else .ok s := by
  have chosen (cls : NodeClass) :
      (Registry.ofChecks [c]).checksOf cls = if c.classes.contains cls then [c] else [] := by
    rw [Registry.checksOf_ofChecks, List.filter_cons, List.filter_nil]
  have item : c.classes.contains .functionItem = false := by simpa using plain
  have single (cls : NodeClass) : ((Registry.ofChecks [c]).invoke cls n).foldlM (Action.step env) s
      = if c.classes.contains cls then c.runOn env n s else .ok s := by
    rw [Registry.invoke, chosen]
    cases c.classes.contains cls
    · rfl
    · exact bind_pure _
  unfold stepAt looksAt
  rw [Registry.atEvent_enter]
  rcases n.classes_eq with none | ⟨cls, one⟩ | ⟨cls, two⟩
  · rw [none]
    rfl
  · rw [one]
    simpa using single cls
  · have nothing : (Registry.ofChecks [c]).invoke .functionItem n = [] := by
      rw [Registry.invoke, chosen, item]
      rfl
    rw [two]
    simpa [nothing, plain] using single cls

/-- A check that is run alone is asked about the nodes of a tree one after the other. -/
theorem runTree_singleton {c : Check} {env : Env} {t : Node} {nodes : List Node}
    (walked : t.entries .checking = .ok nodes) (s : RunState) :
    runTree [c] env s t = t.reached.foldlM (c.stepAt env) s := by
  rw [runTree_eq, Registry.accept_eq, (Node.reached_of_entries walked).2]
  generalize t.reached = reached
  induction reached generalizing s with
  | nil => rfl
  | cons n reached ih =>
    simp only [List.map_cons, List.flatMap_cons, List.foldlM_append, List.foldlM_cons]
    exact bind_congr ih

/-- How a check remembers nodes. Run on a node, it reports what is `due` there, which depends on
whether the node is handed on, and remembers what is `added`. What it remembers of a tree that is
handed on is `kept`. -/
structure Bookkeeping where
  reach : Node → Nat
  due : Node → Bool → List Node
  kept : Node → List NodeId
  added : Node → Bool → List NodeId
  finding : Node → Finding

namespace Bookkeeping

/-- What has to be remembered of a tree when the walk comes to it. -/
def Ready (b : Bookkeeping) (n : Node) (handed : Bool) (seen : List NodeId) : Prop :=
  ∀ i ∈ n.ids, i ∈ seen ↔ handed = true ∧ i ∈ b.kept n

/-- The description is right about each step of a check. -/
structure Describes (b : Bookkeeping) (c : Check) (env : Env) : Prop where
  plain : .functionItem ∉ c.classes
  noting : ∃ judge, c.judge = .noting judge
  judged {n : Node} {handed : Bool} {notes : Notes} : c.looksAt n → n.ids.Nodup →
    b.Ready n handed notes.seen → ∃ seen,
      c.judge.run env notes n = .ok ((b.due n handed).map b.finding, { notes with seen })
        ∧ ∀ i, i ∈ seen ↔ i ∈ notes.seen ∨ i ∈ b.added n handed
  passed {n : Node} (handed : Bool) : c.looksAt n = false →
    b.due n handed = [] ∧ b.added n handed = []
  added_subset (n : Node) (handed : Bool) : b.added n handed ⊆ n.ids
  handed_on {n : Node} (handed : Bool) : n.ids.Nodup → ∀ p ∈ n.parts b.reach, ∀ i ∈ p.1.ids,
    handed = true ∧ i ∈ b.kept n ∨ i ∈ b.added n handed ↔ p.2 = true ∧ i ∈ b.kept p.1

def dueAt (b : Bookkeeping) (ps : List (Node × Bool)) : List Node :=
  ps.flatMap fun p => b.due p.1 p.2

/-- A run of a check over marked nodes reports what is due, and changes what is remembered only
about the identities given. -/
structure Takes (b : Bookkeeping) (c : Check) (env : Env) (ps : List (Node × Bool))
    (ids : List NodeId) (s s' : RunState) : Prop where
  run : ps.foldlM (fun s p => c.stepAt env s p.1) s = .ok s'
  found : s'.found = ((b.dueAt ps).map fun n => c.report (b.finding n)).reverse ++ s.found
  frame : ∀ i ∉ ids, i ∈ s'.seenBy c ↔ i ∈ s.seenBy c

variable {b : Bookkeeping} {c : Check} {env : Env} {n : Node} {handed : Bool}
  {ps qs : List (Node × Bool)} {is js : List NodeId} {s s' s'' : RunState}

theorem Ready.of_frame (h : b.Ready n handed (s.seenBy c))
    (same : ∀ i ∈ n.ids, i ∈ s'.seenBy c ↔ i ∈ s.seenBy c) : b.Ready n handed (s'.seenBy c) :=
  fun i hi => (same i hi).trans (h i hi)

theorem Takes.append (first : b.Takes c env ps is s s') (second : b.Takes c env qs js s' s'') :
    b.Takes c env (ps ++ qs) (is ++ js) s s'' where
  run := by
    rw [List.foldlM_append, first.run]
    exact second.run
  found := by simp [second.found, first.found, dueAt]
  frame i hi := by
    rw [List.mem_append, not_or] at hi
    exact (second.frame i hi.2).trans (first.frame i hi.1)

/-- Trees one after the other. What is remembered of one is left alone by those before it. -/
theorem exists_takes_all (each : ∀ p ∈ ps, ∀ s : RunState, p.1.ids.Nodup →
      b.Ready p.1 p.2 (s.seenBy c) → ∃ s', b.Takes c env (p.1.marked b.reach p.2) p.1.ids s s')
    (distinct : (ps.flatMap fun p => p.1.ids).Nodup)
    (ready : ∀ p ∈ ps, b.Ready p.1 p.2 (s.seenBy c)) :
    ∃ s', b.Takes c env (ps.flatMap fun p => p.1.marked b.reach p.2)
      (ps.flatMap fun p => p.1.ids) s s' := by
  induction ps generalizing s with
  | nil => exact ⟨s, rfl, by simp [dueAt], by simp⟩
  | cons p ps ih =>
    rw [List.flatMap_cons, List.nodup_append] at distinct
    obtain ⟨own, others, apart⟩ := distinct
    obtain ⟨s₁, first⟩ := each p List.mem_cons_self s own (ready p List.mem_cons_self)
    have still (q : Node × Bool) (hq : q ∈ ps) : b.Ready q.1 q.2 (s₁.seenBy c) :=
      (ready q (List.mem_cons_of_mem _ hq)).of_frame fun i hi => first.frame i fun hi' =>
        apart i hi' i (List.mem_flatMap.2 ⟨q, hq, hi⟩) rfl
    obtain ⟨s₂, rest⟩ := ih (fun q hq => each q (List.mem_cons_of_mem _ hq)) others still
    exact ⟨s₂, first.append rest⟩

namespace Describes

variable (h : b.Describes c env)
include h

/-- One step. -/
theorem exists_stepAt (distinct : n.ids.Nodup) (ready : b.Ready n handed (s.seenBy c)) :
    ∃ s', b.Takes c env [(n, handed)] n.ids s s'
      ∧ ∀ i, i ∈ s'.seenBy c ↔ i ∈ s.seenBy c ∨ i ∈ b.added n handed := by
  have frame {s' : RunState} (more : ∀ i, i ∈ s'.seenBy c ↔ i ∈ s.seenBy c ∨ i ∈ b.added n handed) :
      ∀ i ∉ n.ids, i ∈ s'.seenBy c ↔ i ∈ s.seenBy c := fun i hi =>
    (more i).trans (or_iff_left fun added => hi (h.added_subset n handed added))
  cases looks : c.looksAt n with
  | false =>
    obtain ⟨due, added⟩ := h.passed handed looks
    have more (i : NodeId) : i ∈ s.seenBy c ↔ i ∈ s.seenBy c ∨ i ∈ b.added n handed := by
      simp [added]
    refine ⟨s, ⟨?_, ?_, frame more⟩, more⟩
    · simp [Check.stepAt_eq h.plain, looks, pure, Except.pure, bind, Except.bind]
    · simp [dueAt, due]
  | true =>
    obtain ⟨seen, judged, more⟩ := h.judged looks distinct ready
    obtain ⟨judge, noting⟩ := h.noting
    let s' := c.after s ((b.due n handed).map b.finding) { s.memory.get c.code with seen }
    have remembered : s'.seenBy c = seen := by
      simp [s', RunState.seenBy, Check.after, noting, Memory.get_set_self]
    rw [← remembered] at more
    refine ⟨s', ⟨?_, ?_, frame more⟩, more⟩
    · rw [List.foldlM_cons, Check.stepAt_eq h.plain, looks, if_pos rfl, Check.runOn_eq, judged]
      rfl
    · simp [s', Check.after, dueAt, Check.report, Function.comp_def]

/-- A whole tree, by induction over it. -/
theorem exists_takes (n : Node) (handed : Bool) (s : RunState) (distinct : n.ids.Nodup)
    (ready : b.Ready n handed (s.seenBy c)) :
    ∃ s', b.Takes c env (n.marked b.reach handed) n.ids s s' := by
  obtain ⟨s₁, first, more⟩ := h.exists_stepAt distinct ready
  have each (p : Node × Bool) (hp : p ∈ n.parts b.reach) (s : RunState) (distinct : p.1.ids.Nodup)
      (ready : b.Ready p.1 p.2 (s.seenBy c)) :
      ∃ s', b.Takes c env (p.1.marked b.reach p.2) p.1.ids s s' :=
    exists_takes p.1 p.2 s distinct ready
  have below : ((n.parts b.reach).flatMap fun p => p.1.ids)
      = (n.children .argumentsFirst).flatMap Node.ids := by
    rw [← Node.map_fst_parts b.reach n, List.flatMap_map]
  have readied (p : Node × Bool) (hp : p ∈ n.parts b.reach) : b.Ready p.1 p.2 (s₁.seenBy c) := by
    intro i hi
    have inside := Node.ids_subset_of_mem (Node.fst_mem_of_mem_parts hp) hi
    rw [more, ready i inside]
    exact h.handed_on handed distinct p hp i hi
  obtain ⟨s₂, rest⟩ := exists_takes_all each (below ▸ Node.nodup_flatMap_ids distinct) readied
  have both := first.append rest
  rw [List.singleton_append, ← Node.marked_eq] at both
  refine ⟨s₂, both.run, both.found, fun i hi => both.frame i fun hi' => hi ?_⟩
  rcases List.mem_append.1 hi' with own | inside
  · exact own
  · obtain ⟨p, hp, hi⟩ := List.mem_flatMap.1 inside
    exact Node.ids_subset_of_mem (Node.fst_mem_of_mem_parts hp) hi
termination_by sizeOf n
decreasing_by exact Node.sizeOf_lt_of_mem_children (Node.fst_mem_of_mem_parts hp)

/-- What a check reports about a tree when it is run alone. -/
theorem reports_eq {t : Node} {nodes : List Node} (walked : t.entries .checking = .ok nodes)
    (distinct : t.ids.Nodup) :
    reports [c] env t =
      .ok ((b.dueAt (t.marked b.reach false)).map fun n => c.report (b.finding n)) := by
  have nothing : b.Ready t false (({} : RunState).seenBy c) := fun i _ => by
    simp [RunState.seenBy, Memory.get]
  obtain ⟨s, taken⟩ := h.exists_takes t false {} distinct nothing
  have steps : runTree [c] env {} t = .ok s := by
    rw [runTree_singleton walked, ← Node.map_fst_marked b.reach t false, List.foldlM_map, taken.run]
  rw [reports, steps]
  simp [Except.map, taken.found]

end Describes

end Bookkeeping

/-- A run that goes well goes well without the checks of some codes, and finds the rest. -/
theorem reports_without {checks : List Check} {env : Env} {t : Node} {found : List Report}
    (h : reports checks env t = .ok found) (codes : List Code) :
    reports (checks.filter fun c => c.code ∉ codes) env t =
      .ok (found.filter fun r => r.code ∉ codes) := by
  induction codes with
  | nil => simpa using h
  | cons code codes ih =>
    rcases reports_filter (checks.filter fun c => c.code ∉ codes) env t code with
      same | ⟨f, fault, -⟩
    · rw [ih] at same
      simpa [withoutCode, List.filter_filter, Except.map, not_or] using same
    · rw [ih] at fault
      cases fault

/-- A check finds beside others what it finds alone. -/
theorem filter_code_of_reports {checks : List Check} {c : Check} {env : Env} {t : Node}
    {found own : List Report} (only : checks.filter (fun c' => c'.code = c.code) = [c])
    (alone : reports [c] env t = .ok own) (mine : ∀ r ∈ own, r.code = c.code)
    (h : reports checks env t = .ok found) :
    found.filter (fun r => r.code = c.code) = own := by
  let codes := (checks.map (·.code)).filter (· ≠ c.code)
  have left : checks.filter (fun c' => c'.code ∉ codes) = [c] := by
    rw [← only]
    refine List.filter_congr fun c' hc' => ?_
    have listed : c'.code ∈ checks.map (·.code) := List.mem_map_of_mem hc'
    simp only [codes, List.mem_filter, listed]
    simp
  have kept := reports_without h codes
  rw [left, alone] at kept
  calc found.filter (fun r => r.code = c.code)
    _ = (found.filter fun r => r.code ∉ codes).filter (fun r => r.code = c.code) := by
      rw [List.filter_filter]
      refine List.filter_congr fun r _ => ?_
      by_cases own : r.code = c.code <;> simp [codes, own]
    _ = own.filter (fun r => r.code = c.code) := by rw [Except.ok.inj kept]
    _ = own := List.filter_eq_self.2 fun r hr => by simpa using mine r hr

end IdiomLint
