import IdiomLint.Proofs.AffixCuts
import IdiomLint.Proofs.NameOccurrences

/-! Which `if` statements the check on affixes skips. At an `if` with an `else` it remembers the `if`
statements of the `else` part: all those outside of others, and from each of them on the first
statements of `else` blocks. These are skipped, and what a skipped one has in its own `else` part is
not remembered on its account. So every `elif` is skipped, but also statements that stand among others
or in a loop of an `else` part. -/
namespace IdiomLint

namespace Node

def isTest : Node → Bool
  | ⟨_, .ifElse _ _⟩ => true
  | ⟨_, .conditional _ _ _⟩ => true
  | _ => false

def tests (n : Node) : List Node := n.nodes.filter isTest

variable {n m c : Node}

theorem tests_eq (n : Node) :
    n.tests = (if n.isTest then [n] else []) ++ n.held.flatMap tests := by
  rw [tests, nodes_eq, List.filter_cons, List.filter_flatMap]
  split <;> rfl

theorem mem_tests_self (test : n.isTest) : n ∈ n.tests := by
  rw [tests_eq, if_pos test]
  simp

/-- Variables that are declared are no tests. -/
theorem flatMap_tests_declarations (n : Node) : n.declarations.flatMap tests = [] := by
  rw [List.flatMap_eq_nil_iff]
  intro c hc
  obtain ⟨i, name, rfl⟩ := eq_variable_of_mem_declarations hc
  rw [tests_eq]
  rfl

theorem perm_tests_children (accepted : n.refusal = none) :
    ((n.children .calleeFirst).flatMap tests).Perm (n.held.flatMap tests) := by
  have split := (children_perm accepted).flatMap_right tests
  rwa [List.flatMap_append, flatMap_tests_declarations, List.append_nil] at split

theorem tests_subset_of_child (accepted : n.refusal = none) (hc : c ∈ n.children .calleeFirst) :
    c.tests ⊆ n.held.flatMap tests := by
  intro m hm
  exact (perm_tests_children accepted).mem_iff.1 (List.mem_flatMap.2 ⟨c, hc, hm⟩)

theorem tests_subset_of_within (formed : n.WellFormed) (within : m.Within n) : m.tests ⊆ n.tests := by
  induction within with
  | refl => exact List.Subset.refl _
  | deeper child within ih =>
    intro k hk
    rw [tests_eq]
    exact List.mem_append_right _
      (tests_subset_of_child formed.refusal_eq_none child (ih (formed.child child) hk))

theorem mem_tests_of_within (formed : n.WellFormed) (within : m.Within n) (test : m.isTest) :
    m ∈ n.tests := tests_subset_of_within formed within (mem_tests_self test)

/-- The walk of the checks goes on to some of the children, maybe in another order. -/
theorem children_subperm (n : Node) :
    (n.children .argumentsFirst).Subperm (n.children .calleeFirst) := by
  rw [children_argumentsFirst]
  split
  · next i callee args analyzed =>
    refine ((List.perm_append_singleton callee _).subperm).trans ?_
    exact (List.sublist_append_left _ _).subperm
  · exact List.Subperm.refl _

theorem nodup_held (distinct : (n.tests.map (·.id)).Nodup) :
    (n.held.flatMap fun c => c.tests.map (·.id)).Nodup := by
  rw [tests_eq, List.map_append, List.map_flatMap] at distinct
  exact (List.nodup_append.1 distinct).2.1

/-- Also each child has tests with identities of their own, and two children share none. -/
theorem nodup_children (accepted : n.refusal = none) (distinct : (n.tests.map (·.id)).Nodup) :
    (∀ c ∈ n.children .calleeFirst, (c.tests.map (·.id)).Nodup) ∧
      (n.children .argumentsFirst).Pairwise fun c d =>
        (c.tests.map (·.id)).Disjoint (d.tests.map (·.id)) := by
  have split := (perm_tests_children accepted).map (·.id)
  rw [List.map_flatMap, List.map_flatMap] at split
  obtain ⟨each, apart⟩ := List.nodup_flatMap.1 (split.nodup_iff.2 (nodup_held distinct))
  refine ⟨each, ?_⟩
  obtain ⟨chosen, same, part⟩ := n.children_subperm
  exact (apart.sublist part).perm same fun h => List.disjoint_symm h

theorem nodup_of_within (formed : n.WellFormed) (within : m.Within n)
    (distinct : (n.tests.map (·.id)).Nodup) : (m.tests.map (·.id)).Nodup := by
  induction within with
  | refl => exact distinct
  | deeper child within ih =>
    exact ih (formed.child child) ((nodup_children formed.refusal_eq_none distinct).1 _ child)

end Node

namespace Rules.Affixes

open Finding Node

/-- A node of a tree that is not inside of an `if` statement of it. -/
inductive Outside : Node → Node → Prop
  | here {n : Node} : Outside n n
  | deeper {n c m : Node} (other : ∀ i branches orElse, n ≠ ⟨i, .ifElse branches orElse⟩)
      (part : c ∈ n.children .calleeFirst) (outside : Outside c m) : Outside n m

/-- An `if` statement, or one that follows from it by first statements of `else` blocks. -/
inductive Chain : Node → Node → Prop
  | here {i : Info} {branches : List (Node × Node)} {orElse : Option Node} :
    Chain ⟨i, .ifElse branches orElse⟩ ⟨i, .ifElse branches orElse⟩
  | next {i j : Info} {branches : List (Node × Node)} {first m : Node} {rest : List Node}
      (chain : Chain first m) : Chain ⟨i, .ifElse branches (some ⟨j, .block (first :: rest)⟩)⟩ m

/-- What belongs to the `else` part of an `if` statement, as the check has it. -/
inductive LeavesOut : Node → Node → Prop
  | intro {i : Info} {branches : List (Node × Node)} {orElse k m : Node} (outside : Outside orElse k)
      (chain : Chain k m) : LeavesOut ⟨i, .ifElse branches (some orElse)⟩ m

/-- An `elif`: the only statement in the `else` block of an `if` statement is one again. -/
inductive ElifOf : Node → Node → Prop
  | intro {i j k : Info} {branches inner : List (Node × Node)} {orElse : Option Node} :
    ElifOf ⟨i, .ifElse branches (some ⟨j, .block [⟨k, .ifElse inner orElse⟩]⟩)⟩
      ⟨k, .ifElse inner orElse⟩

variable {a k m n : Node}

theorem orElse_mem_children {i : Info} {branches : List (Node × Node)} {orElse : Node} :
    orElse ∈ Node.children .calleeFirst ⟨i, .ifElse branches (some orElse)⟩ :=
  List.mem_append_right _ (List.mem_singleton_self orElse)

theorem Outside.within (h : Outside n m) : m.Within n := by
  induction h with
  | here => exact .refl _
  | deeper other part outside ih => exact .deeper part ih

theorem Chain.within (h : Chain n m) : m.Within n := by
  induction h with
  | here => exact .refl _
  | next chain ih =>
    exact .deeper orElse_mem_children (.deeper List.mem_cons_self ih)

theorem Chain.isTest (h : Chain n m) : m.isTest := by
  induction h with
  | here => rfl
  | next chain ih => exact ih

theorem Chain.trans (h : Chain n k) (h' : Chain k m) : Chain n m := by
  induction h with
  | here => exact h'
  | next chain ih => exact .next (ih h')

theorem LeavesOut.isTest (h : LeavesOut a m) : a.isTest ∧ m.isTest := by
  obtain ⟨outside, chain⟩ := h
  exact ⟨rfl, chain.isTest⟩

theorem LeavesOut.mem_tests (formed : a.WellFormed) (h : LeavesOut a m) :
    m ∈ a.held.flatMap tests := by
  have test := h.isTest.2
  obtain ⟨outside, chain⟩ := h
  refine tests_subset_of_child formed.refusal_eq_none orElse_mem_children ?_
  exact mem_tests_of_within (formed.child orElse_mem_children)
    (within_trans chain.within outside.within) test

theorem mem_elifChain_iff {i : NodeId} : i ∈ elifChain n ↔ ∃ m, Chain n m ∧ m.id = i := by
  fun_induction elifChain n with
  | case1 j branches k first rest ih =>
    rw [List.mem_cons, ih]
    constructor
    · rintro (rfl | ⟨m, chain, rfl⟩)
      · exact ⟨_, .here, rfl⟩
      · exact ⟨m, .next chain, rfl⟩
    · rintro ⟨m, chain, rfl⟩
      cases chain with
      | here => exact .inl rfl
      | next chain => exact .inr ⟨m, chain, rfl⟩
  | case2 j branches orElse last =>
    rw [List.mem_singleton]
    constructor
    · rintro rfl
      exact ⟨_, .here, rfl⟩
    · rintro ⟨m, chain, rfl⟩
      cases chain with
      | here => rfl
      | next chain => exact absurd rfl (last _ _ _)
  | case3 n _ noTest =>
    constructor
    · rintro ⟨⟩
    · rintro ⟨m, chain, -⟩
      cases chain with
      | here => exact absurd rfl (noTest _ _ _)
      | next chain => exact absurd rfl (noTest _ _ _)

/-- The walk of the check goes on to the children of everything but `if` statements. -/
theorem mem_entered_aroundIfs_iff {c : Node} :
    c ∈ aroundIfs.entered n ↔
      (∀ i branches orElse, n ≠ ⟨i, .ifElse branches orElse⟩) ∧ c ∈ n.children .calleeFirst := by
  obtain ⟨i, shape⟩ := n
  cases shape <;> simp [Walk.entered, aroundIfs]

theorem enter_mem_events_aroundIfs_iff {n : Node} (formed : n.WellFormed) :
    .enter m ∈ n.events aroundIfs ↔ Outside n m := by
  have below (c : Node) (hc : c ∈ aroundIfs.entered n) :
      .enter m ∈ c.events aroundIfs ↔ Outside c m :=
    enter_mem_events_aroundIfs_iff (formed.child (mem_entered_aroundIfs_iff.1 hc).2)
  rw [events, formed.refusal_eq_none]
  simp only [formed.complaint_eq_none, Option.toList_none, List.map_nil, ite_self, List.append_nil,
    List.mem_cons, Event.enter.injEq, List.mem_flatMap, List.mem_attach, true_and, Subtype.exists]
  constructor
  · rintro (rfl | ⟨c, hc, hm⟩)
    · exact .here
    · obtain ⟨other, part⟩ := mem_entered_aroundIfs_iff.1 hc
      exact .deeper other part ((below c hc).1 hm)
  · intro h
    cases h with
    | here => exact .inl rfl
    | deeper other part outside =>
      have hc := mem_entered_aroundIfs_iff.2 ⟨other, part⟩
      exact .inr ⟨_, hc, (below _ hc).2 outside⟩
termination_by sizeOf n
decreasing_by exact sizeOf_lt_of_mem_children (Walk.mem_children_of_mem_entered hc)

/-- What is remembered at an `if` with an `else`. -/
theorem exists_elifsBelow {orElse : Node} (formed : orElse.WellFormed) :
    ∃ ids, elifsBelow orElse = .ok ids ∧
      ∀ i, i ∈ ids ↔ ∃ k m, Outside orElse k ∧ Chain k m ∧ m.id = i := by
  obtain ⟨entered, walked⟩ := formed.succeeds_entries aroundIfs
  have reached (k : Node) : k ∈ entered ↔ Outside orElse k := by
    rw [← enter_mem_events_aroundIfs_iff formed, entries_eq_ok_iff.1 walked]
    simp
  refine ⟨entered.flatMap elifChain, by rw [elifsBelow, walked]; rfl, fun i => ?_⟩
  simp only [List.mem_flatMap, reached, mem_elifChain_iff]
  grind

/-- A test that cuts an affix off, with what is suggested in its place. -/
inductive Cuts : Node → String → Prop
  | statement {i j k : Info} {condition target value : Node} {more : List (Node × Node)}
      (c : Cut condition value) (same : target.equivalent c.sliced) :
    Cuts ⟨i, .ifElse ((condition, ⟨j, .block [⟨k, .assignment [target] value⟩]⟩) :: more) none⟩
      (c.sliced.sourceText ++ " = " ++ removal c.sliced c.test c.affix)
  | conditional {i : Info} {condition ifTrue ifFalse : Node} (c : Cut condition ifTrue)
      (other : c.tested.equivalent ifFalse) :
    Cuts ⟨i, .conditional condition ifTrue ifFalse⟩ (removal c.sliced c.test c.affix)

theorem Cuts.isTest {text : String} (h : Cuts n text) : n.isTest := by
  cases h <;> rfl

/-- What is found at a test by itself: its suggestion if it has one. -/
def Finds (n : Node) (fs : List Finding) : Prop :=
  (∃ text, Cuts n text ∧ fs = [replace n n.sourceText text]) ∨ (∀ text, ¬Cuts n text) ∧ fs = []

theorem finds_of_mem_iff {fs : List Finding} (single : fs.length ≤ 1)
    (h : ∀ f, f ∈ fs ↔ ∃ text, Cuts n text ∧ f = replace n n.sourceText text) : Finds n fs := by
  obtain _ | ⟨f, _ | ⟨g, fs⟩⟩ := fs
  · exact .inr ⟨fun text cuts => by simpa using (h _).2 ⟨text, cuts, rfl⟩, rfl⟩
  · obtain ⟨text, cuts, rfl⟩ := (h f).1 (List.mem_singleton_self f)
    exact .inl ⟨text, cuts, rfl⟩
  · simp at single

theorem flatten_eq_nil {ms : List Node} {each : List (List Finding)} (finds : List.Forall₂ Finds ms each)
    (none : ∀ m ∈ ms, ∀ text, ¬Cuts m text) : each.flatten = [] := by
  induction finds with
  | nil => rfl
  | cons here finds ih =>
    rw [List.forall_mem_cons] at none
    obtain ⟨text, cuts, -⟩ | ⟨-, rfl⟩ := here
    · exact absurd cuts (none.1 text)
    · exact ih none.2

theorem exists_mem_flatten {ms : List Node} {each : List (List Finding)}
    (finds : List.Forall₂ Finds ms each) (hm : m ∈ ms) {text : String} (cuts : Cuts m text) :
    ∃ text, Cuts m text ∧ replace m m.sourceText text ∈ each.flatten := by
  induction finds with
  | nil => cases hm
  | cons here finds ih =>
    rw [List.flatten_cons]
    obtain rfl | hm := List.mem_cons.1 hm
    · obtain ⟨text, cuts, rfl⟩ | ⟨none, -⟩ := here
      · exact ⟨text, cuts, List.mem_cons_self⟩
      · exact absurd cuts (none text)
    · obtain ⟨text, cuts, found⟩ := ih hm
      exact ⟨text, cuts, List.mem_append_right _ found⟩

theorem finds_ofStatement {i j : Info} {condition stmt : Node} {more : List (Node × Node)}
    (hn : n = ⟨i, .ifElse ((condition, ⟨j, .block [stmt]⟩) :: more) none⟩) :
    Finds n (ofStatement n condition stmt) := by
  refine finds_of_mem_iff ?_ fun f => ⟨fun hf => ?_, ?_⟩
  · unfold ofStatement
    split
    · split <;> simp
    · simp
  · obtain ⟨k, target, value, rfl, c, same, rfl⟩ := exists_cut_of_mem_ofStatement hf
    exact ⟨_, hn ▸ .statement c same, rfl⟩
  · rintro ⟨text, cuts, rfl⟩
    rw [hn] at cuts
    cases cuts with
    | statement c same =>
      obtain ⟨tested, test, affix, sliced, start, stop, isTest, ⟨_, _, _, _, rfl⟩, equal, cuts⟩ := c
      simp [ofStatement, isTest, equal, same, cuts]

theorem finds_ofConditional {i : Info} {condition ifTrue ifFalse : Node}
    (hn : n = ⟨i, .conditional condition ifTrue ifFalse⟩) :
    Finds n (ofConditional n condition ifTrue ifFalse) := by
  refine finds_of_mem_iff ?_ fun f => ⟨fun hf => ?_, ?_⟩
  · unfold ofConditional
    split
    · split <;> simp
    · simp
  · obtain ⟨c, other, rfl⟩ := exists_cut_of_mem_ofConditional hf
    exact ⟨_, hn ▸ .conditional c other, rfl⟩
  · rintro ⟨text, cuts, rfl⟩
    rw [hn] at cuts
    cases cuts with
    | conditional c other =>
      obtain ⟨tested, test, affix, sliced, start, stop, isTest, ⟨_, _, _, _, rfl⟩, equal, cuts⟩ := c
      simp [ofConditional, isTest, equal, other, cuts]

theorem mem_nil_iff_of_leavesOut (nothing : ∀ m, ¬LeavesOut n m) (i : NodeId) :
    i ∈ ([] : List NodeId) ↔ ∃ m, LeavesOut n m ∧ m.id = i := by
  simp [nothing]

theorem cutAffix_of_mem {env : Env} {notes : Notes} (known : n.id ∈ notes.seen) :
    cutAffix env notes n = .ok ([], notes) := by
  have asked : (!env.version.atLeast 3 9 || notes.seen.contains n.id) = true := by simp [known]
  unfold cutAffix
  rw [asked, if_pos rfl]

/-- The check at a node that it does not remember. -/
theorem exists_cutAffix {env : Env} (version : env.version.atLeast 3 9) (formed : n.WellFormed)
    {notes : Notes} (fresh : n.id ∉ notes.seen) :
    ∃ fs ids, cutAffix env notes n = .ok (fs, { notes with seen := ids ++ notes.seen }) ∧
      Finds n fs ∧ ∀ i, i ∈ ids ↔ ∃ m, LeavesOut n m ∧ m.id = i := by
  have asked : (!env.version.atLeast 3 9 || notes.seen.contains n.id) = false := by
    simp [version, fresh]
  unfold cutAffix
  rw [asked]
  simp only [Bool.false_eq_true, if_false]
  split
  · next i branches orElse _ =>
    obtain ⟨ids, found, covered⟩ := exists_elifsBelow (formed.child orElse_mem_children)
    refine ⟨[], ids, by rw [found]; rfl, .inr ⟨fun text => ?_, rfl⟩, fun j => ?_⟩
    · rintro ⟨⟩
    · rw [covered]
      constructor
      · rintro ⟨k, m, outside, chain, rfl⟩
        exact ⟨m, .intro outside chain, rfl⟩
      · rintro ⟨m, ⟨outside, chain⟩, rfl⟩
        exact ⟨_, m, outside, chain, rfl⟩
  · exact ⟨_, [], rfl, finds_ofStatement rfl, mem_nil_iff_of_leavesOut (by rintro m ⟨⟩)⟩
  · exact ⟨_, [], rfl, finds_ofConditional rfl, mem_nil_iff_of_leavesOut (by rintro m ⟨⟩)⟩
  · next noElse noStatement noConditional =>
    refine ⟨_, [], rfl, .inr ⟨?_, rfl⟩, mem_nil_iff_of_leavesOut ?_⟩
    · rintro text (⟨c, same⟩ | ⟨c, other⟩)
      · exact noStatement _ _ _ _ _ rfl
      · exact noConditional _ _ _ _ rfl
    · rintro m ⟨⟩
      exact noElse _ _ _ rfl

abbrev affixCheck : Check := Catalogue.Affixes.cutAffix

theorem looksAt_affixCheck : affixCheck.looksAt n = n.isTest := by
  obtain ⟨i, shape⟩ := n
  cases shape
  case leaf kind name => cases kind <;> rfl
  case reveal kind value => cases kind <;> rfl
  all_goals rfl

theorem seenBy_after (s : RunState) (fs : List Finding) (notes : Notes) :
    (affixCheck.after s fs notes).seenBy affixCheck = notes.seen := by
  simp [RunState.seenBy, Check.after, Catalogue.Affixes.cutAffix, Memory.get_set_self]

/-- What a step of the check does to what is found and remembered: nothing, or it finds what the node
has by itself and remembers what the node leaves out. -/
def Steps (n : Node) (s s' : RunState) : Prop :=
  s'.seenBy affixCheck = s.seenBy affixCheck ∧ s'.found = s.found ∧
      (n.isTest = false ∨ n.id ∈ s.seenBy affixCheck) ∨
    n.isTest ∧ n.id ∉ s.seenBy affixCheck ∧
      (∀ i, i ∈ s'.seenBy affixCheck ↔ i ∈ s.seenBy affixCheck ∨ ∃ m, LeavesOut n m ∧ m.id = i) ∧
      ∃ fs, Finds n fs ∧ s'.found = (fs.map affixCheck.report).reverse ++ s.found

theorem exists_stepAt {env : Env} (version : env.version.atLeast 3 9) (formed : n.WellFormed)
    (s : RunState) : ∃ s', affixCheck.stepAt env s n = .ok s' ∧ Steps n s s' := by
  rw [Check.stepAt_eq (by decide), looksAt_affixCheck]
  cases test : n.isTest with
  | false => exact ⟨s, rfl, .inl ⟨rfl, rfl, .inl test⟩⟩
  | true =>
    rw [if_pos rfl, Check.runOn_eq]
    by_cases known : n.id ∈ s.seenBy affixCheck
    · have judged : affixCheck.judge.run env (s.memory.get affixCheck.code) n = _ := cutAffix_of_mem known
      rw [judged]
      exact ⟨_, rfl, .inl ⟨seenBy_after _ _ _, rfl, .inr known⟩⟩
    · have fresh : n.id ∉ (s.memory.get affixCheck.code).seen := known
      obtain ⟨fs, ids, found, finds, covered⟩ := exists_cutAffix version formed fresh
      have judged : affixCheck.judge.run env (s.memory.get affixCheck.code) n = _ := found
      rw [judged]
      refine ⟨_, rfl, .inr ⟨test, known, fun i => ?_, fs, finds, rfl⟩⟩
      rw [seenBy_after, List.mem_append, covered, or_comm]
      rfl

/-- What a walk of the check over nodes does. Both what is remembered and what is found depend on what is
remembered in the end, since nothing about a node is added after the walk has come to it. -/
structure Walks (env : Env) (nodes : List Node) (s s' : RunState) : Prop where
  run : nodes.foldlM (affixCheck.stepAt env) s = .ok s'
  seen : ∀ i, i ∈ s'.seenBy affixCheck ↔ i ∈ s.seenBy affixCheck ∨
    ∃ a ∈ nodes, a.id ∉ s'.seenBy affixCheck ∧ ∃ m, LeavesOut a m ∧ m.id = i
  found : ∃ each, List.Forall₂ Finds (nodes.filter fun m => m.id ∉ s'.seenBy affixCheck) each ∧
    s'.found = (each.flatten.map affixCheck.report).reverse ++ s.found

namespace Walks

variable {env : Env} {nodes : List Node} {s s₁ s' : RunState}

theorem cons_of_idle (step : affixCheck.stepAt env s n = .ok s₁) (walks : Walks env nodes s₁ s')
    (same : s₁.seenBy affixCheck = s.seenBy affixCheck) (nothing : s₁.found = s.found)
    (idle : n.isTest = false ∨ n.id ∈ s.seenBy affixCheck) : Walks env (n :: nodes) s s' where
  run := by
    rw [List.foldlM_cons, step]
    exact walks.run
  seen i := by
    have silent : ¬(n.id ∉ s'.seenBy affixCheck ∧ ∃ m, LeavesOut n m ∧ m.id = i) := by
      rintro ⟨fresh, m, left, -⟩
      obtain other | known := idle
      · exact Bool.false_ne_true (other.symm.trans left.isTest.1)
      · exact fresh ((walks.seen _).2 (.inl (same ▸ known)))
    rw [walks.seen, same]
    simp only [List.mem_cons, exists_eq_or_imp, silent, false_or]
  found := by
    obtain ⟨each, finds, found⟩ := walks.found
    by_cases known : n.id ∈ s'.seenBy affixCheck
    · exact ⟨each, by simpa [known] using finds, by rw [found, nothing]⟩
    · have other : n.isTest = false :=
        idle.resolve_right fun h => known ((walks.seen _).2 (.inl (same ▸ h)))
      have none : Finds n [] :=
        .inr ⟨fun text cuts => Bool.false_ne_true (other.symm.trans cuts.isTest), rfl⟩
      refine ⟨[] :: each, ?_, by simp [found, nothing]⟩
      rw [List.filter_cons_of_pos (by simpa using known)]
      exact .cons none finds

theorem cons_of_asked (step : affixCheck.stepAt env s n = .ok s₁) (walks : Walks env nodes s₁ s')
    {fs : List Finding} (fresh : n.id ∉ s.seenBy affixCheck)
    (more : ∀ i, i ∈ s₁.seenBy affixCheck ↔
      i ∈ s.seenBy affixCheck ∨ ∃ m, LeavesOut n m ∧ m.id = i)
    (here : Finds n fs) (added : s₁.found = (fs.map affixCheck.report).reverse ++ s.found)
    (own : ∀ k, LeavesOut n k → k.id ≠ n.id) (apart : ∀ a ∈ nodes, ∀ k, LeavesOut a k → k.id ≠ n.id) :
    Walks env (n :: nodes) s s' := by
  -- neither this step nor a later one adds the identity of the node itself
  have kept : n.id ∉ s'.seenBy affixCheck := by
    rw [walks.seen, more]
    rintro ((known | ⟨m, left, same⟩) | ⟨a, ha, -, m, left, same⟩)
    · exact fresh known
    · exact own m left same
    · exact apart a ha m left same
  obtain ⟨each, finds, found⟩ := walks.found
  refine ⟨?_, fun i => ?_, fs :: each, ?_, ?_⟩
  · rw [List.foldlM_cons, step]
    exact walks.run
  · rw [walks.seen, more]
    simp only [List.mem_cons, exists_eq_or_imp, kept, not_false_iff, true_and, or_assoc]
  · rw [List.filter_cons_of_pos (by simpa using kept)]
    exact .cons here finds
  · simp [found, added]

end Walks

/-- A whole walk, if no node has the identity of what is left out by itself or by a later one. -/
theorem exists_walks {env : Env} (version : env.version.atLeast 3 9) {nodes : List Node}
    (formed : ∀ n ∈ nodes, n.WellFormed) (own : ∀ n ∈ nodes, ∀ k, LeavesOut n k → k.id ≠ n.id)
    (apart : nodes.Pairwise fun n a => n.isTest → ∀ k, LeavesOut a k → k.id ≠ n.id) (s : RunState) :
    ∃ s', Walks env nodes s s' := by
  induction nodes generalizing s with
  | nil => exact ⟨s, rfl, by simp, [], .nil, rfl⟩
  | cons n nodes ih =>
    rw [List.forall_mem_cons] at formed own
    obtain ⟨first, rest⟩ := List.pairwise_cons.1 apart
    obtain ⟨s₁, step, steps⟩ := exists_stepAt version formed.1 s
    obtain ⟨s', walks⟩ := ih formed.2 own.2 rest s₁
    refine ⟨s', ?_⟩
    obtain ⟨same, nothing, idle⟩ | ⟨test, fresh, more, fs, here, added⟩ := steps
    · exact walks.cons_of_idle step same nothing idle
    · exact walks.cons_of_asked step fresh more here added own.1 fun a ha => first a ha test

theorem LeavesOut.mem_tests_of_within {n : Node} (formed : n.WellFormed) (within : a.Within n)
    (left : LeavesOut a k) : k ∈ n.tests := by
  refine tests_subset_of_within formed within ?_
  rw [tests_eq]
  exact List.mem_append_right _ (left.mem_tests (formed.within within))

theorem LeavesOut.id_ne (formed : a.WellFormed) (distinct : (a.tests.map (·.id)).Nodup)
    (left : LeavesOut a k) : k.id ≠ a.id := by
  rw [tests_eq, if_pos left.isTest.1, List.singleton_append, List.map_cons, List.nodup_cons] at distinct
  intro same
  exact distinct.1 (same ▸ List.mem_map_of_mem (left.mem_tests formed))

/-- In a tree whose tests have identities of their own, no test has that of one which a later test
leaves out. -/
theorem pairwise_reached {n : Node} (formed : n.WellFormed) (distinct : (n.tests.map (·.id)).Nodup) :
    n.reached.Pairwise fun m a => m.isTest → ∀ k, LeavesOut a k → k.id ≠ m.id := by
  obtain ⟨each, apart⟩ := nodup_children formed.refusal_eq_none distinct
  have child {c : Node} (hc : c ∈ n.children .argumentsFirst) : c ∈ n.children .calleeFirst :=
    mem_calleeFirst_of_mem hc
  rw [reached_eq, List.pairwise_cons, List.pairwise_flatMap]
  -- the root against a later node, two nodes of one child, and nodes of two children
  refine ⟨fun a ha test k left same => ?_, fun c hc => ?_, ?_⟩
  · obtain ⟨c, hc, ha⟩ := List.mem_flatMap.1 ha
    rw [tests_eq, if_pos test, List.singleton_append, List.map_cons, List.nodup_cons] at distinct
    have below := left.mem_tests_of_within (formed.child (child hc)) (within_of_mem_reached ha)
    exact distinct.1 (same ▸ List.mem_map_of_mem
      (tests_subset_of_child formed.refusal_eq_none (child hc) below))
  · exact pairwise_reached (formed.child (child hc)) (each c (child hc))
  · refine apart.imp_of_mem fun hc hd disjoint m hm a ha test k left same => ?_
    have here := mem_tests_of_within (formed.child (child hc)) (within_of_mem_reached hm) test
    have there := left.mem_tests_of_within (formed.child (child hd)) (within_of_mem_reached ha)
    exact disjoint (List.mem_map_of_mem here) (same ▸ List.mem_map_of_mem there)
termination_by sizeOf n
decreasing_by exact sizeOf_lt_of_mem_children hc

section

variable {env : Env} {t : Node} {s : RunState}

/-- The check over a whole tree. -/
theorem exists_walks_reached (version : env.version.atLeast 3 9) (formed : t.WellFormed)
    (distinct : (t.tests.map (·.id)).Nodup) :
    ∃ s, runTree [affixCheck] env {} t = .ok s ∧ Walks env t.reached {} s := by
  have inside (n : Node) (hn : n ∈ t.reached) : n.WellFormed := formed.within (within_of_mem_reached hn)
  have own (n : Node) (hn : n ∈ t.reached) (k : Node) (left : LeavesOut n k) : k.id ≠ n.id :=
    left.id_ne (inside n hn) (nodup_of_within formed (within_of_mem_reached hn) distinct)
  obtain ⟨s, walks⟩ := exists_walks version inside own (pairwise_reached formed distinct) {}
  obtain ⟨nodes, walked⟩ := formed.succeeds_entries .checking
  exact ⟨s, by rw [runTree_singleton walked, walks.run], walks⟩

namespace Walks

variable (walks : Walks env t.reached {} s)
include walks

theorem mem_of_leavesOut (ha : a ∈ t.reached) (fresh : a.id ∉ s.seenBy affixCheck)
    (left : LeavesOut a m) : m.id ∈ s.seenBy affixCheck :=
  (walks.seen _).2 (.inr ⟨a, ha, fresh, m, left, rfl⟩)

/-- With identities of their own, tests are remembered for what they are. -/
theorem mem_iff (formed : t.WellFormed) (distinct : (t.tests.map (·.id)).Nodup) (hm : m ∈ t.reached)
    (test : m.isTest) :
    m.id ∈ s.seenBy affixCheck ↔ ∃ a ∈ t.reached, a.id ∉ s.seenBy affixCheck ∧ LeavesOut a m := by
  constructor
  · intro known
    obtain nothing | ⟨a, ha, fresh, k, left, same⟩ := (walks.seen _).1 known
    · cases nothing
    · have there := left.mem_tests_of_within formed (within_of_mem_reached ha)
      have here := mem_tests_of_within formed (within_of_mem_reached hm) test
      exact ⟨a, ha, fresh, List.inj_on_of_nodup_map distinct there here same ▸ left⟩
  · rintro ⟨a, ha, fresh, left⟩
    exact walks.mem_of_leavesOut ha fresh left

/-- The root of a tree is not skipped. -/
theorem root_not_mem (formed : t.WellFormed) (distinct : (t.tests.map (·.id)).Nodup)
    (test : t.isTest) : t.id ∉ s.seenBy affixCheck := by
  have apart := pairwise_reached formed distinct
  rw [reached_eq, List.pairwise_cons] at apart
  intro known
  have root : t ∈ t.reached := by
    rw [reached_eq]
    exact List.mem_cons_self
  obtain ⟨a, ha, -, left⟩ := (walks.mem_iff formed distinct root test).1 known
  rw [reached_eq, List.mem_cons] at ha
  obtain rfl | ha := ha
  · exact left.id_ne formed distinct rfl
  · exact apart.1 a ha test t left rfl

/-- Every `elif` is remembered: for the `if` it belongs to, or for what that one is remembered for. -/
theorem mem_of_elifOf (formed : t.WellFormed) (distinct : (t.tests.map (·.id)).Nodup)
    (ha : a ∈ t.reached) (elif : ElifOf a m) : m.id ∈ s.seenBy affixCheck := by
  by_cases known : a.id ∈ s.seenBy affixCheck
  -- the chain that the `if` belongs to goes on with its `elif`
  · have test : a.isTest := by
      obtain ⟨⟩ := elif
      rfl
    obtain ⟨b, hb, fresh, left⟩ := (walks.mem_iff formed distinct ha test).1 known
    obtain ⟨outside, chain⟩ := left
    have on : Chain a m := by
      obtain ⟨⟩ := elif
      exact .next .here
    exact walks.mem_of_leavesOut hb fresh (.intro outside (chain.trans on))
  · have left : LeavesOut a m := by
      obtain ⟨⟩ := elif
      exact .intro (.deeper (by simp) List.mem_cons_self .here) .here
    exact walks.mem_of_leavesOut ha known left

end Walks

end

/-- In every tree whose tests have identities of their own, the check skips the tests that one which it
does not skip leaves out, and no others. Every `elif` is among them. For all other tests it finds what
they have by themselves, in order, also if it is run beside other checks. -/
theorem else_parts_skipped {env : Env} (version : env.version.atLeast 3 9) {t : Node}
    (formed : t.WellFormed) (distinct : (t.tests.map (·.id)).Nodup) :
    ∃ s, runTree [affixCheck] env {} t = .ok s ∧
      (∀ m ∈ t.reached, m.isTest → (m.id ∈ s.seenBy affixCheck ↔
        ∃ a ∈ t.reached, a.id ∉ s.seenBy affixCheck ∧ LeavesOut a m)) ∧
      (∀ a ∈ t.reached, ∀ m, ElifOf a m → m.id ∈ s.seenBy affixCheck) ∧
      ∃ each, List.Forall₂ Finds (t.reached.filter fun m => m.id ∉ s.seenBy affixCheck) each ∧
        s.found.reverse = each.flatten.map affixCheck.report ∧
        ∀ checks found, checks.filter (fun c => c.code = affixCheck.code) = [affixCheck] →
          reports checks env t = .ok found →
          found.filter (fun r => r.code = affixCheck.code) = each.flatten.map affixCheck.report := by
  obtain ⟨s, run, walks⟩ := exists_walks_reached version formed distinct
  obtain ⟨each, finds, found⟩ := walks.found
  have shown : s.found.reverse = each.flatten.map affixCheck.report := by simp [found]
  refine ⟨s, run, fun m hm test => walks.mem_iff formed distinct hm test,
    fun a ha m elif => walks.mem_of_elifOf formed distinct ha elif, each, finds, shown, ?_⟩
  intro checks found only beside
  have alone : reports [affixCheck] env t = .ok (each.flatten.map affixCheck.report) := by
    rw [reports, run, ← shown]
    rfl
  refine filter_code_of_reports only alone (fun r hr => ?_) beside
  obtain ⟨f, -, rfl⟩ := List.mem_map.1 hr
  rfl

def startCut (id : NodeId) : Node :=
  ⟨⟨id, default⟩, .ifElse
    [(⟨default, .call ⟨default, .member fileName ⟨"startswith", "", none, false⟩⟩
        [⟨⟨default, .str "x"⟩, .pos, none⟩] none⟩,
      ⟨default, .block [⟨default, .assignment [fileName] ⟨default, .index fileName
        ⟨default, .slice (some ⟨default, .int 1⟩) none none⟩ none none⟩⟩]⟩)] none⟩

def withElse (body : List Node) : Node :=
  ⟨⟨0, default⟩, .ifElse [(fileName, ⟨default, .block [⟨default, .passStmt⟩]⟩)]
    (some ⟨default, .block body⟩)⟩

theorem wellFormed_of_allDownTo (k : Nat) (h : Evaluation.allDownTo hasParts k n) : n.WellFormed :=
  fun _ within => Evaluation.of_allDownTo h within

theorem cuts_startCut (id : NodeId) :
    Cuts (startCut id) ("name = name.removeprefix(\"x\")") :=
  .statement ⟨fileName, "startswith", ⟨default, .str "x"⟩, fileName, some ⟨default, .int 1⟩, none, rfl,
    ⟨_, _, _, _, rfl⟩, by decide, by decide⟩ (by decide)

theorem tests_fileName : fileName.tests = [] := by
  simp [tests_eq, held, shape, isTest, fileName]

theorem tests_startCut (id : NodeId) : (startCut id).tests = [startCut id] := by
  simp [tests_eq, held, shape, startCut, isTest, fileName]

theorem tests_withElse (body : List Node) :
    (withElse body).tests = withElse body :: body.flatMap tests := by
  simp [tests_eq, held, shape, withElse, isTest, fileName]

theorem not_leavesOut_startCut {id : NodeId} : ¬LeavesOut (startCut id) m := by
  rintro ⟨⟩

/-- After an `if` with an `elif`, which is skipped, the same test once more. -/
theorem else_parts_skipped_elif :
    let env : Env := ⟨.empty, ⟨3, 10⟩, []⟩
    let t : Node := ⟨default, .block [withElse [startCut 1], startCut 2]⟩
    t.WellFormed ∧ (t.tests.map (·.id)).Nodup ∧
      ∃ s, runTree [affixCheck] env {} t = .ok s ∧ 1 ∈ s.seenBy affixCheck ∧
        ∃ text, Cuts (startCut 2) text ∧
          affixCheck.report (replace (startCut 2) (startCut 2).sourceText text) ∈ s.found.reverse := by
  intro env t
  have formed : t.WellFormed := wellFormed_of_allDownTo 9 (by decide)
  have tests : t.tests = [withElse [startCut 1], startCut 1, startCut 2] := by
    rw [tests_eq]
    change [] ++ [withElse [startCut 1], startCut 2].flatMap Node.tests = _
    simp [tests_withElse, tests_startCut]
  have distinct : (t.tests.map (·.id)).Nodup := by
    rw [tests]
    decide
  have children : t.children .argumentsFirst = [withElse [startCut 1], startCut 2] := rfl
  have first : withElse [startCut 1] ∈ t.reached := by
    rw [reached_eq, children, List.flatMap_cons, reached_eq (withElse _)]
    simp
  have second : startCut 2 ∈ t.reached := by
    rw [reached_eq, children, List.flatMap_cons, List.flatMap_cons, reached_eq (startCut 2)]
    simp
  obtain ⟨s, run, skipped, elifs, each, finds, shown, -⟩ :=
    @else_parts_skipped env rfl t formed distinct
  have fresh : (startCut 2).id ∉ s.seenBy affixCheck := by
    rw [skipped _ second rfl]
    rintro ⟨a, ha, -, left⟩
    have test := mem_tests_of_within formed (within_of_mem_reached ha) left.isTest.1
    rw [tests] at test
    simp only [List.mem_cons, List.not_mem_nil, or_false] at test
    obtain rfl | rfl | rfl := test
    · have inside := left.mem_tests (formed.within (within_of_mem_reached ha))
      have held : (withElse [startCut 1]).held.flatMap Node.tests = [startCut 1] := by
        have all := tests_withElse [startCut 1]
        rw [tests_eq] at all
        simpa [withElse, isTest, tests_startCut] using all
      rw [held, List.mem_singleton] at inside
      exact absurd (congrArg Node.id inside) (by decide)
    · exact not_leavesOut_startCut left
    · exact not_leavesOut_startCut left
  obtain ⟨text, cuts, found⟩ := exists_mem_flatten finds
    (List.mem_filter.2 ⟨second, by simpa using fresh⟩) (cuts_startCut 2)
  refine ⟨formed, distinct, s, run, elifs _ first (startCut 1) .intro, text, cuts, ?_⟩
  rw [shown]
  exact List.mem_map_of_mem found

theorem reports_withElse {env : Env} (version : env.version.atLeast 3 9) {body : List Node}
    (formed : (withElse body).WellFormed) (only : body.flatMap tests = [startCut 1])
    (outside : Outside ⟨default, .block body⟩ (startCut 1)) :
    reports [affixCheck] env (withElse body) = .ok [] := by
  have tests : (withElse body).tests = [withElse body, startCut 1] := by rw [tests_withElse, only]
  have distinct : ((withElse body).tests.map (·.id)).Nodup := by
    rw [tests]
    exact (by decide : ([0, 1] : List NodeId).Nodup)
  obtain ⟨s, run, walks⟩ := exists_walks_reached version formed distinct
  have root : withElse body ∈ (withElse body).reached := by
    rw [reached_eq]
    exact List.mem_cons_self
  have known : (startCut 1).id ∈ s.seenBy affixCheck :=
    walks.mem_of_leavesOut root (walks.root_not_mem formed distinct rfl) (.intro outside .here)
  obtain ⟨each, finds, found⟩ := walks.found
  have nothing : each.flatten = [] := by
    refine flatten_eq_nil finds fun m hm text cuts => ?_
    obtain ⟨hm, fresh⟩ := List.mem_filter.1 hm
    have test := mem_tests_of_within formed (within_of_mem_reached hm) cuts.isTest
    rw [tests] at test
    simp only [List.mem_cons, List.not_mem_nil, or_false] at test
    obtain rfl | rfl := test
    · cases cuts
    · simp [known] at fresh
  rw [reports, run]
  simp [Except.map, found, nothing]

theorem not_elifOf_of_ne {body : List Node} (only : body.flatMap tests = [startCut 1])
    (several : body ≠ [startCut 1]) : ∀ a ∈ (withElse body).tests, ¬ElifOf a (startCut 1) := by
  intro a ha
  rw [tests_withElse, only] at ha
  simp only [List.mem_cons, List.not_mem_nil, or_false] at ha
  obtain rfl | rfl := ha
  · intro elif
    generalize inner : startCut 1 = m at elif
    cases elif
    exact several (by rw [inner])
  · rintro ⟨⟩

/-- A test in the `else` block of an `if` is not reported where it stands after another statement, before
one, in a loop or in a `with` block, although it is no `elif` there. -/
theorem statement_in_else_skipped :
    let env : Env := ⟨.empty, ⟨3, 10⟩, []⟩
    let other : Node := ⟨default, .expression fileName⟩
    let inner : Node := ⟨default, .block [startCut 1]⟩
    (∃ text, Cuts (startCut 1) text) ∧
      ∀ body ∈ [[other, startCut 1], [startCut 1, other],
          [⟨default, .forLoop fileName fileName inner none false⟩],
          [⟨default, .withBlock [⟨fileName, none⟩] inner false⟩]],
        reports [affixCheck] env (withElse body) = .ok [] ∧ startCut 1 ∈ (withElse body).tests ∧
          ∀ a ∈ (withElse body).tests, ¬ElifOf a (startCut 1) := by
  intro env other inner
  have skipped {body : List Node} (formed : (withElse body).WellFormed)
      (only : body.flatMap tests = [startCut 1]) (outside : Outside ⟨default, .block body⟩ (startCut 1))
      (several : body ≠ [startCut 1]) : reports [affixCheck] env (withElse body) = .ok [] ∧
        startCut 1 ∈ (withElse body).tests ∧ ∀ a ∈ (withElse body).tests, ¬ElifOf a (startCut 1) :=
    ⟨reports_withElse rfl formed only outside, by simp [tests_withElse, only],
      not_elifOf_of_ne only several⟩
  have plain : other.tests = [] := by simp [tests_eq, held, shape, isTest, other, fileName]
  have within : inner.tests = [startCut 1] := by
    rw [tests_eq]
    change [] ++ [startCut 1].flatMap tests = _
    simp [tests_startCut]
  have below : Outside inner (startCut 1) := .deeper (by simp [inner]) List.mem_cons_self .here
  refine ⟨⟨_, cuts_startCut 1⟩, ?_⟩
  simp only [List.forall_mem_cons]
  refine ⟨?_, ?_, ?_, ?_, List.forall_mem_nil _⟩
  · exact skipped (wellFormed_of_allDownTo 9 (by decide)) (by simp [plain, tests_startCut])
      (.deeper (by simp) (by simp [children]) .here) (by simp)
  · exact skipped (wellFormed_of_allDownTo 9 (by decide)) (by simp [plain, tests_startCut])
      (.deeper (by simp) (by simp [children]) .here) (by simp)
  · refine skipped (wellFormed_of_allDownTo 11 (by decide)) ?_
      (.deeper (by simp) List.mem_cons_self (.deeper (by simp) (by simp [children]) below))
      (by simp [startCut])
    simp [tests_eq ⟨_, .forLoop _ _ _ _ _⟩, held, shape, isTest, within, tests_fileName]
  · refine skipped (wellFormed_of_allDownTo 11 (by decide)) ?_
      (.deeper (by simp) List.mem_cons_self (.deeper (by simp) (by simp [children]) below))
      (by simp [startCut])
    simp [tests_eq ⟨_, .withBlock _ _ _⟩, held, shape, isTest, within, tests_fileName]

end Rules.Affixes

end IdiomLint
