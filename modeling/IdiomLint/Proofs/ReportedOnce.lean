import IdiomLint.Proofs.NodeMemory
import Mathlib.Data.List.Perm.Basic

/-! Reports that are made once. A merge is looked at together with the merges among its operands,
and a comprehension together with its generator, so the walk comes twice to what a check has dealt
with. Main statement: each copy, comprehension and generator is reported at one of the two, and
nothing is reported that is no such node. -/
namespace IdiomLint

open Finding

/-- A check reports each node of a kind once and nothing else, alone as well as beside checks of
other codes. -/
def Check.ReportsOnce (c : Check) (env : Env) (t : Node) (Site : Node → Prop)
    (finding : Node → Finding) : Prop :=
  ∃ sites : List Node, (sites.map (·.id)).Nodup ∧ (∀ n, n ∈ sites ↔ Site n)
    ∧ reports [c] env t = .ok (sites.map fun n => c.report (finding n))
    ∧ ∀ checks found, checks.filter (fun c' => c'.code = c.code) = [c] →
      reports checks env t = .ok found →
        found.filter (fun r => r.code = c.code) = sites.map fun n => c.report (finding n)

theorem Bookkeeping.Describes.reportsOnce {b : Bookkeeping} {c : Check} {env : Env} {t : Node}
    {nodes : List Node} {Site : Node → Prop} (h : b.Describes c env)
    (walked : t.entries .checking = .ok nodes) (distinct : t.ids.Nodup)
    (once : ((b.dueAt (t.marked b.reach false)).map (·.id)).Nodup)
    (sites : ∀ n, n ∈ b.dueAt (t.marked b.reach false) ↔ Site n) :
    c.ReportsOnce env t Site b.finding := by
  have alone := h.reports_eq walked distinct
  refine ⟨b.dueAt (t.marked b.reach false), once, sites, alone, fun checks found only run => ?_⟩
  refine filter_code_of_reports only alone (fun r hr => ?_) run
  obtain ⟨n, -, rfl⟩ := List.mem_map.1 hr
  rfl

namespace Node

def operands : Node → List Node
  | ⟨_, .binary .bitOr left right _ _⟩ => [left, right]
  | _ => []

def isCopy (env : Env) : Node → Bool
  | ⟨_, .call ⟨_, .member base ref⟩ [] _⟩ =>
    ref.name == "copy" && env.hasType base [.builtin "dict", .builtin "set", .named "os._Environ"]
  | _ => false

def receiver : Node → Node
  | ⟨_, .call ⟨_, .member base _⟩ _ _⟩ => base
  | n => n

end Node

namespace Merges

/-- The copies among the operands of a merge and of the merges among its operands; those of
another node are the node itself, if it is one. -/
def copies (env : Env) : Node → List Node
  | ⟨_, .binary .bitOr left right _ _⟩ => copies env left ++ copies env right
  | n => if n.isCopy env then [n] else []

def chain : Node → List NodeId
  | ⟨i, .binary .bitOr left right _ _⟩ => i.id :: (chain left ++ chain right)
  | _ => []

def finding (n : Node) : Finding :=
  replace n (n.receiver.sourceText ++ ".copy()") n.receiver.sourceText

def bookkeeping (env : Env) : Bookkeeping where
  reach n := n.operands.length
  due n handed := if handed then [] else n.operands.flatMap (copies env)
  kept := chain
  added n handed := if handed then [] else chain n
  finding := finding

section

variable {env : Env} {i : Info} {left right : Node} {m : Option Ty} {analyzed : Option Node}

theorem ids_merge : (⟨i, .binary .bitOr left right m analyzed⟩ : Node).ids =
    i.id :: (left.ids ++ (right.ids ++ analyzed.toList.flatMap Node.ids)) := by
  rw [Node.ids_eq]
  rfl

end

theorem chain_subset_ids (n : Node) : chain n ⊆ n.ids := by
  fun_induction chain n with
  | case1 i left right m analyzed ihl ihr =>
    rw [ids_merge]
    intro j hj
    simp only [List.mem_cons, List.mem_append] at hj ⊢
    exact hj.imp_right fun hj => hj.imp (@ihl j) fun hj => .inl (ihr hj)
  | case2 => exact List.nil_subset _

/-- Either a node is a merge, or nothing is handed on, kept or due at it. -/
theorem merge_or_idle (n : Node) :
    (∃ i left right m analyzed, n = ⟨i, .binary .bitOr left right m analyzed⟩)
      ∨ n.operands = [] ∧ chain n = []
        ∧ ∀ env, copies env n = if n.isCopy env then [n] else [] := by
  by_cases merge : ∃ i left right m analyzed, n = ⟨i, .binary .bitOr left right m analyzed⟩
  · exact .inl merge
  · right
    refine ⟨?_, ?_, fun env => ?_⟩
    · unfold Node.operands
      split
      · exact absurd ⟨_, _, _, _, _, rfl⟩ merge
      · rfl
    · unfold chain
      split
      · exact absurd ⟨_, _, _, _, _, rfl⟩ merge
      · rfl
    · unfold copies
      split
      · exact absurd ⟨_, _, _, _, _, rfl⟩ merge
      · rfl

/-- All at once for a merge that is not remembered and none of whose parts are. -/
theorem mergedCopies_spec (env : Env) {seen : List NodeId} {n : Node} (distinct : n.ids.Nodup)
    (new : ∀ i ∈ n.ids, i ∉ seen) :
    (Rules.Containers.mergedCopies env seen n).1 = (copies env n).map finding
      ∧ ∀ i, i ∈ (Rules.Containers.mergedCopies env seen n).2 ↔ i ∈ seen ∨ i ∈ chain n := by
  fun_induction Rules.Containers.mergedCopies env seen n with
  | case1 seen i j base ref analyzed taken x =>
    have isCopy : (⟨i, .call ⟨j, .member base ref⟩ [] analyzed⟩ : Node).isCopy env := by
      simp only [Bool.and_eq_true] at taken
      simp [Node.isCopy, taken]
    refine ⟨?_, by simp [chain]⟩
    simp [copies, isCopy, finding, Node.receiver, x]
  | case2 seen i j base ref analyzed refused =>
    have unseen : seen.contains i.id = false := by
      simpa using new i.id (Node.id_mem_ids rfl)
    have isCopy : (⟨i, .call ⟨j, .member base ref⟩ [] analyzed⟩ : Node).isCopy env = false := by
      rw [unseen] at refused
      simpa [Node.isCopy] using refused
    simp [copies, isCopy, chain]
  | case3 seen i left right m analyzed known =>
    exact absurd (by simpa using known) (new i.id (Node.id_mem_ids rfl))
  | case4 seen i left right m analyzed unknown l r ihl ihr =>
    rw [ids_merge, List.nodup_cons, List.nodup_append, List.nodup_append] at distinct
    obtain ⟨-, distinctLeft, ⟨distinctRight, -, -⟩, apart⟩ := distinct
    simp only [ids_merge, List.mem_cons, List.mem_append] at new
    obtain ⟨foundLeft, seenLeft⟩ : l.1 = _ ∧ ∀ j, j ∈ l.2 ↔ _ :=
      ihl distinctLeft fun j hj => new j (.inr (.inl hj))
    have newRight (j : NodeId) (hj : j ∈ right.ids) : j ∉ l.2 := by
      rw [seenLeft, not_or]
      exact ⟨new j (.inr (.inr (.inl hj))), fun hj' =>
        apart j (chain_subset_ids left hj') j (List.mem_append_left _ hj) rfl⟩
    obtain ⟨foundRight, seenRight⟩ : r.1 = _ ∧ ∀ j, j ∈ r.2 ↔ _ := ihr distinctRight newRight
    refine ⟨by simp [copies, foundLeft, foundRight], fun j => ?_⟩
    simp only [chain, List.mem_cons, List.mem_append, seenRight, seenLeft]
    rw [or_assoc, or_left_comm]
  | case5 n seen noCall noMerge =>
    have noCopy : n.isCopy env = false := by
      unfold Node.isCopy
      split
      · exact (noCall _ _ _ _ _ rfl).elim
      · rfl
    rcases merge_or_idle n with ⟨i, left, right, m, analyzed, rfl⟩ | ⟨-, noChain, itself⟩
    · exact (noMerge _ _ _ _ _ rfl).elim
    · simp [itself, noCopy, noChain]

theorem exists_of_looksAt {n : Node} (h : Catalogue.Containers.copyBeforeMerge.looksAt n) :
    ∃ i op left right m analyzed, n = ⟨i, .binary op left right m analyzed⟩ := by
  obtain ⟨i, shape⟩ := n
  cases shape
  case binary => exact ⟨_, _, _, _, _, _, rfl⟩
  case leaf kind name => cases kind <;> cases h
  all_goals cases h

theorem mergedCopies_of_ne {env : Env} {seen : List NodeId} {i : Info} {op : BinaryOp}
    {left right : Node} {m : Option Ty} {analyzed : Option Node} (h : op ≠ .bitOr) :
    Rules.Containers.mergedCopies env seen ⟨i, .binary op left right m analyzed⟩ = ([], seen) := by
  rw [Rules.Containers.mergedCopies]
  · simp
  · rintro _ _ _ _ _ same
    cases same
    exact h rfl

theorem describes (env : Env) :
    (bookkeeping env).Describes Catalogue.Containers.copyBeforeMerge env where
  plain := by decide
  noting := ⟨_, rfl⟩
  judged {n handed notes} looks distinct ready := by
    suffices judged : (Rules.Containers.mergedCopies env notes.seen n).1
          = ((bookkeeping env).due n handed).map finding
        ∧ ∀ i, i ∈ (Rules.Containers.mergedCopies env notes.seen n).2
          ↔ i ∈ notes.seen ∨ i ∈ (bookkeeping env).added n handed by
      refine ⟨_, ?_, judged.2⟩
      change Rules.Containers.copyBeforeMerge env notes n = _
      simp only [Rules.Containers.copyBeforeMerge, judged.1]
      rfl
    rcases merge_or_idle n with ⟨i, left, right, m, analyzed, rfl⟩ | ⟨noOperands, noChain, -⟩
    · cases handed with
      | true =>
        have known : i.id ∈ notes.seen :=
          (ready i.id (Node.id_mem_ids rfl)).2 ⟨rfl, by simp [bookkeeping, chain]⟩
        simp [Rules.Containers.mergedCopies, known, bookkeeping]
      | false =>
        have new (j : NodeId) (hj : j ∈ (Node.mk i (.binary .bitOr left right m analyzed)).ids) :
            j ∉ notes.seen := by simp [ready j hj]
        simpa [bookkeeping, copies, Node.operands] using mergedCopies_spec env distinct new
    · obtain ⟨i, op, left, right, m, analyzed, rfl⟩ := exists_of_looksAt looks
      have other : op ≠ .bitOr := by
        rintro rfl
        cases noOperands
      simp [mergedCopies_of_ne other, bookkeeping, noOperands, noChain]
  passed {n} handed looks := by
    rcases merge_or_idle n with ⟨i, left, right, m, analyzed, rfl⟩ | ⟨noOperands, noChain, -⟩
    · cases looks
    · simp [bookkeeping, noOperands, noChain]
  added_subset n handed := by
    cases handed
    · exact chain_subset_ids n
    · exact List.nil_subset _
  handed_on {n} handed distinct p hp i hi := by
    have kept : handed = true ∧ i ∈ chain n ∨ i ∈ (if handed then [] else chain n) ↔
        i ∈ chain n := by
      cases handed <;> simp
    refine kept.trans ?_
    rcases merge_or_idle n with ⟨info, left, right, m, analyzed, rfl⟩ | ⟨noOperands, noChain, -⟩
    · have notRoot : i ≠ info.id := Node.ne_id_of_mem distinct rfl (Node.fst_mem_of_mem_parts hp) hi
      rw [ids_merge, List.nodup_cons, List.nodup_append, List.nodup_append] at distinct
      obtain ⟨-, -, ⟨-, -, apartRight⟩, apartLeft⟩ := distinct
      have hp : p ∈ (left, true) :: (right, true) :: analyzed.toList.map (·, false) := hp
      simp only [List.mem_cons, List.mem_map] at hp
      simp only [List.mem_append, List.mem_flatMap] at apartLeft apartRight
      simp only [chain, List.mem_cons, List.mem_append, notRoot, false_or]
      rcases hp with rfl | rfl | ⟨a, ha, rfl⟩
      · have notRight : i ∉ chain right := fun h =>
          apartLeft i hi i (.inl (chain_subset_ids right h)) rfl
        simp [bookkeeping, notRight]
      · have notLeft : i ∉ chain left := fun h =>
          apartLeft i (chain_subset_ids left h) i (.inl hi) rfl
        simp [bookkeeping, notLeft]
      · have notLeft : i ∉ chain left := fun h =>
          apartLeft i (chain_subset_ids left h) i (.inr ⟨a, ha, hi⟩) rfl
        have notRight : i ∉ chain right := fun h =>
          apartRight i (chain_subset_ids right h) i ⟨a, ha, hi⟩ rfl
        simp [notLeft, notRight]
    · have zero : (bookkeeping env).reach n = 0 := by simp [bookkeeping, noOperands]
      rw [Node.parts_of_reach_eq_zero zero] at hp
      obtain ⟨c, -, rfl⟩ := List.mem_map.1 hp
      simp [noChain]

/-- The copies that are operands of merges, in the order of the walk. -/
def handedCopies (env : Env) (ps : List (Node × Bool)) : List Node :=
  (ps.filter fun p => p.2 && p.1.isCopy env).map (·.1)

/-- At one node: a merge that is not handed on reports what the merges among its operands would. -/
theorem due_append_copies (env : Env) (n : Node) (handed : Bool) :
    (bookkeeping env).due n handed ++ (if handed then copies env n else []) =
      handedCopies env [(n, handed)] ++ (n.parts (bookkeeping env).reach).flatMap
        fun p => if p.2 then copies env p.1 else [] := by
  rcases merge_or_idle n with ⟨i, left, right, m, analyzed, rfl⟩ | ⟨noOperands, -, itself⟩
  · have parts : (Node.mk i (.binary .bitOr left right m analyzed)).parts (bookkeeping env).reach =
        (left, true) :: (right, true) :: analyzed.toList.map (·, false) := rfl
    have merged : copies env ⟨i, .binary .bitOr left right m analyzed⟩ =
        copies env left ++ copies env right := rfl
    have noCopy : (Node.mk i (.binary .bitOr left right m analyzed)).isCopy env = false := rfl
    rw [parts, merged]
    cases handed <;>
      simp [bookkeeping, Node.operands, handedCopies, noCopy, List.flatMap_map]
  · have zero : (bookkeeping env).reach n = 0 := by simp [bookkeeping, noOperands]
    rw [Node.parts_of_reach_eq_zero zero]
    cases handed <;> cases copy : n.isCopy env <;>
      simp [bookkeeping, noOperands, itself, handedCopies, List.flatMap_map, copy]

/-- Over a tree: only the order differs, for the copies below a merge are reported with it. -/
theorem dueAt_perm (env : Env) (n : Node) (handed : Bool) :
    ((bookkeeping env).dueAt (n.marked (bookkeeping env).reach handed)
      ++ if handed then copies env n else []).Perm
        (handedCopies env (n.marked (bookkeeping env).reach handed)) := by
  let b := bookkeeping env
  have below (p : Node × Bool) (hp : p ∈ n.parts b.reach) :
      (b.dueAt (p.1.marked b.reach p.2) ++ if p.2 then copies env p.1 else []).Perm
        (handedCopies env (p.1.marked b.reach p.2)) := dueAt_perm env p.1 p.2
  have due : b.dueAt (n.marked b.reach handed) = b.due n handed
      ++ (n.parts b.reach).flatMap fun p => b.dueAt (p.1.marked b.reach p.2) := by
    rw [Node.marked_eq, Bookkeeping.dueAt, List.flatMap_cons, List.flatMap_assoc]
    rfl
  have handedOn : handedCopies env (n.marked b.reach handed) = handedCopies env [(n, handed)]
      ++ (n.parts b.reach).flatMap fun p => handedCopies env (p.1.marked b.reach p.2) := by
    rw [Node.marked_eq, handedCopies, ← List.singleton_append, List.filter_append, List.map_append,
      List.filter_flatMap, List.map_flatMap]
    rfl
  rw [due, handedOn, List.append_assoc]
  refine (List.perm_append_comm.append_left _).trans ?_
  rw [← List.append_assoc, due_append_copies, List.append_assoc]
  refine List.Perm.append_left _ (List.perm_append_comm.trans ?_)
  exact (List.flatMap_append_perm _ _ _).trans (List.Perm.flatMap_left _ below)
termination_by sizeOf n
decreasing_by exact Node.sizeOf_lt_of_mem_children (Node.fst_mem_of_mem_parts hp)

theorem mem_handedCopies_iff {env : Env} {t m : Node} :
    m ∈ handedCopies env (t.marked (bookkeeping env).reach false) ↔
      m.isCopy env ∧ ∃ n ∈ t.reached, m ∈ n.operands := by
  have operands (n : Node) :
      (n.children .argumentsFirst).take ((bookkeeping env).reach n) = n.operands := by
    rcases merge_or_idle n with ⟨i, left, right, m, analyzed, rfl⟩ | ⟨noOperands, -, -⟩
    · rfl
    · simp [bookkeeping, noOperands]
  have handed : (m, true) ∈ t.marked (bookkeeping env).reach false ↔
      ∃ n ∈ t.reached, m ∈ n.operands := by
    simp [Node.mem_marked_iff, Node.handed_mem_parts_iff, operands]
  rw [← handed]
  simp [handedCopies, and_comm]

theorem reportsOnce {env : Env} {t : Node} {nodes : List Node}
    (walked : t.entries .checking = .ok nodes) (distinct : t.ids.Nodup) :
    Catalogue.Containers.copyBeforeMerge.ReportsOnce env t
      (fun n => n.isCopy env ∧ ∃ m ∈ t.reached, n ∈ m.operands) finding := by
  have same := dueAt_perm env t false
  rw [if_neg Bool.false_ne_true, List.append_nil] at same
  refine (describes env).reportsOnce walked distinct ?_ fun n => ?_
  · refine (same.map _).nodup_iff.2 (Node.nodup_ids_of_sublist distinct ?_ fun m hm => ?_)
    · rw [← Node.map_fst_marked (bookkeeping env).reach t false]
      exact List.filter_sublist.map _
    · have copy := (mem_handedCopies_iff.1 hm).1
      unfold Node.isCopy at copy
      split at copy
      · rfl
      · cases copy
  · rw [same.mem_iff]
    exact mem_handedCopies_iff

end Merges

namespace Node

def isGenerator : Node → Bool
  | ⟨_, .generator _ _⟩ => true
  | _ => false

def comprehended? : Node → Option Node
  | ⟨_, .listComp g⟩ => some g
  | ⟨_, .setComp g⟩ => some g
  | _ => none

theorem comprehended?_eq_none {n : Node} (h : n.isGenerator) : n.comprehended? = none := by
  unfold isGenerator at h
  split at h
  · rfl
  · cases h

theorem isVariable_of_isGenerator {n : Node} (h : n.isGenerator) : n.isVariable = false := by
  unfold isGenerator at h
  split at h
  · rfl
  · cases h

theorem isVariable_of_comprehended? {n g : Node} (h : n.comprehended? = some g) :
    n.isVariable = false := by
  unfold comprehended? at h
  split at h
  · rfl
  · rfl
  · cases h

theorem children_of_comprehended? {n g : Node} (h : n.comprehended? = some g) (order : Order) :
    n.children order = [g] := by
  unfold comprehended? at h
  split at h
  · cases h
    rfl
  · cases h
    rfl
  · cases h

end Node

/-- A check for generators of some kind, which reports the comprehension if the generator belongs
to one. It may report other nodes too, and may remember the generators that stand alone. -/
structure GeneratorCheck where
  pattern : Node → Bool
  generators : ∀ n, pattern n → n.isGenerator
  other : Node → Bool
  others : ∀ n, other n → n.isVariable = false ∧ n.isGenerator = false
  keepsAlone : Bool
  finding : Node → Finding

namespace GeneratorCheck

variable (k : GeneratorCheck)

def kept (n : Node) : List NodeId := if k.pattern n then [n.id] else []

def isDue (n : Node) (handed : Bool) : Bool :=
  n.comprehended?.any k.pattern || k.other n || k.pattern n && !handed

def bookkeeping : Bookkeeping where
  reach n := n.comprehended?.toList.length
  due n handed := if k.isDue n handed then [n] else []
  kept := k.kept
  added n _ := n.comprehended?.toList.flatMap k.kept ++ if k.keepsAlone then k.kept n else []
  finding := k.finding

variable {k} {n m t : Node} {i : NodeId}

theorem pattern_of_comprehended? {g : Node} (h : n.comprehended? = some g) :
    k.pattern n = false := by
  by_contra matched
  rw [Node.comprehended?_eq_none (k.generators n (by simpa using matched))] at h
  cases h

theorem mem_kept_iff : i ∈ k.kept n ↔ k.pattern n ∧ i = n.id := by
  unfold kept
  split <;> simp_all

theorem isVariable_of_isDue {handed : Bool} (h : k.isDue n handed) : n.isVariable = false := by
  simp only [isDue, Bool.or_eq_true, Bool.and_eq_true, Option.any_eq_true] at h
  rcases h with (⟨g, hg, -⟩ | other) | ⟨matched, -⟩
  · exact Node.isVariable_of_comprehended? hg
  · exact (k.others n other).1
  · exact Node.isVariable_of_isGenerator (k.generators n matched)

theorem isDue_of_comprehended? {g : Node} (h : n.comprehended? = some g)
    (noOther : k.other n = false) : k.isDue n false = k.pattern g := by
  simp [isDue, h, noOther, pattern_of_comprehended? h]

theorem added_of_comprehended? {g : Node} (h : n.comprehended? = some g) (handed : Bool) :
    k.bookkeeping.added n handed = k.kept g := by
  simp [bookkeeping, h, kept, pattern_of_comprehended? h]

theorem kept_subset_ids (n : Node) : k.kept n ⊆ n.ids := by
  intro i hi
  obtain ⟨matched, rfl⟩ := mem_kept_iff.1 hi
  exact Node.id_mem_ids (Node.isVariable_of_isGenerator (k.generators n matched))

theorem added_subset (n : Node) (handed : Bool) : k.bookkeeping.added n handed ⊆ n.ids := by
  intro i hi
  rcases List.mem_append.1 hi with below | alone
  · obtain ⟨g, hg, hi⟩ := List.mem_flatMap.1 below
    have part : g ∈ n.children .argumentsFirst := by
      rw [Node.children_of_comprehended? (Option.mem_toList.1 hg)]
      exact List.mem_singleton_self g
    exact Node.ids_subset_of_mem part (kept_subset_ids g hi)
  · cases keeps : k.keepsAlone with
    | false => simp [keeps] at alone
    | true => exact kept_subset_ids n (by simpa [keeps] using alone)

/-- Only the generator of a comprehension is handed on. -/
theorem handed_on (handed : Bool) (distinct : n.ids.Nodup) {p : Node × Bool}
    (hp : p ∈ n.parts k.bookkeeping.reach) (hi : i ∈ p.1.ids) :
    handed = true ∧ i ∈ k.kept n ∨ i ∈ k.bookkeeping.added n handed ↔
      p.2 = true ∧ i ∈ k.kept p.1 := by
  cases known : n.comprehended? with
  | some g =>
    have parts : n.parts k.bookkeeping.reach = [(g, true)] := by
      simp [Node.parts, bookkeeping, known, Node.children_of_comprehended? known]
    rw [parts, List.mem_singleton] at hp
    subst hp
    simp [added_of_comprehended? known, kept, pattern_of_comprehended? known]
  | none =>
    have zero : k.bookkeeping.reach n = 0 := by simp [bookkeeping, known]
    have notKept : i ∉ k.kept n := by
      intro hi'
      obtain ⟨matched, same⟩ := mem_kept_iff.1 hi'
      exact Node.ne_id_of_mem distinct (Node.isVariable_of_isGenerator (k.generators n matched))
        (Node.fst_mem_of_mem_parts hp) hi same
    rw [Node.parts_of_reach_eq_zero zero] at hp
    obtain ⟨c, -, rfl⟩ := List.mem_map.1 hp
    cases keeps : k.keepsAlone <;> simp [bookkeeping, known, notKept, keeps]

/-- A node that is remembered when the walk comes to it is a generator that was handed on. -/
theorem seen_iff {seen : List NodeId} {handed : Bool} (ready : k.bookkeeping.Ready n handed seen)
    (real : n.isVariable = false) : n.id ∈ seen ↔ handed = true ∧ k.pattern n := by
  rw [ready n.id (Node.id_mem_ids real)]
  exact and_congr_right fun _ => mem_kept_iff.trans (and_iff_left rfl)

theorem isDue_of_pattern (handed : Bool) (matched : k.pattern n) : k.isDue n handed = !handed := by
  have generator := k.generators n matched
  have noOther : k.other n = false := by
    by_contra other
    rw [(k.others n (by simpa using other)).2] at generator
    cases generator
  simp [isDue, Node.comprehended?_eq_none generator, noOther, matched]

/-- A check is described if it leaves remembered nodes alone and otherwise deals with a node as if
it were not handed on. -/
theorem describes {c : Check} {env : Env}
    {judge : Env → Notes → Node → Except Fault (List Finding × Notes)}
    (plain : .functionItem ∉ c.classes) (noVariables : .variable ∉ c.classes)
    (noting : c.judge = .noting judge)
    (passed : ∀ n, c.looksAt n = false →
      n.isGenerator = false ∧ n.comprehended? = none ∧ k.other n = false)
    (seen : ∀ notes n, n.id ∈ notes.seen → judge env notes n = .ok ([], notes))
    (new : ∀ notes n, c.looksAt n → n.id ∉ notes.seen →
      judge env notes n = .ok (if k.isDue n false then [k.finding n] else [],
        { notes with seen := k.bookkeeping.added n false ++ notes.seen })) :
    k.bookkeeping.Describes c env where
  plain := plain
  noting := ⟨judge, noting⟩
  judged {n handed notes} looked distinct ready := by
    have remembered := seen_iff ready (Check.isVariable_of_looksAt noVariables looked)
    have due : (k.bookkeeping.due n handed).map k.finding =
        if k.isDue n handed then [k.finding n] else [] := by
      simp only [bookkeeping]
      split <;> rfl
    rw [noting, Judge.run, show k.bookkeeping.finding = k.finding from rfl, due]
    by_cases known : n.id ∈ notes.seen
    · obtain ⟨rfl, matched⟩ := remembered.1 known
      refine ⟨notes.seen, ?_, fun i => ⟨.inl, Or.rec id fun added => ?_⟩⟩
      · simp [seen notes n known, isDue_of_pattern true matched]
      · have own : i ∈ k.kept n := by
          have noComprehension := Node.comprehended?_eq_none (k.generators n matched)
          cases keeps : k.keepsAlone <;>
            simp [bookkeeping, noComprehension, keeps] at added
          exact added
        exact (mem_kept_iff.1 own).2 ▸ known
    · have same : k.isDue n handed = k.isDue n false := by
        cases handed with
        | false => rfl
        | true =>
          have unmatched : k.pattern n = false := by simpa [known] using remembered
          simp [isDue, unmatched]
      refine ⟨k.bookkeeping.added n false ++ notes.seen, ?_, fun i => ?_⟩
      · rw [new notes n looked known, same]
      · rw [List.mem_append, or_comm]
        rfl
  passed {n} handed unlooked := by
    obtain ⟨noGenerator, noComprehension, noOther⟩ := passed n unlooked
    have unmatched : k.pattern n = false := by
      by_contra matched
      rw [k.generators n (by simpa using matched)] at noGenerator
      cases noGenerator
    simp [bookkeeping, isDue, kept, noComprehension, noOther, unmatched]
  added_subset := added_subset
  handed_on handed distinct _ hp _ hi := handed_on handed distinct hp hi

/-- A node that a check for generators has to report: a comprehension whose generator is of the
kind, a generator of the kind that belongs to none, or another node. -/
def Site (k : GeneratorCheck) (nodes : List Node) (n : Node) : Prop :=
  n ∈ nodes ∧ ((∃ g, n.comprehended? = some g ∧ k.pattern g) ∨ k.other n
    ∨ k.pattern n ∧ ∀ m ∈ nodes, m.comprehended? ≠ some n)

theorem handed_mem_marked_iff : (m, true) ∈ t.marked k.bookkeeping.reach false ↔
    ∃ n ∈ t.reached, n.comprehended? = some m := by
  have handed (n : Node) : (n.children .argumentsFirst).take (k.bookkeeping.reach n) =
      n.comprehended?.toList := by
    cases known : n.comprehended? with
    | none => simp [bookkeeping, known]
    | some g => simp [bookkeeping, known, Node.children_of_comprehended? known]
  simp [Node.mem_marked_iff, Node.handed_mem_parts_iff, handed]

theorem mem_dueAt_iff (distinct : t.ids.Nodup) :
    m ∈ k.bookkeeping.dueAt (t.marked k.bookkeeping.reach false) ↔ k.Site t.reached m := by
  have due : m ∈ k.bookkeeping.dueAt (t.marked k.bookkeeping.reach false) ↔
      ∃ handed, (m, handed) ∈ t.marked k.bookkeeping.reach false ∧ k.isDue m handed := by
    unfold Bookkeeping.dueAt
    rw [List.mem_flatMap]
    constructor
    · rintro ⟨⟨m', handed⟩, hm, hdue⟩
      simp only [bookkeeping, List.mem_ite_nil_right, List.mem_singleton] at hdue
      obtain ⟨hdue, rfl⟩ := hdue
      exact ⟨handed, hm, hdue⟩
    · rintro ⟨handed, hm, hdue⟩
      exact ⟨(m, handed), hm, by simp [bookkeeping, hdue]⟩
  have reached : m ∈ t.reached ↔ ∃ handed, (m, handed) ∈ t.marked k.bookkeeping.reach false := by
    rw [← Node.map_fst_marked k.bookkeeping.reach t false]
    simp
  simp only [due, Site, reached, isDue, Bool.or_eq_true, Bool.and_eq_true, Option.any_eq_true,
    Bool.not_eq_true']
  constructor
  · rintro ⟨handed, hm, (comprehension | other) | ⟨matched, rfl⟩⟩
    · exact ⟨⟨handed, hm⟩, .inl comprehension⟩
    · exact ⟨⟨handed, hm⟩, .inr (.inl other)⟩
    · refine ⟨⟨false, hm⟩, .inr (.inr ⟨matched, fun n hn known => ?_⟩)⟩
      have real := Node.isVariable_of_isGenerator (k.generators m matched)
      cases Node.handed_unique distinct real hm (handed_mem_marked_iff.2 ⟨n, hn, known⟩)
  · rintro ⟨⟨handed, hm⟩, comprehension | other | ⟨matched, alone⟩⟩
    · exact ⟨handed, hm, .inl (.inl comprehension)⟩
    · exact ⟨handed, hm, .inl (.inr other)⟩
    · cases handed with
      | false => exact ⟨false, hm, .inr ⟨matched, rfl⟩⟩
      | true =>
        obtain ⟨n, hn, known⟩ := handed_mem_marked_iff.1 hm
        exact absurd known (alone n hn)

theorem nodup_dueAt (distinct : t.ids.Nodup) :
    ((k.bookkeeping.dueAt (t.marked k.bookkeeping.reach false)).map (·.id)).Nodup := by
  have sublist (ps : List (Node × Bool)) :
      (k.bookkeeping.dueAt ps).Sublist (ps.map (·.1)) := by
    induction ps with
    | nil => exact .slnil
    | cons p ps ih =>
      have own : (k.bookkeeping.due p.1 p.2).Sublist [p.1] := by
        simp only [bookkeeping]
        split
        · exact List.Sublist.refl _
        · exact List.nil_sublist _
      exact own.append ih
  refine Node.nodup_ids_of_sublist distinct ?_ fun m hm => ?_
  · rw [← Node.map_fst_marked k.bookkeeping.reach t false]
    exact sublist _
  · obtain ⟨⟨m', handed⟩, -, hdue⟩ := List.mem_flatMap.1 hm
    simp only [bookkeeping, List.mem_ite_nil_right, List.mem_singleton] at hdue
    obtain ⟨hdue, rfl⟩ := hdue
    exact isVariable_of_isDue hdue

/-- A check that is described as one for generators reports what such a check has to. -/
theorem reportsOnce {c : Check} {env : Env} {nodes : List Node}
    (h : k.bookkeeping.Describes c env) (walked : t.entries .checking = .ok nodes)
    (distinct : t.ids.Nodup) : c.ReportsOnce env t (k.Site t.reached) k.finding :=
  h.reportsOnce walked distinct (nodup_dueAt distinct) fun _ => mem_dueAt_iff distinct

end GeneratorCheck

namespace Generators

open Rules.Comprehensions

def spreadCalls : GeneratorCheck where
  pattern := isSpreadCall
  generators n h := by
    unfold isSpreadCall at h
    split at h
    · rfl
    · cases h
  other _ := false
  others _ h := by cases h
  keepsAlone := true
  finding
    | ⟨_, .listComp g⟩ => replace g "[f(...) for ... in x]" "list(starmap(f, x))"
    | ⟨_, .setComp g⟩ => replace g "\x7bf(...) for ... in x\x7d" "set(starmap(f, x))"
    | n => replace n "f(...) for ... in x" "starmap(f, x)"

theorem describes_spreadCalls (env : Env) :
    spreadCalls.bookkeeping.Describes Catalogue.Comprehensions.starmap env := by
  refine GeneratorCheck.describes (by decide) (by decide) rfl (fun n unlooked => ?_)
    (fun notes n known => by simp [starmap, known]) fun notes n looked unknown => ?_
  · obtain ⟨i, shape⟩ := n
    cases shape
    case generator | listComp | setComp => cases unlooked
    all_goals exact ⟨rfl, rfl, rfl⟩
  · obtain ⟨i, shape⟩ := n
    have unlisted : ¬ notes.seen.contains (Node.mk i shape).id := by simpa using unknown
    cases shape
    case generator element clauses =>
      rw [starmap, if_neg unlisted]
      cases spread : isSpreadCall ⟨i, .generator element clauses⟩ <;>
        simp [starmapOf, spread, GeneratorCheck.isDue, GeneratorCheck.bookkeeping,
          GeneratorCheck.kept, spreadCalls, Node.comprehended?]
    case listComp g | setComp g =>
      rw [starmap, if_neg unlisted, GeneratorCheck.isDue_of_comprehended? rfl rfl,
        GeneratorCheck.added_of_comprehended? rfl]
      cases spread : isSpreadCall g <;> simp [starmapOf, spread, GeneratorCheck.kept, spreadCalls]
    case leaf kind name => cases kind <;> cases looked
    all_goals cases looked

/-- A call that joins the items of something one after the other. -/
def isJoiningCall : Node → Bool
  | ⟨_, .call callee args _⟩ => (joiningCall? callee args).isSome
  | _ => false

def flattenings : GeneratorCheck where
  pattern := isFlattening
  generators n h := by
    unfold isFlattening at h
    split at h
    · rfl
    · cases h
  other := isJoiningCall
  others n h := by
    unfold isJoiningCall at h
    split at h
    · exact ⟨rfl, rfl⟩
    · cases h
  keepsAlone := false
  finding
    | n@⟨_, .listComp _⟩ =>
      replace n "[... for ... in x for ... in ...]" "list(chain.from_iterable(x))"
    | n@⟨_, .setComp _⟩ =>
      replace n "\x7b... for ... in x for ... in ...\x7d" "set(chain.from_iterable(x))"
    | n@⟨_, .call callee args _⟩ => replace n n.sourceText ((joiningCall? callee args).getD "")
    | n => replace n "... for ... in x for ... in ..." "chain.from_iterable(x)"

theorem describes_flattenings (env : Env) :
    flattenings.bookkeeping.Describes Catalogue.Comprehensions.flattening env := by
  refine GeneratorCheck.describes (by decide) (by decide) rfl (fun n unlooked => ?_)
    (fun notes n known => by simp [flattening, known]) fun notes n looked unknown => ?_
  · obtain ⟨i, shape⟩ := n
    cases shape
    case generator | listComp | setComp | call => cases unlooked
    all_goals exact ⟨rfl, rfl, rfl⟩
  · obtain ⟨i, shape⟩ := n
    have unlisted : ¬ notes.seen.contains (Node.mk i shape).id := by simpa using unknown
    cases shape
    case generator element clauses =>
      rw [flattening, if_neg unlisted]
      cases flat : isFlattening ⟨i, .generator element clauses⟩ <;>
        simp [flat, GeneratorCheck.isDue, GeneratorCheck.bookkeeping, flattenings,
          Node.comprehended?, isJoiningCall]
    case listComp g | setComp g =>
      rw [flattening, if_neg unlisted, GeneratorCheck.isDue_of_comprehended? rfl rfl,
        GeneratorCheck.added_of_comprehended? rfl]
      cases flat : isFlattening g <;> simp [flat, GeneratorCheck.kept, flattenings]
    case call callee args analyzed =>
      rw [flattening, if_neg unlisted]
      cases joined : joiningCall? callee args <;>
        simp [joined, GeneratorCheck.isDue, GeneratorCheck.bookkeeping, flattenings,
          Node.comprehended?, isFlattening, isJoiningCall]
    case leaf kind name => cases kind <;> cases looked
    all_goals cases looked

end Generators

/-- Over a tree with distinct identities, whose walk meets no fault, three checks report once what
they are for. The check of merges reports each copy that is an operand of a merge, however deep the
merges are nested. The other two report each list or set comprehension whose generator is of their
kind, at the comprehension and not again at its generator, and each generator of their kind that
belongs to no such comprehension. -/
theorem reported_once {t : Node} {nodes : List Node} (env : Env)
    (walked : t.entries .checking = .ok nodes)
    (distinct : ((nodes.filter (!·.isVariable)).map (·.id)).Nodup) :
    Catalogue.Containers.copyBeforeMerge.ReportsOnce env t
        (fun n => n.isCopy env ∧ ∃ m ∈ nodes, n ∈ m.operands) Merges.finding ∧
      Catalogue.Comprehensions.starmap.ReportsOnce env t
        (Generators.spreadCalls.Site nodes) Generators.spreadCalls.finding ∧
      Catalogue.Comprehensions.flattening.ReportsOnce env t
        (Generators.flattenings.Site nodes) Generators.flattenings.finding := by
  obtain ⟨rfl, -⟩ := Node.reached_of_entries walked
  exact ⟨Merges.reportsOnce walked distinct,
    GeneratorCheck.reportsOnce (Generators.describes_spreadCalls env) walked distinct,
    GeneratorCheck.reportsOnce (Generators.describes_flattenings env) walked distinct⟩

def numbered (id : NodeId) (shape : Shape Node) : Node := ⟨⟨id, .nowhere⟩, shape⟩

def numberedName (id : NodeId) (name : String) : Node :=
  numbered id (.name ⟨name, name, none, false⟩ none)

def numberedCopy (id : NodeId) : Node :=
  numbered id (.call (numbered (id + 1) (.member (numbered (id + 2) (.dict []))
    ⟨"copy", "", none, false⟩)) [] none)

def mergesAndPairs : Node :=
  numbered 0 (.tuple [
    numbered 1 (.binary .bitOr (numberedCopy 2)
      (numbered 5 (.binary .bitOr (numberedCopy 6) (numberedName 9 "x") none none)) none none),
    numbered 10 (.listComp (numbered 11 (.generator
      (numbered 12 (.call (numberedName 13 "f")
        [⟨numberedName 14 "a", .pos, none⟩, ⟨numberedName 15 "b", .pos, none⟩] none))
      [⟨numbered 16 (.tuple [numberedName 17 "a", numberedName 18 "b"]), numberedName 19 "z", [],
        false⟩])))])

def dictOnly : SymbolTable := ⟨∅, (∅ : Std.HashMap String SymbolId).insert "dict" "builtins.dict"⟩

/-- Both copies and the comprehension are found, beside nothing else. -/
theorem reported_once_mergesAndPairs :
    let env : Env := ⟨dictOnly, ⟨3, 10⟩, []⟩
    let t := mergesAndPairs
    (numberedCopy 2).isCopy env ∧ (numberedCopy 6).isCopy env ∧
      ∃ nodes, t.entries .checking = .ok nodes
        ∧ ((nodes.filter (!·.isVariable)).map (·.id)).Nodup
        ∧ Catalogue.Containers.copyBeforeMerge.ReportsOnce env t
          (fun n => n.isCopy env ∧ ∃ m ∈ nodes, n ∈ m.operands) Merges.finding
        ∧ Catalogue.Comprehensions.starmap.ReportsOnce env t
          (Generators.spreadCalls.Site nodes) Generators.spreadCalls.finding := by
  intro env t
  have dict : dictOnly.builtinType "dict" =
      some (.type (.inst ⟨"builtins.dict", "builtins.dict"⟩ [])) := by
    simp [dictOnly, SymbolTable.builtinType, SymbolTable.builtinClass?, SymbolTable.classInfo?,
      SymbolTable.get, ClassInfo.bare]
  have isDict : dictOnly.hasType (dictOnly.builtinType "dict") (.builtin "dict") := by
    rw [dict]
    change SymbolTable.classMatches "builtins.dict" (.builtin "dict")
    decide
  have copy (id : NodeId) : (numberedCopy id).isCopy env := by
    have typed : (numberedCopy id).isCopy env = dictOnly.hasAnyType (dictOnly.builtinType "dict")
        [.builtin "dict", .builtin "set", .named "os._Environ"] := rfl
    simp [typed, SymbolTable.hasAnyType, isDict]
  have walked : t.entries .checking = .ok t.reached := by
    rw [Node.entries_eq_ok_iff]
    simp [t, mergesAndPairs, numberedCopy, numberedName, numbered, Node.events_checking,
      Node.refusal.eq_3, Node.complaint, Node.reached_eq, Node.children, Clause.parts]
  have ids : t.ids = [0, 1, 2, 3, 4, 5, 6, 7, 8, 9, 10, 11, 19, 16, 17, 18, 12, 14, 15, 13] := by
    simp [t, mergesAndPairs, numberedCopy, numberedName, numbered, Node.ids_eq, Node.isVariable,
      Node.id, Node.info, Node.children, Clause.parts]
  have distinct : ((t.reached.filter (!·.isVariable)).map (·.id)).Nodup := by
    rw [show ((t.reached.filter (!·.isVariable)).map (·.id)) = t.ids from rfl, ids]
    decide
  obtain ⟨merges, pairs, -⟩ := reported_once env walked distinct
  exact ⟨copy 2, copy 6, t.reached, walked, distinct, merges, pairs⟩

end IdiomLint
