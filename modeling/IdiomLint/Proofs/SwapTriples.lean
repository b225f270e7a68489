import IdiomLint.Rules.Assignments
import Mathlib.Data.List.Forall2
import Mathlib.Data.List.Sort

/-! Swaps through a third variable. A swap is three statements `t = x`, `x = y`, `y = t` right after one
another; the last two statements of one can be the first two of the next. The scan keeps the last two
assignments and forgets them after a swap, so it chooses swaps from left to right: each that does not
overlap one chosen before. This determines what is reported. -/
namespace IdiomLint.Rules.Assignments

open Finding

inductive Copies (target : Node) (t s : String) : Node → Prop
  | intro {i j k : Info} {assigned source : Ref} {binding other : Option Binding}
      (isName : target = ⟨j, .name assigned binding⟩) (left : assigned.name = t)
      (right : source.name = s) :
    Copies target t s ⟨i, .assignment [target] ⟨k, .name source other⟩⟩

/-- The statements at position `i` and right after it are `t = x`, `x = y` and `y = t`. -/
def SwapAt (stmts : List Node) (i : Nat) (target : Node) : Prop :=
  ∃ t x y first second third more target₂ target₃,
    stmts.drop i = first :: second :: third :: more ∧
      Copies target t x first ∧ Copies target₂ x y second ∧ Copies target₃ y t third

def SwapsAt (stmts : List Node) (i : Nat) : Prop := ∃ target, SwapAt stmts i target

/-- Positions chosen from left to right: those of the swaps before which, at a distance of one or two,
no position is chosen. -/
structure Greedy (stmts : List Node) (chosen : List Nat) : Prop where
  increasing : chosen.Pairwise (· < ·)
  mem_iff : ∀ i, i ∈ chosen ↔ SwapsAt stmts i ∧ ∀ j ∈ chosen, j + 1 ≠ i ∧ j + 2 ≠ i

variable {stmts recent rest : List Node} {stmt first second third target : Node} {t s : String}
  {chosen other : List Nat} {i k : Nat}

theorem nameToName?_eq_some_iff :
    nameToName? stmt = some (target, t, s) ↔ Copies target t s stmt := by
  constructor
  · intro h
    unfold nameToName? at h
    split at h
    · cases h
      exact .intro rfl rfl rfl
    · cases h
  · rintro ⟨rfl, rfl, rfl⟩
    rfl

theorem Copies.isAssignment (h : Copies target t s stmt) : isAssignment stmt = true := by
  obtain ⟨-, -, -⟩ := h
  rfl

theorem swap?_eq_some_iff :
    swap? first second third = some target ↔ ∃ t x y target₂ target₃,
      Copies target t x first ∧ Copies target₂ x y second ∧ Copies target₃ y t third := by
  constructor
  · intro h
    unfold swap? at h
    split at h
    · next a b target₂ c d target₃ e f one two three =>
      rw [Option.ite_none_right_eq_some] at h
      obtain ⟨names, found⟩ := h
      cases found
      simp only [Bool.and_eq_true, beq_iff_eq] at names
      obtain ⟨⟨rfl, rfl⟩, rfl⟩ := names
      exact ⟨a, b, d, target₂, target₃, nameToName?_eq_some_iff.1 one,
        nameToName?_eq_some_iff.1 two, nameToName?_eq_some_iff.1 three⟩
    · cases h
  · rintro ⟨t, x, y, target₂, target₃, one, two, three⟩
    unfold swap?
    rw [nameToName?_eq_some_iff.2 one, nameToName?_eq_some_iff.2 two, nameToName?_eq_some_iff.2 three]
    simp

theorem swapAt_zero_iff :
    SwapAt (first :: second :: third :: rest) 0 target ↔ swap? first second third = some target := by
  rw [swap?_eq_some_iff]
  constructor
  · rintro ⟨t, x, y, _, _, _, _, target₂, target₃, ⟨⟩, one, two, three⟩
    exact ⟨t, x, y, target₂, target₃, one, two, three⟩
  · rintro ⟨t, x, y, target₂, target₃, one, two, three⟩
    exact ⟨t, x, y, first, second, third, rest, target₂, target₃, rfl, one, two, three⟩

theorem swapAt_drop : SwapAt (stmts.drop k) i target ↔ SwapAt stmts (k + i) target := by
  simp only [SwapAt, List.drop_drop]

theorem swapsAt_drop : SwapsAt (stmts.drop k) i ↔ SwapsAt stmts (k + i) := by
  simp only [SwapsAt, swapAt_drop]

theorem not_swapsAt_of_length (short : stmts.length ≤ 2) (i : Nat) : ¬SwapsAt stmts i := by
  rintro ⟨target, t, x, y, first, second, third, more, _, _, split, -⟩
  have length := congrArg List.length split
  simp only [List.length_drop, List.length_cons] at length
  omega

/-- No swap goes over a statement that is no assignment. -/
theorem not_swapsAt_of_not_assignment (short : recent.length ≤ 2) (other : isAssignment stmt = false)
    (before : i ≤ recent.length) : ¬SwapsAt (recent ++ stmt :: rest) i := by
  rintro ⟨target, t, x, y, first, second, third, more, _, _, split, one, two, three⟩
  rw [List.drop_append_of_le_length before] at split
  have length : (recent.drop i).length ≤ 2 := by
    rw [List.length_drop]
    omega
  have assigns : isAssignment stmt = true := by
    generalize recent.drop i = passed at split length
    rcases passed with _ | ⟨_, _ | ⟨_, _ | _⟩⟩
    · cases split
      exact one.isAssignment
    · cases split
      exact two.isAssignment
    · cases split
      exact three.isAssignment
    · simp at length
  rw [other] at assigns
  cases assigns

theorem greedy_nil (short : stmts.length ≤ 2) : Greedy stmts [] :=
  ⟨.nil, fun i => by simp [not_swapsAt_of_length short i]⟩

theorem pairwise_map_add (h : chosen.Pairwise (· < ·)) (k : Nat) :
    (chosen.map (k + ·)).Pairwise (· < ·) :=
  List.pairwise_map.2 (h.imp fun less => Nat.add_lt_add_left less k)

/-- Statements before the first swap. -/
theorem Greedy.skip (none : ∀ i < k, ¬SwapsAt stmts i) (h : Greedy (stmts.drop k) chosen) :
    Greedy stmts (chosen.map (k + ·)) := by
  refine ⟨pairwise_map_add h.increasing k, fun i => ?_⟩
  by_cases before : i < k
  · have out : i ∉ chosen.map (k + ·) := by
      rw [List.mem_map]
      rintro ⟨j, -, rfl⟩
      omega
    simp [out, none i before]
  · obtain ⟨d, rfl⟩ := Nat.exists_eq_add_of_le (Nat.le_of_not_lt before)
    have shifted : k + d ∈ chosen.map (k + ·) ↔ d ∈ chosen := by simp
    rw [shifted, h.mem_iff, swapsAt_drop, List.forall_mem_map]
    refine and_congr_right fun _ => forall₂_congr fun j _ => ?_
    omega

/-- A swap at the start is chosen, and none that overlaps it is. -/
theorem Greedy.hit (swaps : SwapsAt stmts 0) (h : Greedy (stmts.drop 3) chosen) :
    Greedy stmts (0 :: chosen.map (3 + ·)) := by
  have first : ∀ j ∈ chosen.map (3 + ·), 0 < j := List.forall_mem_map.2 fun j _ => by omega
  refine ⟨List.pairwise_cons.2 ⟨first, pairwise_map_add h.increasing 3⟩, fun i => ?_⟩
  rw [List.forall_mem_cons, List.forall_mem_map]
  rcases Nat.lt_or_ge i 3 with near | far
  · rcases Nat.eq_zero_or_pos i with rfl | positive
    · simp [swaps]
    · have out : i ∉ 0 :: chosen.map (3 + ·) := by
        simp only [List.mem_cons, List.mem_map, not_or, not_exists, not_and]
        exact ⟨by omega, fun j _ => by omega⟩
      have overlaps : ¬(0 + 1 ≠ i ∧ 0 + 2 ≠ i) := by omega
      simp only [out, overlaps, false_and, and_false]
  · obtain ⟨d, rfl⟩ := Nat.exists_eq_add_of_le far
    have shifted : 3 + d ∈ 0 :: chosen.map (3 + ·) ↔ d ∈ chosen := by simp
    have apart : 0 + 1 ≠ 3 + d ∧ 0 + 2 ≠ 3 + d := by omega
    rw [shifted, h.mem_iff, swapsAt_drop, and_iff_right apart]
    refine and_congr_right fun _ => forall₂_congr fun j _ => ?_
    omega

/-- Whether a position is chosen depends on the positions before it. -/
theorem Greedy.unique (h : Greedy stmts chosen) (h' : Greedy stmts other) : chosen = other := by
  refine h.increasing.eq_of_mem_iff h'.increasing fun i => ?_
  induction i using Nat.strong_induction_on with
  | _ i ih =>
    have near (js ks : List Nat) (same : ∀ j < i, j ∈ js → j ∈ ks)
        (free : ∀ j ∈ ks, j + 1 ≠ i ∧ j + 2 ≠ i) : ∀ j ∈ js, j + 1 ≠ i ∧ j + 2 ≠ i := by
      intro j hj
      by_contra close
      have before : j < i := by omega
      exact close (free j (same j before hj))
    rw [h.mem_iff, h'.mem_iff]
    refine and_congr_right fun _ => ⟨?_, ?_⟩
    · exact near other chosen fun j before => (ih j before).2
    · exact near chosen other fun j before => (ih j before).1

/-- Chosen swaps do not overlap. -/
theorem Greedy.apart (h : Greedy stmts chosen) : chosen.Pairwise (fun i j => i + 3 ≤ j) := by
  refine h.increasing.imp_of_mem fun {i j} hi hj less => ?_
  have free := ((h.mem_iff j).1 hj).2 i hi
  omega

/-- A swap that is not chosen overlaps one that is, which starts before it. -/
theorem Greedy.exists_overlap (h : Greedy stmts chosen) (swaps : SwapsAt stmts i) :
    ∃ j ∈ chosen, j ≤ i ∧ i < j + 3 := by
  by_cases mem : i ∈ chosen
  · exact ⟨i, mem, by omega⟩
  · rw [h.mem_iff, not_and] at mem
    obtain ⟨j, hj, close⟩ := by simpa using mem swaps
    exact ⟨j, hj, by omega⟩

def unpackable : String := "Use tuple unpacking instead of temporary variables to swap values"

/-- A finding is about the target of the first statement of a swap. -/
def ReportsSwap (stmts : List Node) (i : Nat) (f : Finding) : Prop :=
  ∃ target, SwapAt stmts i target ∧ f = ofNode target unpackable

theorem forall₂_reportsSwap_drop {fs : List Finding}
    (h : List.Forall₂ (ReportsSwap (stmts.drop k)) chosen fs) :
    List.Forall₂ (ReportsSwap stmts) (chosen.map (k + ·)) fs := by
  rw [List.forall₂_map_left_iff]
  refine h.imp fun i f reports => ?_
  simpa only [ReportsSwap, swapAt_drop] using reports

theorem swaps_of_not_assignment (h : isAssignment stmt = false) :
    swaps recent (stmt :: rest) = swaps [] rest := by
  conv_lhs => unfold swaps
  simp [h]

theorem swaps_of_length_lt (h : isAssignment stmt = true) (fewer : recent.length < 2) :
    swaps recent (stmt :: rest) = swaps (recent ++ [stmt]) rest := by
  rcases recent with _ | ⟨_, _ | _⟩
  · simp [swaps, h]
  · simp [swaps, h]
  · simp only [List.length_cons] at fewer
    omega

/-- The scan chooses among the statements it remembers and those to come. -/
theorem exists_greedy_swaps (recent : List Node) (short : recent.length ≤ 2) (rest : List Node) :
    ∃ chosen, Greedy (recent ++ rest) chosen ∧
      List.Forall₂ (ReportsSwap (recent ++ rest)) chosen (swaps recent rest) := by
  induction rest generalizing recent with
  | nil =>
    rw [List.append_nil]
    exact ⟨[], greedy_nil short, by simp [swaps]⟩
  | cons stmt rest ih =>
    cases assigns : isAssignment stmt with
    | false =>
      -- the statement and all that is remembered go
      obtain ⟨chosen, greedy, reports⟩ := ih [] (by simp)
      have dropped : (recent ++ stmt :: rest).drop (recent.length + 1) = [] ++ rest := by simp
      rw [← dropped] at greedy reports
      rw [swaps_of_not_assignment assigns]
      refine ⟨_, greedy.skip fun i before => ?_, forall₂_reportsSwap_drop reports⟩
      exact not_swapsAt_of_not_assignment short assigns (Nat.le_of_lt_succ before)
    | true =>
      rcases Nat.lt_or_eq_of_le short with fewer | two
      · rw [swaps_of_length_lt assigns fewer, List.append_cons]
        exact ih _ (by simpa using Nat.le_of_lt_succ fewer)
      obtain ⟨first, second, rfl⟩ := List.length_eq_two.1 two
      cases found : swap? first second stmt with
      | some target =>
        obtain ⟨chosen, greedy, reports⟩ := ih [] (by simp)
        have here : SwapAt ([first, second] ++ stmt :: rest) 0 target := swapAt_zero_iff.2 found
        have step : swaps [first, second] (stmt :: rest) = ofNode target unpackable :: swaps [] rest := by
          simp [swaps, assigns, found, unpackable]
        rw [step]
        exact ⟨_, Greedy.hit ⟨target, here⟩ greedy,
          .cons ⟨target, here, rfl⟩ (forall₂_reportsSwap_drop (k := 3) reports)⟩
      | none =>
        obtain ⟨chosen, greedy, reports⟩ := ih [second, stmt] (by simp)
        have step : swaps [first, second] (stmt :: rest) = swaps [second, stmt] rest := by
          simp [swaps, assigns, found]
        rw [step]
        refine ⟨_, Greedy.skip (k := 1) (fun i before => ?_) greedy,
          forall₂_reportsSwap_drop (k := 1) reports⟩
        obtain rfl : i = 0 := by omega
        rintro ⟨target, swap⟩
        rw [swapAt_zero_iff.1 swap] at found
        cases found

/-- Swaps are chosen in one way only, from left to right: each exactly if none is chosen that starts
one or two statements before. Those chosen are reported, each once, in their order, at the target of
the first statement; they do not overlap, and every other swap overlaps one of them. -/
theorem greedy_swaps_reported (env : Env) (n : Node) :
    ∃ chosen, Greedy (n.statementList?.getD []) chosen ∧
      (∀ other, Greedy (n.statementList?.getD []) other → other = chosen) ∧
      List.Forall₂ (ReportsSwap (n.statementList?.getD [])) chosen (tupleSwap env n) ∧
      chosen.Pairwise (fun i j => i + 3 ≤ j) ∧
      ∀ i, SwapsAt (n.statementList?.getD []) i → ∃ j ∈ chosen, j ≤ i ∧ i < j + 3 := by
  obtain ⟨chosen, greedy, reports⟩ := exists_greedy_swaps [] (by simp) (n.statementList?.getD [])
  exact ⟨chosen, greedy, fun other greedy' => greedy'.unique greedy, reports, greedy.apart,
    fun i swaps => greedy.exists_overlap swaps⟩

end IdiomLint.Rules.Assignments
