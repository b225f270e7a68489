import IdiomLint.Proofs.MethodChains
import Mathlib.Data.List.Forall2
import Mathlib.Data.List.SplitBy

/-! Declarations that follow each other. A maximal run is two or more declarations of one kind with no
further one of that kind before or behind them. Each maximal run of a block is reported once, at its
first declaration; in the block in which each is joined into one declaration nothing is reported. -/
namespace IdiomLint.Rules.Assignments

open Finding MethodChains

inductive Scope where
  | global | nonlocal
deriving DecidableEq

namespace Scope

def keyword : Scope → String
  | global => "global"
  | nonlocal => "nonlocal"

def declare (k : Scope) (i : Info) (names : List String) : Node :=
  match k with
  | global => ⟨i, .globalDecl names⟩
  | nonlocal => ⟨i, .nonlocalDecl names⟩

/-- What is reported about a run of two declarations, or of more. -/
def advice : Scope → Bool → String
  | global, false => "Replace `global x; global y` with `global x, y`"
  | global, true => "Replace `global x; global y; ...` with `global x, y, ...`"
  | nonlocal, false => "Replace `nonlocal x; nonlocal y` with `nonlocal x, y`"
  | nonlocal, true => "Replace `nonlocal x; nonlocal y; ...` with `nonlocal x, y, ...`"

end Scope

def declared? (n : Node) : Option (Scope × List String) :=
  match n.shape with
  | .globalDecl names => some (.global, names)
  | .nonlocalDecl names => some (.nonlocal, names)
  | _ => none

def scope? (n : Node) : Option Scope := (declared? n).map (·.1)

def declaredNames (n : Node) : List String := ((declared? n).map (·.2)).getD []

/-- The statements of `run`, which start at a place, are a maximal run of declarations of a kind. -/
structure MaximalRun (p : Place) (k : Scope) (run behind : List Node) : Prop where
  split : run ++ behind = p.stmt :: p.later
  several : 2 ≤ run.length
  same : ∀ s ∈ run, scope? s = some k
  start : ∀ a ∈ p.earlier.head?, scope? a ≠ some k
  stop : ∀ b ∈ behind.head?, scope? b ≠ some k

def OpensRun (p : Place) : Prop := ∃ k run behind, MaximalRun p k run behind

/-- A finding is about the maximal run that starts at a place. -/
def ReportsRun (p : Place) (f : Finding) : Prop :=
  ∃ k run behind, MaximalRun p k run behind ∧ f = ofNode p.stmt (k.advice (decide (3 ≤ run.length)))

variable {n stmt first a b : Node} {earlier later run more rest behind body : List Node}
  {k : Scope} {p : Place}

theorem declaration?_eq (n : Node) : declaration? n = (scope? n).map Scope.keyword := by
  obtain ⟨i, shape⟩ := n
  cases shape <;> rfl

theorem keyword_injective : Function.Injective Scope.keyword := by
  intro k l h
  cases k <;> cases l <;> first | rfl | exact absurd h (by decide)

@[simp] theorem declared?_declare (k : Scope) (i : Info) (names : List String) :
    declared? (k.declare i names) = some (k, names) := by
  cases k <;> rfl

theorem eq_declare (h : scope? n = some k) : n = k.declare n.info (declaredNames n) := by
  obtain ⟨i, shape⟩ := n
  cases shape <;> cases h <;> rfl

theorem joinedDeclarations_eq (h : scope? first = some k) (second : Node) (more : List Node) :
    joinedDeclarations (first :: second :: more) =
      [ofNode first (k.advice (decide (3 ≤ (first :: second :: more).length)))] := by
  have declared : declaration? first = some k.keyword := by rw [declaration?_eq, h]; rfl
  have many : decide (3 ≤ (first :: second :: more).length) = !more.isEmpty := by
    cases more <;> simp
  rw [joinedDeclarations, many]
  simp only [declared, replace]
  cases more <;> cases k <;> rfl

/-- A maximal run is the statement at its place and at least one more. -/
theorem MaximalRun.exists_second (h : MaximalRun p k run behind) :
    ∃ second more, run = p.stmt :: second :: more ∧ p.later = second :: more ++ behind := by
  have several := h.several
  obtain _ | ⟨first, _ | ⟨second, more⟩⟩ := run
  · simp at several
  · simp at several
  · obtain ⟨rfl, later⟩ := List.cons.inj h.split
    exact ⟨second, more, rfl, later.symm⟩

theorem MaximalRun.scope?_stmt (h : MaximalRun p k run behind) : scope? p.stmt = some k := by
  obtain ⟨second, more, rfl, -⟩ := h.exists_second
  exact h.same p.stmt List.mem_cons_self

theorem not_opensRun_of_none (here : scope? stmt = none) : ¬OpensRun ⟨earlier, stmt, later⟩ := by
  rintro ⟨k, run, behind, h⟩
  exact Option.some_ne_none k (h.scope?_stmt.symm.trans here)

/-- Inside of a run none starts. -/
theorem not_opensRun_of_same (before : scope? a = some k) (here : scope? stmt = some k) :
    ¬OpensRun ⟨a :: earlier, stmt, later⟩ := by
  rintro ⟨l, run, behind, h⟩
  have kinds : some k = some l := here.symm.trans h.scope?_stmt
  exact h.start a rfl (before.trans kinds)

theorem not_opensRun_of_alone (here : scope? stmt = some k)
    (stop : ∀ b ∈ later.head?, scope? b ≠ some k) :
    ¬OpensRun ⟨earlier, stmt, later⟩ := by
  rintro ⟨l, run, behind, h⟩
  have kinds : some k = some l := here.symm.trans h.scope?_stmt
  obtain ⟨second, more, rfl, rfl⟩ := h.exists_second
  exact stop second rfl ((h.same second (by simp)).trans kinds.symm)

section

open scoped Classical

noncomputable def opening (earlier stmts : List Node) : List Place :=
  (placesFrom earlier stmts).filter fun p => OpensRun p

theorem opening_cons_of_not (h : ¬OpensRun ⟨earlier, stmt, rest⟩) :
    opening earlier (stmt :: rest) = opening (stmt :: earlier) rest :=
  List.filter_cons_of_neg (by simpa using h)

theorem opening_cons_of_opensRun (h : OpensRun ⟨earlier, stmt, rest⟩) :
    opening earlier (stmt :: rest) = ⟨earlier, stmt, rest⟩ :: opening (stmt :: earlier) rest :=
  List.filter_cons_of_pos (by simpa using h)

theorem opening_inside (before : scope? a = some k) (same : ∀ s ∈ more, scope? s = some k)
    (earlier behind : List Node) :
    opening (a :: earlier) (more ++ behind) = opening (more.reverse ++ a :: earlier) behind := by
  induction more generalizing a earlier with
  | nil => rfl
  | cons stmt more ih =>
    obtain ⟨here, same⟩ := List.forall_mem_cons.1 same
    rw [List.cons_append, opening_cons_of_not (not_opensRun_of_same before here), ih here same]
    simp

/-- What the scan holds back behind statements: nothing if the last of them is no declaration, and
otherwise the declarations at their end that are of one kind. -/
inductive Gathered (earlier : List Node) : List Node → Prop
  | nothing (idle : ∀ a ∈ earlier.head?, scope? a = none) : Gathered earlier []
  | declarations {more : List Node} {first : Node} {k : Scope}
      (same : ∀ s ∈ first :: more, scope? s = some k)
      (start : ∀ a ∈ earlier.head?, scope? a ≠ some k) : Gathered earlier (first :: more)

/-- A run that goes no further is reported if it is one of two or more. -/
theorem Gathered.complete {fs : List Finding} (h : Gathered earlier run)
    (stop : ∀ s ∈ run, ∀ b ∈ behind.head?, scope? b ≠ scope? s)
    (reports : List.Forall₂ ReportsRun (opening (run.reverse ++ earlier) behind) fs) :
    List.Forall₂ ReportsRun (opening earlier (run ++ behind)) (joinedDeclarations run ++ fs) := by
  cases h with
  | nothing idle => exact reports
  | @declarations more first k same start =>
    obtain ⟨here, others⟩ := List.forall_mem_cons.1 same
    have ends : ∀ b ∈ behind.head?, scope? b ≠ some k := fun b hb =>
      here ▸ stop first List.mem_cons_self b hb
    have inside := opening_inside here others earlier behind
    rw [List.reverse_cons, List.append_assoc, List.singleton_append, ← inside] at reports
    cases more with
    | nil => rwa [List.singleton_append, opening_cons_of_not (not_opensRun_of_alone here ends)]
    | cons second more =>
      have maximal : MaximalRun ⟨earlier, first, second :: more ++ behind⟩ k
          (first :: second :: more) behind := ⟨rfl, by simp, same, start, ends⟩
      rw [List.cons_append, opening_cons_of_opensRun ⟨k, _, _, maximal⟩, joinedDeclarations_eq here]
      exact .cons ⟨k, _, _, maximal, rfl⟩ reports

theorem Gathered.isSome (h : Gathered earlier run) : ∀ s ∈ run, (scope? s).isSome := by
  cases h with
  | nothing => simp
  | declarations same => exact fun s hs => by simp [same s hs]

/-- A declaration of another kind starts anew. -/
theorem Gathered.start_ne (h : Gathered earlier run) (other : ∀ s ∈ run, scope? s ≠ some k) :
    ∀ a ∈ (run.reverse ++ earlier).head?, scope? a ≠ some k := by
  intro a ha
  cases h with
  | nothing idle => simp [idle a ha]
  | @declarations more first =>
    refine other a (List.mem_reverse.1 (List.mem_of_mem_head? ?_))
    rwa [List.head?_append_of_ne_nil _ (by simp)] at ha

theorem Gathered.concat (h : Gathered earlier run) (here : scope? stmt = some k)
    (same : ∀ s ∈ run, scope? s = some k) : Gathered earlier (run ++ [stmt]) := by
  cases h with
  | nothing idle =>
    have alone : ∀ s ∈ [stmt], scope? s = some k := by simpa using here
    exact .declarations alone fun a ha => by simp [idle a ha]
  | @declarations more first l all start =>
    have kinds : some l = some k :=
      (all first List.mem_cons_self).symm.trans (same first List.mem_cons_self)
    cases kinds
    have longer : ∀ s ∈ first :: (more ++ [stmt]), scope? s = some k := by
      rw [← List.cons_append, List.forall_mem_append]
      exact ⟨same, by simpa using here⟩
    exact .declarations longer start

/-- One statement. -/
theorem declarationRuns_cons (stmt : Node) (rest : List Node) (h : Gathered earlier run) :
    (scope? stmt = none ∧
      declarationRuns run (stmt :: rest) = joinedDeclarations run ++ declarationRuns [] rest) ∨
    ∃ k, scope? stmt = some k ∧
      ((∀ s ∈ run, scope? s = some k) ∧
          declarationRuns run (stmt :: rest) = declarationRuns (run ++ [stmt]) rest ∨
        (∀ s ∈ run, scope? s ≠ some k) ∧
          declarationRuns run (stmt :: rest) =
            joinedDeclarations run ++ declarationRuns [stmt] rest) := by
  have known := declaration?_eq stmt
  rw [declarationRuns]
  cases here : scope? stmt with
  | none =>
    rw [here] at known
    simp [known]
  | some k =>
    rw [here] at known
    simp only [known, Option.map_some, reduceCtorEq, false_and, false_or]
    refine ⟨k, rfl, ?_⟩
    cases h with
    | nothing => exact .inl ⟨by simp, by simp⟩
    | @declarations more first l same start =>
      have kind : declaration? first = some l.keyword := by
        rw [declaration?_eq, same first List.mem_cons_self]
        rfl
      by_cases equal : l = k
      · subst equal
        exact .inl ⟨same, by simp [kind]⟩
      · have keywords : l.keyword ≠ k.keyword := fun h => equal (keyword_injective h)
        refine .inr ⟨fun s hs => ?_, by simp [kind, keywords]⟩
        rw [same s hs]
        simpa using equal

theorem forall₂_declarationRuns (h : Gathered earlier run) (rest : List Node) :
    List.Forall₂ ReportsRun (opening earlier (run ++ rest)) (declarationRuns run rest) := by
  induction rest generalizing earlier run with
  | nil =>
    have nothing : List.Forall₂ ReportsRun (opening (run.reverse ++ earlier) []) [] := .nil
    simpa [declarationRuns] using h.complete (by simp) nothing
  | cons stmt rest ih =>
    rcases declarationRuns_cons stmt rest h with
      ⟨here, step⟩ | ⟨k, here, ⟨same, step⟩ | ⟨other, step⟩⟩ <;> rw [step]
    · refine h.complete (fun s hs b hb => ?_) ?_
      · obtain rfl : stmt = b := by simpa using hb
        rw [here]
        exact (Option.ne_none_iff_isSome.2 (h.isSome s hs)).symm
      · rw [opening_cons_of_not (not_opensRun_of_none here)]
        exact ih (.nothing (by simpa using here))
    · rw [List.append_cons]
      exact ih (h.concat here same)
    · refine h.complete (fun s hs b hb => ?_) ?_
      · obtain rfl : stmt = b := by simpa using hb
        rw [here]
        exact (other s hs).symm
      · have alone : ∀ s ∈ [stmt], scope? s = some k := by simpa using here
        exact ih (.declarations alone (h.start_ne other))

end

def sameScope (a b : Node) : Bool := (scope? a).isSome && scope? a == scope? b

/-- One declaration for several of a kind, with all their names. -/
def joined : List Node → Node
  | [] => default
  | first :: rest => (scope? first).elim first fun k =>
    k.declare first.info ((first :: rest).flatMap declaredNames)

/-- The statements of a block, the declarations of one kind that follow each other joined. -/
def merged (body : List Node) : List Node := (body.splitBy sameScope).map joined

theorem sameScope_iff : sameScope a b = true ↔ ∃ k, scope? a = some k ∧ scope? b = some k := by
  rw [sameScope, Bool.and_eq_true, Option.isSome_iff_exists, beq_iff_eq]
  constructor
  · rintro ⟨⟨k, here⟩, equal⟩
    exact ⟨k, here, equal ▸ here⟩
  · rintro ⟨k, here, there⟩
    exact ⟨⟨k, here⟩, here.trans there.symm⟩

theorem sameScope_eq_false (h : scope? a = some k) : sameScope a b = false ↔ scope? b ≠ some k := by
  rw [← Bool.not_eq_true, sameScope_iff, h]
  simp

theorem joined_singleton (n : Node) : joined [n] = n := by
  cases here : scope? n with
  | none => simp [joined, here]
  | some k => simp [joined, here, ← eq_declare here]

theorem scope?_joined (first : Node) (rest : List Node) :
    scope? (joined (first :: rest)) = scope? first := by
  cases here : scope? first with
  | none => simp [joined, here]
  | some k =>
    rw [joined, here, Option.elim_some, scope?, declared?_declare]
    rfl

theorem joined_of_same (same : ∀ s ∈ first :: rest, scope? s = some k) :
    joined (first :: rest) = k.declare first.info ((first :: rest).flatMap declaredNames) := by
  simp [joined, same first List.mem_cons_self]

/-- Declarations that follow each other and are joined are all of one kind. -/
theorem scope?_of_isChain (h : (first :: rest).IsChain fun a b => sameScope a b) :
    ∀ s ∈ first :: rest, scope? s = scope? first := by
  induction rest generalizing first with
  | nil => simp
  | cons second rest ih =>
    obtain ⟨same, chain⟩ := List.isChain_cons_cons.1 h
    obtain ⟨k, here, there⟩ := sameScope_iff.1 same
    refine List.forall_mem_cons.2 ⟨rfl, fun s hs => ?_⟩
    rw [ih chain s hs, here, there]

/-- No two neighbours are left that could be joined. -/
theorem isChain_merged (body : List Node) : (merged body).IsChain fun a b => sameScope a b = false := by
  rw [merged, List.isChain_map]
  refine (List.isChain_getLast_head_splitBy sameScope body).imp_of_mem_imp fun g g' hg hg' => ?_
  rintro ⟨nonempty, nonempty', apart⟩
  obtain ⟨first, rest, rfl⟩ := List.exists_cons_of_ne_nil nonempty
  obtain ⟨first', rest', rfl⟩ := List.exists_cons_of_ne_nil nonempty'
  have last := scope?_of_isChain (List.isChain_of_mem_splitBy hg) _ (List.getLast_mem nonempty)
  simpa only [sameScope, scope?_joined, last, List.head_cons] using apart

theorem opening_eq_nil_of_isChain (h : body.IsChain fun a b => sameScope a b = false)
    (earlier : List Node) : opening earlier body = [] := by
  induction body generalizing earlier with
  | nil => rfl
  | cons stmt rest ih =>
    obtain ⟨apart, chain⟩ := List.isChain_cons.1 h
    have closed : ¬OpensRun ⟨earlier, stmt, rest⟩ := by
      cases here : scope? stmt with
      | none => exact not_opensRun_of_none here
      | some k => exact not_opensRun_of_alone here fun b hb => (sameScope_eq_false here).1 (apart b hb)
    rw [opening_cons_of_not closed, ih chain]

/-- Two neighbours of one kind belong to a maximal run, and it starts with the first if nothing of the
kind stands before. -/
theorem opensRun_of_sameScope (same : sameScope a b = true)
    (start : ∀ e ∈ earlier.head?, sameScope e a = false) (rest : List Node) :
    OpensRun ⟨earlier, a, b :: rest⟩ := by
  obtain ⟨k, here, there⟩ := sameScope_iff.1 same
  refine ⟨k, a :: b :: rest.takeWhile (scope? · == some k), rest.dropWhile (scope? · == some k), ?_,
    by simp, ?_, fun e he kind => ?_, fun c hc => ?_⟩
  · simp
  · refine List.forall_mem_cons.2 ⟨here, List.forall_mem_cons.2 ⟨there, fun s hs => ?_⟩⟩
    exact beq_iff_eq.1 (List.all_eq_true.1 List.all_takeWhile s hs)
  · exact (sameScope_eq_false kind).1 (start e he) here
  · have stops := List.head?_dropWhile_not (scope? · == some k) rest
    rw [Option.mem_def.1 hc] at stops
    simpa using stops

theorem isChain_of_opening_eq_nil (nothing : opening earlier body = [])
    (start : ∀ e ∈ earlier.head?, ∀ a ∈ body.head?, sameScope e a = false) :
    body.IsChain fun a b => sameScope a b = false := by
  induction body generalizing earlier with
  | nil => exact .nil
  | cons stmt rest ih =>
    have closed : ¬OpensRun ⟨earlier, stmt, rest⟩ := by
      intro opens
      rw [opening_cons_of_opensRun opens] at nothing
      cases nothing
    have apart : ∀ b ∈ rest.head?, sameScope stmt b = false := by
      intro b hb
      obtain ⟨more, rfl⟩ := List.head?_eq_some_iff.1 hb
      by_contra same
      exact closed (opensRun_of_sameScope (by simpa using same) (fun e he => start e he stmt rfl) more)
    rw [opening_cons_of_not closed] at nothing
    exact List.isChain_cons.2 ⟨apart, ih nothing (by simpa using apart)⟩

theorem merged_append (h : ∀ a ∈ earlier.getLast?, ∀ b ∈ later.head?, sameScope a b = false) :
    merged (earlier ++ later) = merged earlier ++ merged later := by
  rw [merged, List.splitBy_append h, List.map_append]
  rfl

theorem merged_of_isChain (h : body.IsChain fun a b => sameScope a b = false) : merged body = body := by
  induction body with
  | nil => rfl
  | cons stmt rest ih =>
    obtain ⟨apart, chain⟩ := List.isChain_cons.1 h
    have alone : merged [stmt] = [stmt] := congrArg (· :: []) (joined_singleton stmt)
    rw [← List.singleton_append, merged_append (by simpa using apart), alone, ih chain]

/-- Declarations of one kind become one. -/
theorem merged_of_same (same : ∀ s ∈ first :: rest, scope? s = some k) :
    merged (first :: rest) = [k.declare first.info ((first :: rest).flatMap declaredNames)] := by
  have chain : (first :: rest).IsChain fun a b => sameScope a b := by
    refine List.Pairwise.isChain (List.pairwise_of_forall_mem_list fun a ha b hb => ?_)
    exact sameScope_iff.2 ⟨k, same a ha, same b hb⟩
  rw [merged, List.splitBy_of_isChain (by simp) chain, List.map_singleton, joined_of_same same]

theorem MaximalRun.merged_eq (h : MaximalRun p k run behind) (hp : p ∈ places body) :
    merged body = merged p.earlier.reverse ++
      k.declare p.stmt.info (run.flatMap declaredNames) :: merged behind := by
  have here := h.scope?_stmt
  have front : ∀ a ∈ p.earlier.reverse.getLast?, ∀ b ∈ (p.stmt :: p.later).head?,
      sameScope a b = false := by
    intro a ha b hb
    rw [List.getLast?_reverse] at ha
    obtain rfl : p.stmt = b := by simpa using hb
    by_contra equal
    obtain ⟨l, before, within⟩ := sameScope_iff.1 (Bool.not_eq_false _ ▸ equal)
    exact h.start a ha (before.trans (within.symm.trans here))
  have back : ∀ a ∈ run.getLast?, ∀ b ∈ behind.head?, sameScope a b = false := by
    intro a ha b hb
    exact (sameScope_eq_false (h.same a (List.mem_of_mem_getLast? ha))).2 (h.stop b hb)
  rw [← mem_places_iff.1 hp, merged_append front, ← h.split, merged_append back]
  obtain ⟨second, more, rfl, -⟩ := h.exists_second
  rw [merged_of_same h.same, List.singleton_append]

open scoped Classical in
/-- In every block each maximal run is reported once, at its first declaration, in order, and nothing
else is. Joining each maximal run into one declaration with all its names, and changing nothing else,
leaves a block about which nothing is reported. -/
theorem declaration_runs_reported (env : Env) (i : Info) (body : List Node) :
    List.Forall₂ ReportsRun ((places body).filter fun p => OpensRun p)
        (declarations env ⟨i, .block body⟩) ∧
      (∀ p ∈ places body, ∀ k run behind, MaximalRun p k run behind →
        merged body = merged p.earlier.reverse ++
          k.declare p.stmt.info (run.flatMap declaredNames) :: merged behind) ∧
      ((∀ p ∈ places body, ¬OpensRun p) → merged body = body) ∧
      declarations env ⟨i, .block (merged body)⟩ = [] := by
  have reported (stmts : List Node) :
      List.Forall₂ ReportsRun (opening [] stmts) (declarations env ⟨i, .block stmts⟩) :=
    forall₂_declarationRuns (.nothing (by simp)) stmts
  refine ⟨reported body, fun p hp k run behind h => h.merged_eq hp, fun none => ?_, ?_⟩
  · have nothing : opening [] body = [] := List.filter_eq_nil_iff.2 (by simpa [places] using none)
    exact merged_of_isChain (isChain_of_opening_eq_nil nothing (by simp))
  · have nothing := reported (merged body)
    rw [opening_eq_nil_of_isChain (isChain_merged body)] at nothing
    exact List.forall₂_nil_left_iff.1 nothing

end IdiomLint.Rules.Assignments
