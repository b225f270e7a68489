import IdiomLint.Proofs.MethodChains

/-! Runs of statements that append to one list. A block is a stretch of statements that all append
to lists. The scan remembers until the end of a block that it has reported something, so it reports
the first run of each block and no other: two runs in one block are two lists that are appended to
right after one another. -/
namespace IdiomLint.Rules.Containers

open Finding MethodChains

def IsAppend (env : Env) (stmt : Node) : Prop := (appendedTo? env stmt).isSome

/-- Two statements append to lists that are taken to be the same. -/
def SameList (env : Env) (a b : Node) : Prop :=
  ∃ x y, appendedTo? env a = some x ∧ appendedTo? env b = some y ∧ y.equivalent x

/-- The statements of `run`, which start at a place, are a maximal run: two or more that pairwise
append to the same list, and no longer so together with the statement before or behind them. -/
structure MaximalRun (env : Env) (p : Place) (run behind : List Node) : Prop where
  split : run ++ behind = p.stmt :: p.later
  several : 2 ≤ run.length
  same : run.Pairwise (SameList env)
  start : ∀ a ∈ p.earlier.head?, ¬(a :: run).Pairwise (SameList env)
  stop : ∀ b ∈ behind.head?, ¬(run ++ [b]).Pairwise (SameList env)

def OpensRun (env : Env) (p : Place) : Prop := ∃ run behind, MaximalRun env p run behind

/-- A place stands before another one, with only appends between them. -/
def InBlockBefore (env : Env) (q p : Place) : Prop :=
  ∃ between, p.earlier = between ++ q.stmt :: q.earlier ∧
    q.later = between.reverse ++ p.stmt :: p.later ∧ ∀ s ∈ between, IsAppend env s

/-- A maximal run starts at a place, and none before it in the block. -/
def OpensFirstRun (env : Env) (p : Place) : Prop :=
  OpensRun env p ∧ ∀ q, InBlockBefore env q p → ¬OpensRun env q

/-- What is reported at the first statement of a run. It shows the list as the second one has it. -/
def runReport (env : Env) (p : Place) : Finding :=
  let x := ((p.later.head?.bind (appendedTo? env)).map Node.sourceText).getD ""
  startingAt p.stmt.span.line p.stmt.span.column
    (replacement (x ++ ".append(...); " ++ x ++ ".append(...)") (x ++ ".extend((..., ...))"))

variable {env : Env} {a b stmt prev : Node} {earlier later rest : List Node} {p q : Place}

theorem SameList.left (h : SameList env a b) : IsAppend env a := by
  obtain ⟨x, y, ha, -, -⟩ := h
  simp [IsAppend, ha]

theorem SameList.right (h : SameList env a b) : IsAppend env b := by
  obtain ⟨x, y, -, hb, -⟩ := h
  simp [IsAppend, hb]

def Pairs (env : Env) (p : Place) : Prop := ∃ next ∈ p.later.head?, SameList env p.stmt next

/-- Among the last statements that append to lists are two neighbours with the same list. The last
statement comes first. -/
inductive PairIn (env : Env) : List Node → Prop
  | here {a b : Node} {earlier : List Node} (same : SameList env a b) :
    PairIn env (b :: a :: earlier)
  | further {b : Node} {earlier : List Node} (append : IsAppend env b) (pair : PairIn env earlier) :
    PairIn env (b :: earlier)

theorem PairIn.isAppend (h : PairIn env (stmt :: earlier)) : IsAppend env stmt := by
  cases h with
  | here same => exact same.right
  | further append pair => exact append

theorem pairIn_cons_cons :
    PairIn env (stmt :: prev :: earlier) ↔
      SameList env prev stmt ∨ (IsAppend env stmt ∧ PairIn env (prev :: earlier)) := by
  constructor
  · rintro (same | ⟨append, pair⟩)
    · exact .inl same
    · exact .inr ⟨append, pair⟩
  · rintro (same | ⟨append, pair⟩)
    · exact .here same
    · exact .further append pair

theorem PairIn.append {between : List Node} (appends : ∀ s ∈ between, IsAppend env s)
    (h : PairIn env earlier) : PairIn env (between ++ earlier) := by
  induction between with
  | nil => exact h
  | cons s between ih =>
    obtain ⟨append, appends⟩ := List.forall_mem_cons.1 appends
    exact .further append (ih appends)

/-- A place that pairs with the next one, the first of its block to do so. -/
def FirstPair (env : Env) (p : Place) : Prop := Pairs env p ∧ ¬PairIn env (p.stmt :: p.earlier)

structure Knows (env : Env) (run : AppendRun) (prev : Node) (earlier : List Node) : Prop where
  last : run.last = (appendedTo? env prev).map fun x => (prev.span, x)
  reported : run.reported = true ↔ PairIn env (prev :: earlier)

theorem sameList_iff {x y : Node} (ha : appendedTo? env a = some x)
    (hb : appendedTo? env b = some y) : SameList env a b ↔ y.equivalent x := by
  simp [SameList, ha, hb]

theorem knows_first (stmt : Node) :
    Knows env ⟨(appendedTo? env stmt).map fun x => (stmt.span, x), false⟩ stmt [] := by
  refine ⟨rfl, ?_⟩
  constructor
  · simp
  · rintro (_ | ⟨append, ⟨⟩⟩)

open scoped Classical in
/-- One statement: it is looked at together with the one before. -/
theorem exists_appendRuns_cons {run : AppendRun} (knows : Knows env run prev earlier) (stmt : Node)
    (rest : List Node) :
    ∃ next, Knows env next stmt (prev :: earlier) ∧
      appendRuns env run (stmt :: rest) =
        (if FirstPair env ⟨earlier, prev, stmt :: rest⟩ then
          [runReport env ⟨earlier, prev, stmt :: rest⟩] else []) ++ appendRuns env next rest := by
  obtain ⟨last, reported⟩ := knows
  have pairs : Pairs env ⟨earlier, prev, stmt :: rest⟩ ↔ SameList env prev stmt := by
    simp [Pairs]
  rw [FirstPair, pairs, appendRuns]
  cases hs : appendedTo? env stmt with
  | none =>
    have other : ¬IsAppend env stmt := by simp [IsAppend, hs]
    refine ⟨{}, ⟨by simp [hs], ?_⟩, ?_⟩
    · simpa using fun pair => other (PairIn.isAppend pair)
    · rw [if_neg fun h => other h.1.right]
      rfl
  | some base =>
    have append : IsAppend env stmt := by simp [IsAppend, hs]
    cases hp : appendedTo? env prev with
    | none =>
      have other : ¬IsAppend env prev := by simp [IsAppend, hp]
      have unequal : ¬SameList env prev stmt := fun same => other same.left
      rw [hp] at last
      refine ⟨⟨some (stmt.span, base), run.reported⟩, ⟨by simp [hs], ?_⟩, ?_⟩
      · rw [reported, pairIn_cons_cons]
        simp [unequal, append]
      · rw [if_neg fun h => unequal h.1]
        simp [last]
    | some previous =>
      rw [hp] at last
      have same := sameList_iff hp hs
      simp only [last, Option.map_some]
      -- the pair is reported unless one before it in the block was
      by_cases first : SameList env prev stmt ∧ ¬PairIn env (prev :: earlier)
      · have open_ : run.reported = false := by simpa [← reported] using first.2
        refine ⟨⟨some (stmt.span, base), true⟩, ⟨by simp [hs], ?_⟩, ?_⟩
        · simp [pairIn_cons_cons, first.1]
        · rw [if_pos first, if_pos (by simp [open_, same.1 first.1])]
          simp [runReport, hs]
      · refine ⟨⟨some (stmt.span, base), run.reported⟩, ⟨by simp [hs], ?_⟩, ?_⟩
        · rw [reported, pairIn_cons_cons]
          constructor
          · exact fun pair => .inr ⟨append, pair⟩
          · rintro (same | ⟨-, pair⟩)
            · exact Classical.byContradiction fun before => first ⟨same, before⟩
            · exact pair
        · have idle : ¬(!run.reported && base.equivalent previous) = true := by
            simpa [← same, ← reported, and_comm] using first
          rw [if_neg first, if_neg idle]
          rfl

open scoped Classical in
theorem appendRuns_eq {run : AppendRun} {stmts : List Node} (knows : Knows env run prev earlier) :
    appendRuns env run stmts = ((placesFrom earlier (prev :: stmts)).filter fun p =>
      FirstPair env p).map (runReport env) := by
  induction stmts generalizing run prev earlier with
  | nil => simp [appendRuns, placesFrom, FirstPair, Pairs]
  | cons stmt rest ih =>
    obtain ⟨next, knows', step⟩ := exists_appendRuns_cons knows stmt rest
    have unfolded : placesFrom earlier (prev :: stmt :: rest) =
        ⟨earlier, prev, stmt :: rest⟩ :: placesFrom (prev :: earlier) (stmt :: rest) := rfl
    rw [step, ih knows', unfolded, List.filter_cons]
    by_cases first : FirstPair env ⟨earlier, prev, stmt :: rest⟩
    · simp [first]
    · simp [first]

open scoped Classical in
/-- Each block is reported at its first pair. -/
theorem extend_eq (env : Env) (n : Node) :
    extend env n = ((places (n.statementList?.getD [])).filter fun p =>
      FirstPair env p).map (runReport env) := by
  rw [extend]
  cases n.statementList?.getD [] with
  | nil => rfl
  | cons stmt rest =>
    have started : appendRuns env {} (stmt :: rest) =
        appendRuns env ⟨(appendedTo? env stmt).map fun x => (stmt.span, x), false⟩ rest := by
      rw [appendRuns]
      cases appendedTo? env stmt <;> rfl
    rw [started, appendRuns_eq (knows_first stmt), places]

/-- A list that is pairwise related is continued as far as it goes. -/
theorem exists_longest {α : Type} {R : α → α → Prop} {xs : List α} (h : xs.Pairwise R)
    (rest : List α) : ∃ ys zs, ys ++ zs = rest ∧ (xs ++ ys).Pairwise R ∧
      ∀ b ∈ zs.head?, ¬(xs ++ ys ++ [b]).Pairwise R := by
  induction rest generalizing xs with
  | nil => exact ⟨[], [], rfl, by simpa using h, by simp⟩
  | cons b rest ih =>
    by_cases longer : (xs ++ [b]).Pairwise R
    · obtain ⟨ys, zs, rfl, same, stop⟩ := ih longer
      refine ⟨b :: ys, zs, rfl, by simpa using same, fun c hc => ?_⟩
      simpa using stop c hc
    · exact ⟨[], b :: rest, rfl, by simpa using h, by simpa using longer⟩

theorem pairs_of_opensRun (h : OpensRun env p) : Pairs env p := by
  obtain ⟨run, behind, split, several, same, -, -⟩ := h
  rcases run with _ | ⟨a, _ | ⟨b, run⟩⟩
  · simp at several
  · simp at several
  obtain ⟨rfl, later⟩ := List.cons.inj split
  refine ⟨b, ?_, (List.pairwise_cons.1 same).1 b List.mem_cons_self⟩
  rw [← later]
  rfl

/-- A run starts at the first pair of a block. -/
theorem opensRun_of_firstPair (h : FirstPair env p) : OpensRun env p := by
  obtain ⟨⟨next, hnext, same⟩, first⟩ := h
  obtain ⟨rest, later⟩ := List.head?_eq_some_iff.1 hnext
  have pair : [p.stmt, next].Pairwise (SameList env) := by simpa using same
  obtain ⟨ys, zs, split, pairwise, stop⟩ := exists_longest pair rest
  refine ⟨[p.stmt, next] ++ ys, zs, ?_, by simp, pairwise, ?_, stop⟩
  · rw [List.append_assoc, split, later]
    rfl
  · intro a ha extended
    obtain ⟨before, earlier⟩ := List.head?_eq_some_iff.1 ha
    have joined : SameList env a p.stmt := (List.pairwise_cons.1 extended).1 p.stmt (by simp)
    exact first (earlier ▸ .here joined)

/-- A pair before a place in its block. -/
theorem pairIn_of_inBlockBefore (pairs : Pairs env q) (before : InBlockBefore env q p)
    (append : IsAppend env p.stmt) : PairIn env (p.stmt :: p.earlier) := by
  obtain ⟨next, hnext, same⟩ := pairs
  obtain ⟨between, earlier, later, appends⟩ := before
  rw [earlier, ← List.cons_append]
  -- the statement that makes the pair is the last one in reverse order, or `p` itself
  rcases List.eq_nil_or_concat' between with rfl | ⟨front, last, rfl⟩
  · obtain rfl : p.stmt = next := by simpa [later] using hnext
    exact .here same
  · obtain rfl : last = next := by simpa [later] using hnext
    have inFront : ∀ s ∈ p.stmt :: front, IsAppend env s := by
      simp only [List.forall_mem_append] at appends
      exact List.forall_mem_cons.2 ⟨append, appends.1⟩
    rw [← List.cons_append, List.append_assoc]
    exact PairIn.append inFront (.here same)

/-- A block with a pair has a first one. -/
theorem exists_firstPair (pair : PairIn env (stmt :: earlier)) (later : List Node) :
    ∃ q, FirstPair env q ∧ InBlockBefore env q ⟨earlier, stmt, later⟩ := by
  induction earlier generalizing stmt later with
  | nil =>
    cases pair with
    | further append pair => cases pair
  | cons prev earlier ih =>
    by_cases before : PairIn env (prev :: earlier)
    · obtain ⟨q, first, between, passed, reached, appends⟩ := ih before (stmt :: later)
      refine ⟨q, first, prev :: between, congrArg _ passed, ?_, ?_⟩
      · simpa using reached
      · exact List.forall_mem_cons.2 ⟨before.isAppend, appends⟩
    · have same := (pairIn_cons_cons.1 pair).resolve_right fun h => before h.2
      exact ⟨⟨earlier, prev, stmt :: later⟩, ⟨⟨stmt, rfl, same⟩, before⟩, [], rfl, rfl, by simp⟩

/-- The first pair of a block is where its first run starts. -/
theorem firstPair_iff : FirstPair env p ↔ OpensFirstRun env p := by
  constructor
  · intro h
    have append : IsAppend env p.stmt := by
      obtain ⟨⟨next, -, same⟩, -⟩ := h
      exact same.left
    refine ⟨opensRun_of_firstPair h, fun q before opens => ?_⟩
    exact h.2 (pairIn_of_inBlockBefore (pairs_of_opensRun opens) before append)
  · rintro ⟨opens, first⟩
    refine ⟨pairs_of_opensRun opens, fun pair => ?_⟩
    obtain ⟨q, firstPair, before⟩ := exists_firstPair pair p.later
    exact first q before (opensRun_of_firstPair firstPair)

theorem mem_places_of_inBlockBefore {stmts : List Node} (hp : p ∈ places stmts)
    (before : InBlockBefore env q p) : q ∈ places stmts := by
  obtain ⟨between, earlier, later, -⟩ := before
  rw [mem_places_iff] at hp ⊢
  rw [← hp, earlier, later]
  simp

open scoped Classical in
/-- Of the maximal runs of a statement list the first of each block is reported, once and at its
first statement, and nothing else is. All maximal runs are reported exactly if no block has two. -/
theorem first_runs_reported (env : Env) (n : Node) :
    extend env n = ((places (n.statementList?.getD [])).filter fun p =>
      OpensFirstRun env p).map (runReport env) ∧
    (extend env n = ((places (n.statementList?.getD [])).filter fun p =>
        OpensRun env p).map (runReport env) ↔
      ∀ p ∈ places (n.statementList?.getD []), ∀ q ∈ places (n.statementList?.getD []),
        OpensRun env p → OpensRun env q → ¬InBlockBefore env q p) := by
  have first : extend env n = ((places (n.statementList?.getD [])).filter fun p =>
      OpensFirstRun env p).map (runReport env) := by
    rw [extend_eq]
    exact congrArg _ (List.filter_congr fun p _ => decide_eq_decide.2 firstPair_iff)
  refine ⟨first, ?_⟩
  rw [first]
  constructor
  · intro all p hp q hq opens opens' before
    have fewer := List.monotone_filter_right (places (n.statementList?.getD []))
      (p := fun p => decide (OpensFirstRun env p)) (q := fun p => decide (OpensRun env p))
      fun p h => by simpa using (of_decide_eq_true h).1
    have equal := fewer.eq_of_length (by simpa using congrArg List.length all)
    have found : p ∈ (places (n.statementList?.getD [])).filter fun p => OpensRun env p := by
      simpa using ⟨hp, opens⟩
    rw [← equal, List.mem_filter] at found
    exact (of_decide_eq_true found.2).2 q before opens'
  · intro apart
    refine congrArg _ (List.filter_congr fun p hp => decide_eq_decide.2 ?_)
    refine ⟨And.left, fun opens => ⟨opens, fun q before opens' => ?_⟩⟩
    exact apart p hp q (mem_places_of_inBlockBefore hp before) opens opens' before

def twoLists : Env where
  table := ⟨((∅ : Std.HashMap SymbolId Symbol).insert "x"
    (.value (some (.inst ⟨"list", "builtins.list"⟩ [])))).insert "y"
      (.value (some (.inst ⟨"list", "builtins.list"⟩ []))), ∅⟩
  version := ⟨3, 10⟩
  files := []

def appendAt (line : Int) (name : String) : Node :=
  ⟨⟨default, ⟨line, 0, none, none⟩⟩, .expression ⟨default, .call
    ⟨default, .member (variableNamed name) ⟨"append", "", none, false⟩⟩
      [⟨⟨default, .int 1⟩, .pos, none⟩] none⟩⟩

theorem appendedTo?_appendAt {name : String} (known : name = "x" ∨ name = "y") (line : Int) :
    appendedTo? twoLists (appendAt line name) = some (variableNamed name) := by
  have value : twoLists.table.get name = .value (some (.inst ⟨"list", "builtins.list"⟩ [])) := by
    rcases known with rfl | rfl
    · simp [twoLists, SymbolTable.get, Std.HashMap.getD_insert]
    · simp [twoLists, SymbolTable.get]
  have type : twoLists.typeOf (variableNamed name) =
      some (.type (.inst ⟨"list", "builtins.list"⟩ [])) := by
    change twoLists.table.entity name = _
    rw [SymbolTable.entity, value]
    rfl
  have list : twoLists.isList (variableNamed name) := by
    rw [Env.isList, Env.hasType, type, SymbolTable.hasAnyType]
    simp only [List.any_cons, List.any_nil, SymbolTable.hasType]
    decide +kernel
  exact if_pos (by simp [list])

theorem sameList_appendAt {a b : String} (ha : a = "x" ∨ a = "y") (hb : b = "x" ∨ b = "y")
    (i j : Int) : SameList twoLists (appendAt i a) (appendAt j b) ↔ a = b := by
  rw [sameList_iff (appendedTo?_appendAt ha i) (appendedTo?_appendAt hb j)]
  rcases ha with rfl | rfl <;> rcases hb with rfl | rfl <;> decide +kernel

/-- The appends to `y` come right after those to `x`, and nobody hears of them. -/
theorem second_run_unreported :
    let first : Place := ⟨[], appendAt 1 "x", [appendAt 2 "x", appendAt 3 "y", appendAt 4 "y"]⟩
    let second : Place := ⟨[appendAt 2 "x", appendAt 1 "x"], appendAt 3 "y", [appendAt 4 "y"]⟩
    let block : Node := ⟨default, .block (first.stmt :: first.later)⟩
    second ∈ places (first.stmt :: first.later) ∧ OpensRun twoLists first ∧
      OpensRun twoLists second ∧ extend twoLists block = [runReport twoLists first] := by
  intro first second block
  have xs : MaximalRun twoLists first [appendAt 1 "x", appendAt 2 "x"]
      [appendAt 3 "y", appendAt 4 "y"] :=
    ⟨rfl, Nat.le_refl 2, by simp [sameList_appendAt], by simp [first], by simp [sameList_appendAt]⟩
  have ys : MaximalRun twoLists second [appendAt 3 "y", appendAt 4 "y"] [] :=
    ⟨rfl, Nat.le_refl 2, by simp [sameList_appendAt], by simp [second, sameList_appendAt], by simp⟩
  refine ⟨mem_places_iff.2 rfl, ⟨_, _, xs⟩, ⟨_, _, ys⟩, ?_⟩
  have changed : (variableNamed "y").equivalent (variableNamed "x") = false := by decide +kernel
  have kept : (variableNamed "x").equivalent (variableNamed "x") = true := by decide +kernel
  simp [extend, block, first, Node.statementList?, appendRuns, appendedTo?_appendAt, runReport,
    changed, kept]

end IdiomLint.Rules.Containers
