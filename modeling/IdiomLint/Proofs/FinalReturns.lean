import IdiomLint.Proofs.RedundantJumps

/-! Returns that leave the last branch. The return that is found in the last branch of a statement
can stand after the statement instead, and its branch be taken out, if no case on the way to it has
a guard. Where one has, the function may fall off its end, and so may not return the value. -/
namespace IdiomLint

open Rules.ControlFlow

namespace Node

mutual

/-- A statement without the branch that its final return is in; nothing of the return itself. -/
def withoutFinal : Node → Option Node
  | ⟨_, .returnStmt _⟩ => none
  | ⟨i, .matching subject cases⟩ => some ⟨i, .matching subject (casesWithoutFinal cases)⟩
  | ⟨i, .ifElse branches (some ⟨j, .block [stmt]⟩)⟩ =>
    some ⟨i, .ifElse branches ((withoutFinal stmt).map fun s => ⟨j, .block [s]⟩)⟩
  | n => some n

def casesWithoutFinal : List (MatchCase Node) → List (MatchCase Node)
  | [] => []
  | [⟨pattern, guard, ⟨j, .block [stmt]⟩⟩] =>
    (withoutFinal stmt).toList.map fun s => ⟨pattern, guard, ⟨j, .block [s]⟩⟩
  | c :: rest => c :: casesWithoutFinal rest

end

mutual

/-- The guards of the cases on the way to the final return. -/
def finalGuards : Node → List Node
  | ⟨_, .matching _ cases⟩ => caseFinalGuards cases
  | ⟨_, .ifElse _ (some ⟨_, .block [stmt]⟩)⟩ => finalGuards stmt
  | _ => []

def caseFinalGuards : List (MatchCase Node) → List Node
  | [] => []
  | [⟨_, guard, ⟨_, .block [stmt]⟩⟩] => guard.toList ++ finalGuards stmt
  | _ :: rest => caseFinalGuards rest

end

section

variable (i j : Info) (subject pattern : Node) (guard : Option Node) (stmt : Node)
  (before : List (MatchCase Node))

/-- Only the last case is looked at. -/
theorem cases_append (last : MatchCase Node) :
    casesWithoutFinal (before ++ [last]) = before ++ casesWithoutFinal [last] ∧
      caseFinalGuards (before ++ [last]) = caseFinalGuards [last] := by
  induction before with
  | nil => exact ⟨rfl, rfl⟩
  | cons c before ih =>
    obtain ⟨next, rest, more⟩ := List.exists_cons_of_ne_nil (List.concat_ne_nil last before)
    rw [List.cons_append, List.cons_append, ← ih.1, ← ih.2, more]
    obtain ⟨pattern, guard, ⟨j, shape⟩⟩ := c
    cases shape with
    | block body => rcases body with _ | ⟨_, _ | _⟩ <;> exact ⟨rfl, rfl⟩
    | _ => exact ⟨rfl, rfl⟩

theorem casesWithoutFinal_singleton :
    casesWithoutFinal [⟨pattern, guard, ⟨j, .block [stmt]⟩⟩] =
      stmt.withoutFinal.toList.map fun s => ⟨pattern, guard, ⟨j, .block [s]⟩⟩ := rfl

theorem withoutFinal_matching (last : MatchCase Node) :
    withoutFinal ⟨i, .matching subject (before ++ [last])⟩ =
      some ⟨i, .matching subject (before ++ casesWithoutFinal [last])⟩ := by
  rw [← (cases_append before last).1]
  rfl

theorem finalGuards_matching :
    finalGuards ⟨i, .matching subject (before ++ [⟨pattern, guard, ⟨j, .block [stmt]⟩⟩])⟩ =
      guard.toList ++ stmt.finalGuards :=
  (cases_append before _).2

end

/-- In no `match` of a tree does a case that takes everything come before another, as the language
demands. -/
def WildcardsLast (n : Node) : Prop :=
  ∀ inner : Node, inner.Within n → ∀ i subject cases, inner = ⟨i, .matching subject cases⟩ →
    ∀ c ∈ cases.dropLast, isWildcard c.pattern → c.guard ≠ none

theorem WildcardsLast.child {n c : Node} (h : n.WildcardsLast)
    (hc : c ∈ n.children .calleeFirst) : c.WildcardsLast :=
  fun inner within => h inner (.deeper hc within)

end Node

namespace Rules.ControlFlow

theorem endsWithReturn_of_allReturn {cases : List (MatchCase Node)}
    (h : allReturn cases = .ok true) : ∀ c ∈ cases, endsWithReturn c.body = .ok true := by
  induction cases with
  | nil => simp
  | cons c rest ih =>
    rw [allReturn] at h
    cases here : endsWithReturn c.body with
    | error f => rw [here] at h; cases h
    | ok returns =>
      rw [here] at h
      cases returns with
      | false => cases h
      | true => exact List.forall_mem_cons.2 ⟨here, ih h⟩

/-- A statement, and the return in its last branch; all other branches end with a return. -/
inductive FinalReturn : Node → Node → Prop where
  | self (i : Info) (value : Node) :
      FinalReturn ⟨i, .returnStmt (some value)⟩ ⟨i, .returnStmt (some value)⟩
  | orElse (i j : Info) (condition : Node) {body last stmt ret : Node} :
      (body.blockBody?.getD []).getLast? = some last → isReturn last → FinalReturn stmt ret →
      FinalReturn ⟨i, .ifElse [(condition, body)] (some ⟨j, .block [stmt]⟩)⟩ ret
  | lastCase (i j : Info) (subject : Node) {pattern stmt ret : Node} (guard : Option Node)
      {before : List (MatchCase Node)} :
      isWildcard pattern → (∀ c ∈ before, endsWithReturn c.body = .ok true) →
      FinalReturn stmt ret →
      FinalReturn ⟨i, .matching subject (before ++ [⟨pattern, guard, ⟨j, .block [stmt]⟩⟩])⟩ ret

/-- What the search finds, in a statement and in the cases of a `match` from one on. -/
theorem finalReturn_of_search :
    (∀ n ret, finalReturn? n = .ok (some ret) → FinalReturn n ret) ∧
    (∀ all cases : List (MatchCase Node), ∀ ret, finalCase? all cases = .ok (some ret) →
      allReturn all.dropLast = .ok true ∧ ∃ before pattern guard j stmt,
        cases = before ++ [⟨pattern, guard, ⟨j, .block [stmt]⟩⟩] ∧ isWildcard pattern ∧
        FinalReturn stmt ret) := by
  apply finalReturn?.mutual_induct
  case case1 =>
    intro i value ret h
    rw [finalReturn?] at h
    split at h
    · cases h
      exact .self i value
    · cases h
  case case2 =>
    intro i subject cases ih ret h
    rw [finalReturn?] at h
    obtain ⟨returns, before, pattern, guard, j, stmt, rfl, wildcard, inside⟩ := ih ret h
    rw [List.dropLast_concat] at returns
    exact .lastCase i j subject guard wildcard (endsWithReturn_of_allReturn returns) inside
  case case3 =>
    intro i condition body j stmt last hl returns ih ret h
    simp only [finalReturn?, hl, returns, if_true] at h
    exact .orElse i j condition hl returns (ih ret h)
  case case4 =>
    intro i condition body j stmt last hl goesOn ret h
    simp [finalReturn?, hl, goesOn] at h
  case case5 =>
    intro i condition body j stmt hl ret h
    simp [finalReturn?, hl] at h
  case case6 =>
    intro n h1 h2 h3 ret h
    rw [finalReturn?.eq_4 n h1 h2 h3] at h
    cases h
  case case7 =>
    intro all ret h
    cases h
  case case8 =>
    intro all pattern guard j stmt wildcard ih ret h
    simp only [finalCase?, wildcard, if_true] at h
    cases others : allReturn all.dropLast with
    | error f => rw [others] at h; cases h
    | ok returns =>
      rw [others] at h
      cases returns with
      | false => cases h
      | true => exact ⟨rfl, [], pattern, guard, j, stmt, rfl, wildcard, ih ret h⟩
  case case9 =>
    intro all pattern guard j stmt binds ret h
    simp [finalCase?, binds] at h
  case case10 =>
    intro all c rest other ih ret h
    rw [finalCase?.eq_3 all c rest other] at h
    obtain ⟨returns, before, pattern, guard, j, stmt, rfl, wildcard, inside⟩ := ih ret h
    exact ⟨returns, c :: before, pattern, guard, j, stmt, rfl, wildcard, inside⟩

end Rules.ControlFlow

namespace Meaning

variable {m : Type → Type} [Monad m] {Value Error Manager Iterator : Type}

/-- A wildcard takes every value and does nothing else. -/
def TakesWildcards (I : Meaning m Value Error Manager Iterator) : Prop :=
  ∀ v pattern, isWildcard pattern → I.takes v pattern = pure (.ok true)

/-- Nothing that comes after this is run. -/
def Ends (x : m (Outcome Value Error)) : Prop := ∀ rest, x >>= andThen rest = x

variable [LawfulMonad m]

theorem orRaise_andThen {α : Type} (act : m (Except Error α)) (x : α → m (Outcome Value Error))
    (rest : m (Outcome Value Error)) :
    orRaise act x >>= andThen rest = orRaise act fun a => x a >>= andThen rest := by
  simp only [orRaise, bind_assoc]
  congr 1
  funext r
  cases r with
  | ok a => rfl
  | error e => simp [andThen]

theorem andThen_assoc (x y z : m (Outcome Value Error)) :
    x >>= andThen y >>= andThen z = x >>= andThen (y >>= andThen z) := by
  rw [bind_assoc]
  congr 1
  funext o
  cases o <;> simp [andThen]

theorem ends_pure {o : Outcome Value Error} (h : o ≠ .normal) : Ends (m := m) (pure o) := by
  intro rest
  cases o with
  | normal => exact absurd rfl h
  | _ => simp [andThen]

theorem Ends.orRaise {α : Type} {act : m (Except Error α)} {x : α → m (Outcome Value Error)}
    (h : ∀ a, Ends (x a)) : Ends (orRaise act x) := by
  intro rest
  rw [orRaise_andThen]
  congr 1
  funext a
  exact h a rest

theorem Ends.andThen {y : m (Outcome Value Error)} (h : Ends y) (x : m (Outcome Value Error)) :
    Ends (x >>= Meaning.andThen y) := by
  intro rest
  rw [andThen_assoc, h rest]

variable (I : Meaning m Value Error Manager Iterator)

theorem ends_exec_return {stmt : Node} (h : isReturn stmt) : Ends (I.exec stmt) := by
  obtain ⟨i, shape⟩ := stmt
  cases shape with
  | returnStmt value =>
    cases value with
    | none => exact ends_pure (by simp)
    | some value => exact .orRaise fun v => ends_pure (by simp)
  | _ => cases h

theorem ends_execAll {body : List Node} {last : Node} (hl : body.getLast? = some last)
    (h : isReturn last) : Ends (I.execAll body) := by
  induction body with
  | nil => cases hl
  | cons stmt rest ih =>
    cases rest with
    | nil =>
      cases hl
      rw [execAll_singleton]
      exact I.ends_exec_return h
    | cons next rest =>
      rw [List.getLast?_cons_cons] at hl
      exact (ih hl).andThen _

/-- A block that ends with a return does not end normally. -/
theorem ends_exec_block {block last : Node} (hl : (block.blockBody?.getD []).getLast? = some last)
    (h : isReturn last) : Ends (I.exec block) := by
  obtain ⟨i, shape⟩ := block
  cases shape with
  | block body => exact I.ends_execAll hl h
  | _ => cases hl

theorem ends_of_endsWithReturn {block : Node} (h : endsWithReturn block = .ok true) :
    Ends (I.exec block) := by
  unfold endsWithReturn at h
  split at h
  case h_1 last hl => exact I.ends_exec_block hl (by simpa using h)
  case h_2 => cases h

theorem execAll_append (body more : List Node) :
    I.execAll (body ++ more) = I.execAll body >>= andThen (I.execAll more) := by
  induction body with
  | nil => simp [execAll, andThen]
  | cons stmt rest ih => simp only [List.cons_append, execAll, ih, andThen_assoc]

omit [LawfulMonad m] in
theorem exec_block (i : Info) (body : List Node) : I.exec ⟨i, .block body⟩ = I.execAll body := rfl

theorem exec_block_singleton (i : Info) (stmt : Node) :
    I.exec ⟨i, .block [stmt]⟩ = I.exec stmt := I.execAll_singleton stmt

theorem execOptional_map_block (i : Info) (stmt : Option Node) :
    I.execOptional (stmt.map fun s => ⟨i, .block [s]⟩) = I.execOptional stmt := by
  cases stmt with
  | none => rfl
  | some s => exact I.exec_block_singleton i s

theorem execAll_toList (stmt : Option Node) : I.execAll stmt.toList = I.execOptional stmt := by
  cases stmt with
  | none => rfl
  | some s => exact I.execAll_singleton s

/-- Cases whose bodies do not end normally, before a case that is split in two. -/
theorem execCases_append_of_ends {v : Value} {before last last' : List (MatchCase Node)}
    {after : m (Outcome Value Error)} (ends : ∀ c ∈ before, Ends (I.exec c.body))
    (h : I.execCases v last = I.execCases v last' >>= andThen after) :
    I.execCases v (before ++ last) = I.execCases v (before ++ last') >>= andThen after := by
  induction before with
  | nil => exact h
  | cons c before ih =>
    obtain ⟨here, below⟩ := List.forall_mem_cons.1 ends
    have rest := ih below
    obtain ⟨pattern, guard, body⟩ := c
    simp only [List.cons_append, execCases, orRaise_andThen]
    congr 1
    funext taken
    cases taken with
    | false => exact rest
    | true =>
      simp only [if_true, orRaise_andThen]
      congr 1
      funext holds
      cases holds with
      | false => exact rest
      | true => exact (here after).symm

variable {I} in
theorem TakesWildcards.execCases_singleton (wildcards : I.TakesWildcards) {pattern : Node}
    (wildcard : isWildcard pattern) (v : Value) (body : Node) :
    I.execCases v [⟨pattern, none, body⟩] = I.exec body := by
  simp [execCases, orRaise, wildcards v pattern wildcard, guardHolds]

/-- The last case as a case for what it holds without the final return. -/
theorem execCases_withoutFinal (wildcards : I.TakesWildcards) {pattern : Node}
    (wildcard : isWildcard pattern) (v : Value) (j : Info) (stmt : Node) :
    I.execCases v (Node.casesWithoutFinal [⟨pattern, none, ⟨j, .block [stmt]⟩⟩]) =
      I.execOptional stmt.withoutFinal := by
  rw [Node.casesWithoutFinal_singleton]
  cases stmt.withoutFinal with
  | none => rfl
  | some s =>
    rw [Option.toList_some, List.map_singleton, wildcards.execCases_singleton wildcard]
    exact I.exec_block_singleton j s

/-- Without guards on the way, a statement is itself without its final return, and then the
return. -/
theorem exec_withoutFinal (wildcards : I.TakesWildcards) {n ret : Node} (h : FinalReturn n ret)
    (unguarded : n.finalGuards = []) :
    I.exec n = I.execOptional n.withoutFinal >>= andThen (I.exec ret) := by
  induction h with
  | self i value =>
    change _ = pure .normal >>= andThen _
    rw [pure_bind]
    rfl
  | @orElse i j condition body last stmt ret hl returns _ ih =>
    have branch := I.ends_exec_block hl returns
    have orElse := ih unguarded
    change orRaise (I.test condition) _ = orRaise (I.test condition) _ >>= _
    rw [orRaise_andThen]
    congr 1
    funext holds
    cases holds with
    | true => exact (branch (I.exec ret)).symm
    | false =>
      change I.exec ⟨j, .block [stmt]⟩ = I.execOptional (stmt.withoutFinal.map _) >>= _
      rw [exec_block_singleton, execOptional_map_block]
      exact orElse
  | @lastCase i j subject pattern stmt ret guard before wildcard returns _ ih =>
    obtain ⟨rfl, inStmt⟩ : guard = none ∧ stmt.finalGuards = [] := by
      simpa [Node.finalGuards_matching] using unguarded
    have last (v : Value) : I.execCases v [⟨pattern, none, ⟨j, .block [stmt]⟩⟩] =
        I.execCases v (Node.casesWithoutFinal [⟨pattern, none, ⟨j, .block [stmt]⟩⟩]) >>=
          andThen (I.exec ret) := by
      rw [wildcards.execCases_singleton wildcard, I.execCases_withoutFinal wildcards wildcard,
        exec_block_singleton]
      exact ih inStmt
    have ends (c : MatchCase Node) (hc : c ∈ before) : Ends (I.exec c.body) :=
      I.ends_of_endsWithReturn (returns c hc)
    rw [Node.withoutFinal_matching]
    change orRaise (I.value subject) _ = orRaise (I.value subject) _ >>= _
    rw [orRaise_andThen]
    congr 1
    funext v
    exact I.execCases_append_of_ends ends (last v)

/-- No condition holds, and a value is taken by wildcards only. A bare return gives another value
than all others. -/
def falling : Meaning Id Bool Unit Unit Unit where
  nothing := false
  value _ := .ok true
  test _ := .ok false
  takes _ pattern := .ok (isWildcard pattern)
  enter _ _ := .ok ()
  bind _ _ := .ok ()
  leave _ _ := .ok false
  iterate _ _ := .ok ()
  advance _ _ := .ok false
  other _ := .normal

theorem falling_takesWildcards : falling.TakesWildcards := by
  intro v pattern wildcard
  change Except.ok (isWildcard pattern) = _
  rw [wildcard]
  rfl

/-- Cases that do not take everything are passed over. -/
theorem falling_execCases_append {v : Bool} {before rest : List (MatchCase Node)}
    (narrow : ∀ c ∈ before, isWildcard c.pattern → c.guard ≠ none) :
    falling.execCases v (before ++ rest) = falling.execCases v rest := by
  induction before with
  | nil => rfl
  | cons c before ih =>
    obtain ⟨here, below⟩ := List.forall_mem_cons.1 narrow
    obtain ⟨pattern, guard, body⟩ := c
    rw [← ih below]
    change (if isWildcard pattern = true then _ else _) = _
    split
    case isFalse => rfl
    case isTrue wildcard =>
      cases guard with
      | none => exact absurd rfl (here wildcard)
      | some guard => rfl

/-- A run that gets as far as it can goes past a statement without its final return, and past the
statement itself if there is a guard on the way. -/
theorem falling_exec {n ret : Node} (h : FinalReturn n ret) (last : n.WildcardsLast) :
    falling.exec ret = .returned true ∧ falling.execOptional n.withoutFinal = .normal ∧
      (n.finalGuards ≠ [] → falling.exec n = .normal) := by
  induction h with
  | self i value => exact ⟨rfl, rfl, fun guarded => absurd rfl guarded⟩
  | @orElse i j condition body _ stmt ret hl returns _ ih =>
    have orElse : Node.WildcardsLast ⟨j, .block [stmt]⟩ := last.child (by simp [Node.children])
    obtain ⟨value, rest, whole⟩ := ih (orElse.child List.mem_cons_self)
    refine ⟨value, ?_, fun guarded => ?_⟩
    · exact (falling.execOptional_map_block j stmt.withoutFinal).trans rest
    · exact (falling.exec_block_singleton j stmt).trans (whole guarded)
  | @lastCase i j subject pattern stmt ret guard before wildcard returns _ ih =>
    have narrow : ∀ c ∈ before, isWildcard c.pattern → c.guard ≠ none := by
      simpa using last _ (.refl _) i subject _ rfl
    have block : Node.WildcardsLast ⟨j, .block [stmt]⟩ := by
      refine last.child ?_
      simp [Node.children, MatchCase.parts]
    obtain ⟨value, rest, whole⟩ := ih (block.child List.mem_cons_self)
    refine ⟨value, ?_, fun guarded => ?_⟩
    · have passed : falling.execCases true (before ++ Node.casesWithoutFinal
          [⟨pattern, guard, ⟨j, .block [stmt]⟩⟩]) = .normal := by
        rw [falling_execCases_append narrow]
        cases guard with
        | none => rw [falling.execCases_withoutFinal falling_takesWildcards wildcard, rest]
        | some g =>
          rw [Node.casesWithoutFinal_singleton, ← List.append_nil (List.map _ _)]
          refine falling_execCases_append fun c hc => ?_
          obtain ⟨s, -, rfl⟩ := List.mem_map.1 hc
          simp
      rw [Node.withoutFinal_matching]
      exact passed
    · have passed : falling.execCases true (before ++ [⟨pattern, guard, ⟨j, .block [stmt]⟩⟩]) =
          .normal := by
        rw [falling_execCases_append narrow]
        cases guard with
        | none =>
          have inStmt : stmt.finalGuards ≠ [] := by
            simpa [Node.finalGuards_matching] using guarded
          rw [falling_takesWildcards.execCases_singleton wildcard, exec_block_singleton]
          exact whole inStmt
        | some g =>
          have skipped : ∀ c ∈ [⟨pattern, some g, ⟨j, .block [stmt]⟩⟩],
              isWildcard (MatchCase.pattern c) → c.guard ≠ none := by simp
          rw [← List.append_nil [_], falling_execCases_append skipped]
          rfl
      exact passed

/-- A final return can stand after its statement, with its branch taken out, in every function that
ends with the statement, if no case on the way to it has a guard. If one has, the function may go on
past the statement, and what it returns is then another value. -/
theorem final_return_after_statement (wildcards : I.TakesWildcards) {stmt ret : Node}
    (found : finalReturn? stmt = .ok (some ret)) :
    (stmt.finalGuards = [] → ∀ i before,
      I.call ⟨i, .block (before ++ (stmt.withoutFinal.toList ++ [ret]))⟩ =
        I.call ⟨i, .block (before ++ [stmt])⟩) ∧
    (stmt.finalGuards ≠ [] → stmt.WildcardsLast →
      ∃ J : Meaning Id Bool Unit Unit Unit, J.TakesWildcards ∧
        ∀ i, J.call ⟨i, .block (stmt.withoutFinal.toList ++ [ret])⟩ ≠
          J.call ⟨i, .block [stmt]⟩) := by
  have final := finalReturn_of_search.1 stmt ret found
  constructor
  · intro unguarded i before
    have same : I.execAll (stmt.withoutFinal.toList ++ [ret]) = I.execAll [stmt] := by
      rw [execAll_append, execAll_toList, execAll_singleton, execAll_singleton,
        I.exec_withoutFinal wildcards final unguarded]
    simp only [call, exec_block, execAll_append I before, same]
  · intro guarded last
    obtain ⟨value, rest, whole⟩ := falling_exec final last
    refine ⟨falling, falling_takesWildcards, fun i same => ?_⟩
    have moved : falling.call ⟨i, .block (stmt.withoutFinal.toList ++ [ret])⟩ = .returned true := by
      simp only [call, exec_block, execAll_append, execAll_toList, execAll_singleton, rest, value]
      rfl
    have original : falling.call ⟨i, .block [stmt]⟩ = .returned false := by
      simp only [call, exec_block, execAll_singleton, whole guarded]
      rfl
    rw [moved, original] at same
    cases same

/-- An `if` in the last case of a `match`, in a run that writes down what it does. -/
theorem final_return_after_statement_nested :
    let I : Meaning (StateM (List NodeId)) Nat Nat NodeId Unit := {
      nothing := 0
      value := fun n s => (.ok n.id, n.id :: s)
      test := fun n s => (.ok (s.length = n.id), n.id :: s)
      takes := fun v p s => if isWildcard p then (.ok true, s) else (.ok (v = p.id), p.id :: s)
      enter := fun _ n s => (.ok n.id, n.id :: s)
      bind := fun manager n s => (.ok (), manager :: n.id :: s)
      leave := fun manager e s => (.ok e.isSome, manager :: s)
      iterate := fun _ n s => (.ok (), n.id :: s)
      advance := fun _ n s => (.ok (s.length < n.id), n.id :: s)
      other := fun n s => (if n.id = 5 then .raised 7 else .normal, n.id :: s) }
    let node := fun (id : NodeId) (shape : Shape Node) => Node.mk ⟨id, .nowhere⟩ shape
    let ret := node 1 (.returnStmt (some (node 2 .ellipsis)))
    let stmt := fun (orElse : Option Node) => node 3 (.matching (node 4 .ellipsis)
      [⟨node 5 .ellipsis, some (node 6 .ellipsis), node 7 (.block [node 8 (.returnStmt none)])⟩,
        ⟨node 9 (.asPattern none none), none, node 10 (.block [node 11 (.ifElse
          [(node 12 .ellipsis, node 13 (.block [node 14 .passStmt, node 15 (.returnStmt none)]))]
          orElse)])⟩])
    let whole := stmt (some (node 16 (.block [ret])))
    finalReturn? whole = .ok (some ret) ∧ whole.withoutFinal = some (stmt none) ∧
      ∀ i before, I.call ⟨i, .block (before ++ [stmt none, ret])⟩ =
        I.call ⟨i, .block (before ++ [whole])⟩ := by
  intro I node ret stmt whole
  have wildcards : I.TakesWildcards := by
    intro v pattern wildcard
    funext s
    exact if_pos wildcard
  have found : finalReturn? whole = .ok (some ret) := rfl
  exact ⟨found, rfl, (I.final_return_after_statement wildcards found).1 rfl⟩

/-- A last case with a guard: where the guard does not hold, the function returns nothing, and with
the return after the statement it returns a value. -/
theorem final_return_behind_guard :
    let node := fun (id : NodeId) (shape : Shape Node) => Node.mk ⟨id, .nowhere⟩ shape
    let ret := node 1 (.returnStmt (some (node 2 (.int 2))))
    let first : MatchCase Node := ⟨node 3 (.valuePattern (node 4 (.int 1))), none,
      node 5 (.block [node 6 (.returnStmt (some (node 7 (.int 1))))])⟩
    let last : MatchCase Node :=
      ⟨node 8 (.asPattern none none), some (node 9 .ellipsis), node 10 (.block [ret])⟩
    let stmt := fun cases => node 11 (.matching (node 12 .ellipsis) cases)
    finalReturn? (stmt [first, last]) = .ok (some ret) ∧
      (stmt [first, last]).withoutFinal = some (stmt [first]) ∧ falling.TakesWildcards ∧
      falling.call (node 0 (.block [stmt [first, last]])) = .returned falling.nothing ∧
      falling.call (node 0 (.block [stmt [first], ret])) = .returned true ∧
      falling.nothing ≠ true := by
  intro node ret first last stmt
  exact ⟨rfl, rfl, falling_takesWildcards, rfl, rfl, by decide⟩

end Meaning

end IdiomLint
