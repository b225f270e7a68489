import IdiomLint.Proofs.CommandLine
import IdiomLint.Proofs.FaultFreeRules
import Mathlib.Data.List.Induction

/-! Loops that fill a list. A report names a list that is made right before a loop that only appends
to it. The scan also takes for such a list one that is made in another loop right before, if a list
was made right before that loop: it then looks at the only statement of the loop in its place. -/
namespace IdiomLint.Rules.Comprehensions

def nameOf (target : Node) : String := (target.ref?.map (·.fullname)).getD ""

/-- `target = []`, where the target is a name that resolves to `fullname`. -/
inductive Makes (target : Node) (fullname : String) : Node → Prop where
  | mk (i j : Info) {k : Info} {ref : Ref} {binding : Option Binding} :
      target = ⟨k, .name ref binding⟩ → ref.fullname = fullname →
      Makes target fullname ⟨i, .assignment [target] ⟨j, .list []⟩⟩

/-- A loop whose only statement is `target = []`. -/
inductive OnlyMakes (target : Node) (fullname : String) : Node → Prop where
  | mk (i j : Info) (index source : Node) (orElse : Option Node) (isAsync : Bool) {stmt : Node} :
      Makes target fullname stmt →
      OnlyMakes target fullname ⟨i, .forLoop index source ⟨j, .block [stmt]⟩ orElse isAsync⟩

/-- `name.append(…)`, where the name resolves to `fullname`. -/
inductive Appends (fullname : String) : Node → Prop where
  | mk (i j k l : Info) (binding : Option Binding) (args : List (CallArg Node))
      (analyzed : Option Node) {ref method : Ref} :
      ref.fullname = fullname → method.name = "append" →
      Appends fullname
        ⟨i, .expression ⟨j, .call ⟨k, .member ⟨l, .name ref binding⟩ method⟩ args analyzed⟩⟩

/-- A loop whose only statement appends to a list, or is an `if` that binds no name in its condition
and holds nothing else; the list is mentioned once in that statement. -/
inductive Fills (fullname : String) : Node → Prop where
  | plain (i j : Info) (index source : Node) (orElse : Option Node) (isAsync : Bool) {stmt : Node} :
      Appends fullname stmt → stmt.readCount fullname = .ok 1 →
      Fills fullname ⟨i, .forLoop index source ⟨j, .block [stmt]⟩ orElse isAsync⟩
  | guarded (i j k l : Info) (index source : Node) (orElse : Option Node) (isAsync : Bool)
      {condition stmt : Node} :
      ¬isWalrus condition → Appends fullname stmt → stmt.readCount fullname = .ok 1 →
      Fills fullname ⟨i, .forLoop index source
        ⟨j, .block [⟨k, .ifElse [(condition, ⟨l, .block [stmt]⟩)] none⟩]⟩ orElse isAsync⟩

theorem emptyList?_eq_some_iff {stmt target : Node} :
    emptyList? stmt = some target ↔ ∃ fullname, Makes target fullname stmt := by
  constructor
  · intro h
    unfold emptyList? at h
    split at h
    · cases h
      exact ⟨_, .mk _ _ rfl rfl⟩
    · cases h
  · rintro ⟨fullname, i, j, rfl, -⟩
    rfl

theorem nameOf_of_makes {stmt target : Node} {fullname : String}
    (h : Makes target fullname stmt) : nameOf target = fullname := by
  obtain ⟨i, j, rfl, rfl⟩ := h
  rfl

theorem nameOf_of_onlyMakes {loop target : Node} {fullname : String}
    (h : OnlyMakes target fullname loop) : nameOf target = fullname := by
  obtain ⟨i, j, index, source, orElse, isAsync, made⟩ := h
  exact nameOf_of_makes made

theorem appendsTo_iff {fullname : String} {stmt : Node} :
    appendsTo fullname stmt ↔ Appends fullname stmt := by
  constructor
  · intro h
    unfold appendsTo appendTarget? at h
    split at h
    case h_1 ref found =>
      split at found
      case h_1 =>
        split at found
        case isTrue append =>
          cases found
          exact .mk _ _ _ _ _ _ _ (by simpa using h) (eq_of_beq append)
        case isFalse => cases found
      case h_2 => cases found
    case h_2 => cases h
  · rintro ⟨i, j, k, l, binding, args, analyzed, rfl, append⟩
    simp [appendsTo, appendTarget?, append]

theorem exists_of_loopBody? {loop : Node} {body : LoopBody} (h : loopBody? loop = some body) :
    (∃ i j index source orElse isAsync,
      loop = ⟨i, .forLoop index source ⟨j, .block [body.stmt]⟩ orElse isAsync⟩) ∧
    ∀ inner, body.guarded = some inner → ∃ k l condition,
      body.stmt = ⟨k, .ifElse [(condition, ⟨l, .block [inner]⟩)] none⟩ ∧ ¬isWalrus condition := by
  unfold loopBody? at h
  split at h
  case h_2 => cases h
  case h_1 =>
    split at h
    case h_1 =>
      cases h
      refine ⟨⟨_, _, _, _, _, _, rfl⟩, fun inner guarded => ?_⟩
      split at guarded
      · cases guarded
      · cases guarded
        exact ⟨_, _, _, rfl, ‹_›⟩
    case h_2 =>
      cases h
      exact ⟨⟨_, _, _, _, _, _, rfl⟩, by simp⟩

theorem exists_of_fillingStmt? {fullname : String} {body : LoopBody} {filling : Node}
    (h : fillingStmt? fullname body = some filling) :
    Appends fullname filling ∧ (body.guarded = some filling ∨ body.stmt = filling) := by
  unfold fillingStmt? at h
  split at h
  case h_1 inner kept =>
    cases h
    obtain ⟨guarded, appends⟩ := Option.filter_eq_some_iff.1 kept
    exact ⟨appendsTo_iff.1 appends, .inl guarded⟩
  case h_2 =>
    split at h
    case isTrue appends =>
      cases h
      exact ⟨appendsTo_iff.1 appends, .inr rfl⟩
    case isFalse => cases h

theorem onlyMakes_iff {target loop : Node} {fullname : String} :
    OnlyMakes target fullname loop ↔
      ∃ body, loopBody? loop = some body ∧ Makes target fullname body.stmt := by
  constructor
  · rintro ⟨i, j, index, source, orElse, isAsync, made⟩
    obtain ⟨k, l, rfl, rfl⟩ := made
    exact ⟨_, rfl, .mk k l rfl rfl⟩
  · rintro ⟨body, found, made⟩
    obtain ⟨⟨i, j, index, source, orElse, isAsync, rfl⟩, -⟩ := exists_of_loopBody? found
    exact .mk i j index source orElse isAsync made

theorem fills_iff {fullname : String} {loop : Node} :
    Fills fullname loop ↔ ∃ body filling, loopBody? loop = some body ∧
      fillingStmt? fullname body = some filling ∧ filling.readCount fullname = .ok 1 := by
  constructor
  · intro h
    cases h with
    | @plain i j index source orElse isAsync stmt appends once =>
      have filling : appendsTo fullname stmt := appendsTo_iff.2 appends
      obtain ⟨k, l, m, n, binding, args, analyzed, -, -⟩ := appends
      exact ⟨_, _, rfl, if_pos filling, once⟩
    | @guarded i j k l index source orElse isAsync condition stmt free appends once =>
      have filling : appendsTo fullname stmt := appendsTo_iff.2 appends
      refine ⟨_, stmt, rfl, ?_, once⟩
      simp [fillingStmt?, free, Option.filter, filling]
  · rintro ⟨body, filling, found, fills, once⟩
    obtain ⟨⟨i, j, index, source, orElse, isAsync, rfl⟩, branch⟩ := exists_of_loopBody? found
    obtain ⟨appends, guarded | rfl⟩ := exists_of_fillingStmt? fills
    · obtain ⟨k, l, condition, same, free⟩ := branch filling guarded
      rw [same]
      exact .guarded i j k l index source orElse isAsync free appends once
    · exact .plain i j index source orElse isAsync appends once

/-- What fills a list makes none, and neither does the `if` around it. -/
theorem emptyList?_of_filling {fullname : String} {loop filling : Node} {body : LoopBody}
    (found : loopBody? loop = some body) (fills : fillingStmt? fullname body = some filling) :
    emptyList? filling = emptyList? body.stmt := by
  obtain ⟨appends, guarded | rfl⟩ := exists_of_fillingStmt? fills
  · obtain ⟨k, l, condition, same, -⟩ := (exists_of_loopBody? found).2 filling guarded
    obtain ⟨⟩ := appends
    rw [same]
    rfl
  · rfl

/-- The list that the scan remembers after one more statement. While it remembers one, it takes the
only statement of a loop for the loop. -/
def remember : Option Node → Node → Option Node
  | none, stmt => emptyList? stmt
  | some _, stmt => emptyList? (((loopBody? stmt).map (·.stmt)).getD stmt)

/-- A list is made, and after that come only loops that each make a list and do nothing else. -/
def Primed (stmts : List Node) : Prop :=
  ∃ before first loops target fullname, stmts = before ++ first :: loops ∧
    Makes target fullname first ∧ ∀ loop ∈ loops, ∃ t n, OnlyMakes t n loop

theorem not_primed_nil : ¬Primed [] := by
  rintro ⟨before, first, loops, target, fullname, same, -⟩
  simp at same

theorem primed_concat {before : List Node} {stmt : Node} :
    Primed (before ++ [stmt]) ↔
      (∃ t n, Makes t n stmt) ∨ (Primed before ∧ ∃ t n, OnlyMakes t n stmt) := by
  constructor
  · rintro ⟨start, first, loops, target, fullname, same, made, only⟩
    rcases List.eq_nil_or_concat' loops with rfl | ⟨loops, last, rfl⟩
    · obtain ⟨rfl, rest⟩ := List.append_inj' same rfl
      cases rest
      exact .inl ⟨target, fullname, made⟩
    · rw [← List.cons_append, ← List.append_assoc] at same
      obtain ⟨rfl, rest⟩ := List.append_inj' same rfl
      cases rest
      obtain ⟨below, here⟩ := List.forall_mem_append.1 only
      exact .inr ⟨⟨start, first, loops, target, fullname, rfl, made, below⟩,
        here stmt List.mem_cons_self⟩
  · rintro (⟨target, fullname, made⟩ |
      ⟨⟨start, first, loops, target, fullname, rfl, made, only⟩, last⟩)
    · exact ⟨before, stmt, [], target, fullname, rfl, made, by simp⟩
    · refine ⟨start, first, loops ++ [stmt], target, fullname, by simp, made, ?_⟩
      exact List.forall_mem_append.2 ⟨only, by simpa using last⟩

/-- One statement. -/
theorem remember_eq_some_iff {made : Option Node} {stmt target : Node} :
    remember made stmt = some target ↔ (∃ n, Makes target n stmt) ∨
      (made ≠ none ∧ ∃ n, OnlyMakes target n stmt) := by
  cases made with
  | none => simp [remember, emptyList?_eq_some_iff]
  | some list =>
    simp only [remember, emptyList?_eq_some_iff, ne_eq, reduceCtorEq, not_false_eq_true, true_and,
      onlyMakes_iff]
    cases found : loopBody? stmt with
    | none => simp
    | some body =>
      constructor
      · rintro ⟨n, made⟩
        exact .inr ⟨n, body, rfl, made⟩
      · rintro (⟨n, made⟩ | ⟨n, body, same, made⟩)
        · obtain ⟨i, j, -, -⟩ := made
          cases found
        · cases same
          exact ⟨n, made⟩

/-- A run over statements: by induction over them, the last first. -/
theorem foldl_remember_ne_none_iff {stmts : List Node} :
    stmts.foldl remember none ≠ none ↔ Primed stmts := by
  induction stmts using List.reverseRecOn with
  | nil => simp [not_primed_nil]
  | append_singleton before stmt ih =>
    rw [List.foldl_concat, primed_concat, ← ih, Option.ne_none_iff_exists']
    simp only [remember_eq_some_iff]
    constructor
    · rintro ⟨target, ⟨n, made⟩ | ⟨before, n, only⟩⟩
      · exact .inl ⟨target, n, made⟩
      · exact .inr ⟨before, target, n, only⟩
    · rintro (⟨target, n, made⟩ | ⟨before, target, n, only⟩)
      · exact ⟨target, .inl ⟨n, made⟩⟩
      · exact ⟨target, .inr ⟨before, n, only⟩⟩

def fillable (target : Node) : Finding := .ofNode target "Consider using list comprehension"

/-- One statement: what is reported at it, and the scan from what is remembered after it. -/
theorem filledLists_cons {made : Option Node} {stmt : Node} {rest : List Node}
    {found : List Finding} (run : filledLists made (stmt :: rest) = .ok found) :
    ∃ here more, filledLists (remember made stmt) rest = .ok more ∧ found = here ++ more ∧
      ∀ f, f ∈ here ↔ ∃ target, made = some target ∧ Fills (nameOf target) stmt ∧
        f = fillable target := by
  cases made with
  | none => exact ⟨[], found, run, rfl, by simp⟩
  | some target =>
    have nothing (idle : ¬Fills (nameOf target) stmt) (f : Finding) : f ∈ [] ↔
        ∃ t, some target = some t ∧ Fills (nameOf t) stmt ∧ f = fillable t := by
      constructor
      · simp
      · rintro ⟨t, same, fills, -⟩
        cases same
        exact absurd fills idle
    simp only [remember]
    rw [filledLists] at run
    cases loop : loopBody? stmt with
    | none =>
      simp only [loop] at run
      have idle : ¬Fills (nameOf target) stmt := by simp [fills_iff, loop]
      exact ⟨[], found, run, rfl, nothing idle⟩
    | some body =>
      simp only [loop] at run
      cases filling : fillingStmt? (nameOf target) body with
      | none =>
        have idle : ¬Fills (nameOf target) stmt := by simp [fills_iff, loop, filling]
        simp only [nameOf] at filling
        simp only [filling] at run
        exact ⟨[], found, run, rfl, nothing idle⟩
      | some stmt' =>
        have next := emptyList?_of_filling loop filling
        have counted : Fills (nameOf target) stmt ↔ stmt'.readCount (nameOf target) = .ok 1 := by
          simp [fills_iff, loop, filling]
        simp only [nameOf] at filling
        simp only [filling] at run
        obtain ⟨reads, count, run⟩ := bind_eq_ok run
        obtain ⟨more, below, run⟩ := bind_eq_ok run
        rw [next] at below
        have once : Fills (nameOf target) stmt ↔ reads = 1 := by
          rw [counted, nameOf, count, Except.ok.injEq]
        cases run
        by_cases single : reads = 1
        · refine ⟨[fillable target], more, below, by simp [single, fillable], fun f => ?_⟩
          simp [once, single]
        · exact ⟨[], more, below, by simp [single], nothing (once.not.2 single)⟩

/-- The scan: each report is about a statement and what is remembered from those before it. -/
theorem mem_filledLists_iff {made : Option Node} {stmts : List Node} {found : List Finding}
    (run : filledLists made stmts = .ok found) (f : Finding) :
    f ∈ found ↔ ∃ before loop after target, stmts = before ++ loop :: after ∧
      before.foldl remember made = some target ∧ Fills (nameOf target) loop ∧
      f = fillable target := by
  induction stmts generalizing made found with
  | nil =>
    cases run
    simp
  | cons stmt rest ih =>
    obtain ⟨here, more, below, rfl, reported⟩ := filledLists_cons run
    rw [List.mem_append, reported, ih below]
    constructor
    · rintro (⟨target, made, fills, rfl⟩ | ⟨before, loop, after, target, rfl, made, fills, rfl⟩)
      · exact ⟨[], stmt, rest, target, rfl, made, fills, rfl⟩
      · exact ⟨stmt :: before, loop, after, target, rfl, made, fills, rfl⟩
    · rintro ⟨before, loop, after, target, same, made, fills, rfl⟩
      cases before with
      | nil =>
        cases same
        exact .inl ⟨target, made, fills, rfl⟩
      | cons first before =>
        cases same
        exact .inr ⟨before, loop, after, target, rfl, made, fills, rfl⟩

def nameAt (line : Int) (name : String) : Node :=
  ⟨⟨0, ⟨line, 0, none, none⟩⟩, .name ⟨name, name, none, false⟩ none⟩

def making (line : Int) (name : String) : Node :=
  ⟨default, .assignment [nameAt line name] ⟨default, .list []⟩⟩

def appending (line : Int) (name : String) : Node :=
  ⟨default, .expression ⟨default, .call ⟨default, .member (nameAt line name)
    ⟨"append", "", none, false⟩⟩ [⟨nameAt line "x", .pos, none⟩] none⟩⟩

def looping (line : Int) (stmt : Node) : Node :=
  ⟨default, .forLoop (nameAt line "x") (nameAt line "xs") ⟨default, .block [stmt]⟩ none false⟩

theorem wellFormed_nameAt (line : Int) (name : String) : (nameAt line name).WellFormed := by
  rw [Node.wellFormed_iff]
  exact ⟨rfl, by simp [nameAt, Node.children]⟩

theorem wellFormed_making (line : Int) (name : String) : (making line name).WellFormed := by
  have literal : Node.WellFormed ⟨default, .list []⟩ := by
    rw [Node.wellFormed_iff]
    exact ⟨rfl, by simp [Node.children]⟩
  rw [Node.wellFormed_iff]
  exact ⟨rfl, by simp [making, Node.children, wellFormed_nameAt, literal]⟩

theorem wellFormed_appending (line : Int) (name : String) : (appending line name).WellFormed := by
  have method : Node.WellFormed
      ⟨default, .member (nameAt line name) ⟨"append", "", none, false⟩⟩ := by
    rw [Node.wellFormed_iff]
    exact ⟨rfl, by simp [Node.children, wellFormed_nameAt]⟩
  have call : Node.WellFormed ⟨default, .call ⟨default, .member (nameAt line name)
      ⟨"append", "", none, false⟩⟩ [⟨nameAt line "x", .pos, none⟩] none⟩ := by
    rw [Node.wellFormed_iff]
    exact ⟨rfl, by simp [Node.children, wellFormed_nameAt, method]⟩
  rw [Node.wellFormed_iff]
  exact ⟨rfl, by simpa [appending, Node.children] using call⟩

theorem wellFormed_looping {stmt : Node} (line : Int) (h : stmt.WellFormed) :
    (looping line stmt).WellFormed := by
  have body : Node.WellFormed ⟨default, .block [stmt]⟩ := by
    rw [Node.wellFormed_iff]
    exact ⟨rfl, by simpa [Node.children] using h⟩
  rw [Node.wellFormed_iff]
  exact ⟨rfl, by simp [looping, Node.children, wellFormed_nameAt, body]⟩

theorem readCount_appending (line : Int) {name : String} (h : name ≠ "x") :
    (appending line name).readCount name = .ok 1 := by
  simp [appending, nameAt, Node.readCount, Node.entries, Node.events_full, Node.refusal.eq_3,
    Node.children, Node.complaint.eq_2, Node.isNameOf, h.symm, Except.map, pure, bind, Except.pure,
    Except.bind]

/-- A list is reported if and only if a loop right after a statement fills it, and the statement
makes it, or the statement is a loop that only makes it and a list was made right before. -/
theorem filled_list_reported_iff {stmts : List Node} (h : ∀ stmt ∈ stmts, stmt.WellFormed) :
    ∃ found, filledLists none stmts = .ok found ∧ ∀ f, f ∈ found ↔
      ∃ target fullname before stmt loop after, f = fillable target ∧
        stmts = before ++ stmt :: loop :: after ∧ Fills fullname loop ∧
        (Makes target fullname stmt ∨ (OnlyMakes target fullname stmt ∧ Primed before)) := by
  obtain ⟨found, run⟩ := succeeds_filledLists h none
  refine ⟨found, run, fun f => ?_⟩
  rw [mem_filledLists_iff run]
  constructor
  · rintro ⟨before, loop, after, target, rfl, made, fills, rfl⟩
    rcases List.eq_nil_or_concat' before with rfl | ⟨before, stmt, rfl⟩
    · cases made
    · rw [List.foldl_concat, remember_eq_some_iff, foldl_remember_ne_none_iff] at made
      refine ⟨target, nameOf target, before, stmt, loop, after, rfl, by simp, fills, ?_⟩
      rcases made with ⟨n, made⟩ | ⟨primed, n, only⟩
      · exact .inl ((nameOf_of_makes made).symm ▸ made)
      · exact .inr ⟨(nameOf_of_onlyMakes only).symm ▸ only, primed⟩
  · rintro ⟨target, fullname, before, stmt, loop, after, rfl, rfl, fills, made⟩
    refine ⟨before ++ [stmt], loop, after, target, by simp, ?_, ?_, rfl⟩
    · rw [List.foldl_concat, remember_eq_some_iff, foldl_remember_ne_none_iff]
      exact made.imp (fun made => ⟨fullname, made⟩) fun ⟨only, primed⟩ => ⟨primed, fullname, only⟩
    · rcases made with made | ⟨only, -⟩
      · rwa [nameOf_of_makes made]
      · rwa [nameOf_of_onlyMakes only]

/-- A list that is made and filled. -/
theorem filled_list_reported_iff_appending :
    let stmts := [making 1 "a", looping 2 (appending 3 "a")]
    (∀ stmt ∈ stmts, stmt.WellFormed) ∧
      ∃ found, filledLists none stmts = .ok found ∧ fillable (nameAt 1 "a") ∈ found := by
  intro stmts
  have wellFormed : ∀ stmt ∈ stmts, stmt.WellFormed := by
    simp [stmts, wellFormed_making, wellFormed_looping, wellFormed_appending]
  have fills : Fills "a" (looping 2 (appending 3 "a")) :=
    .plain _ _ _ _ _ _ (.mk _ _ _ _ _ _ _ rfl rfl) (readCount_appending 3 (by decide))
  obtain ⟨found, run, reported⟩ := filled_list_reported_iff wellFormed
  exact ⟨wellFormed, found, run, (reported _).2 ⟨nameAt 1 "a", "a", [], making 1 "a",
    looping 2 (appending 3 "a"), [], rfl, rfl, fills, .inl (.mk _ _ rfl rfl)⟩⟩

/-- A list is reported that no statement makes: it is made inside of a loop, again and again, right
after another list. -/
theorem list_made_in_loop_reported :
    let stmts := [making 1 "a", looping 2 (making 3 "b"), looping 4 (appending 5 "b")]
    (∀ stmt ∈ stmts, stmt.WellFormed) ∧
      filledLists none stmts = .ok [fillable (nameAt 3 "b")] ∧
      ∀ stmt ∈ stmts, ∀ fullname, ¬Makes (nameAt 3 "b") fullname stmt := by
  intro stmts
  refine ⟨?_, ?_, ?_⟩
  · simp [stmts, wellFormed_making, wellFormed_looping, wellFormed_appending]
  · have count : (appending 5 "b").readCount "b" = .ok 1 := readCount_appending 5 (by decide)
    change ((appending 5 "b").readCount "b").bind _ = _
    rw [count]
    rfl
  · intro stmt hs fullname made
    obtain ⟨i, j, -, -⟩ := made
    simp [stmts, making, looping, nameAt] at hs

end IdiomLint.Rules.Comprehensions
