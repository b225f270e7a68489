import IdiomLint.Proofs.Execution
import IdiomLint.Proofs.Statements
import IdiomLint.Rules.ControlFlow
import Mathlib.Data.List.Nodup

/-! Redundant jumps can be taken out: a function without its redundant returns, and a loop without
its redundant continues, do what they did before. -/
namespace IdiomLint

open Rules.ControlFlow

namespace Meaning

variable {m : Type → Type} [Monad m] {Value Error Manager Iterator : Type}

/-- Two ways to run, of which one may end normally where the other ends with a jump. What comes
after them cannot tell them apart unless it tells the jump from a normal end. -/
def SameUpTo (jump : Outcome Value Error) (x y : m (Outcome Value Error)) : Prop :=
  ∀ (β : Type) (rest : Outcome Value Error → m β), rest .normal = rest jump →
    x >>= rest = y >>= rest

namespace SameUpTo

variable {jump : Outcome Value Error} {x y : m (Outcome Value Error)}

theorem refl (x : m (Outcome Value Error)) : SameUpTo jump x x := fun _ _ _ => rfl

variable [LawfulMonad m]

theorem jump_normal : SameUpTo (m := m) jump (pure .normal) (pure jump) := by
  intro β rest same
  simpa using same

theorem orRaise {α : Type} {act : m (Except Error α)} {x y : α → m (Outcome Value Error)}
    (h : ∀ a, SameUpTo jump (x a) (y a)) :
    SameUpTo jump (Meaning.orRaise act x) (Meaning.orRaise act y) := by
  intro β rest same
  simp only [Meaning.orRaise, bind_assoc]
  congr 1
  funext r
  cases r with
  | ok a => exact h a β rest same
  | error e => rfl

theorem andThen (before : m (Outcome Value Error)) (h : SameUpTo jump x y) :
    SameUpTo jump (before >>= Meaning.andThen x) (before >>= Meaning.andThen y) := by
  intro β rest same
  simp only [bind_assoc]
  congr 1
  funext o
  cases o with
  | normal => exact h β rest same
  | _ => rfl

/-- A context manager is not told how a statement ended that has not raised an error. -/
theorem leaving (I : Meaning m Value Error Manager Iterator) (calm : ∀ e, jump ≠ .raised e)
    (manager : Manager) (h : SameUpTo jump x y) :
    SameUpTo jump (x >>= I.leaving manager) (y >>= I.leaving manager) := by
  intro β rest same
  simp only [bind_assoc]
  apply h
  have told : I.leaving manager jump =
      Meaning.orRaise (I.leave manager none) fun _ => pure jump := by
    cases jump with
    | raised e => exact absurd rfl (calm e)
    | _ => rfl
  rw [told]
  simp only [Meaning.leaving, Meaning.orRaise, bind_assoc]
  congr 1
  funext r
  cases r with
  | ok dropped => simpa using same
  | error e => rfl

theorem within (I : Meaning m Value Error Manager Iterator) (calm : ∀ e, jump ≠ .raised e)
    (isAsync : Bool) (items : List (WithItem Node)) (h : SameUpTo jump x y) :
    SameUpTo jump (I.within isAsync items x) (I.within isAsync items y) := by
  induction items with
  | nil => exact h
  | cons item items ih =>
    obtain ⟨resource, target⟩ := item
    exact orRaise fun manager => leaving I calm manager (orRaise fun _ => ih)

theorem execBranches (I : Meaning m Value Error Manager Iterator) (branches : List (Node × Node))
    (h : SameUpTo jump x y) :
    SameUpTo jump (I.execBranches branches x) (I.execBranches branches y) := by
  induction branches with
  | nil => exact h
  | cons branch branches ih =>
    obtain ⟨condition, body⟩ := branch
    refine orRaise fun holds => ?_
    cases holds with
    | true => exact refl _
    | false => exact ih

theorem execCases {I : Meaning m Value Error Manager Iterator} {v : Value} {pattern : Node}
    {guard : Option Node} {body body' : Node} {rest rest' : List (MatchCase Node)}
    (hb : SameUpTo jump (I.exec body) (I.exec body'))
    (hr : SameUpTo jump (I.execCases v rest) (I.execCases v rest')) :
    SameUpTo jump (I.execCases v (⟨pattern, guard, body⟩ :: rest))
      (I.execCases v (⟨pattern, guard, body'⟩ :: rest')) := by
  refine orRaise fun taken => ?_
  cases taken with
  | false => exact hr
  | true =>
    refine orRaise fun holds => ?_
    cases holds with
    | true => exact hb
    | false => exact hr

end SameUpTo

theorem execAll_singleton [LawfulMonad m] (I : Meaning m Value Error Manager Iterator)
    (stmt : Node) : I.execAll [stmt] = I.exec stmt := by
  have stop : andThen (m := m) (pure .normal) = (pure : Outcome Value Error → _) := by
    funext o
    cases o <;> rfl
  simp only [execAll, stop, bind_pure]

end Meaning

namespace Node

/-- A no-op in the place of a statement that is one of those with the given identities. -/
def muted (ids : List NodeId) (n : Node) : Node := if n.id ∈ ids then ⟨n.info, .passStmt⟩ else n

/-- A statement with a no-op in the place of each of the given statements. -/
def without (n : Node) (removed : List Node) : Node := n.mapSimple (muted (removed.map Node.id))

end Node

/-- The statements of a list that have one of the identities are all among the reported. -/
structure OnlyReported (ids : List NodeId) (stmts reported : List Node) : Prop where
  nodup : (stmts.map Node.id).Nodup
  mem_reported : ∀ s ∈ stmts, s.id ∈ ids → s ∈ reported

namespace OnlyReported

variable {ids : List NodeId} {xs ys a b : List Node}

theorem muted_eq_self (h : OnlyReported ids xs []) : ∀ s ∈ xs, Node.muted ids s = s := by
  intro s hs
  have kept : s.id ∉ ids := fun hid => List.not_mem_nil (h.mem_reported s hs hid)
  simp [Node.muted, kept]

theorem of_nodup {stmts reported : List Node} (distinct : (stmts.map Node.id).Nodup)
    (inside : ∀ s ∈ reported, s ∈ stmts) :
    OnlyReported (reported.map Node.id) stmts reported := by
  refine ⟨distinct, fun s hs hid => ?_⟩
  obtain ⟨t, ht, same⟩ := List.mem_map.1 hid
  exact List.inj_on_of_nodup_map distinct (inside t ht) hs same ▸ ht

/-- A statement is reported by the part of the text in which it stands. -/
theorem split (h : OnlyReported ids (xs ++ ys) (a ++ b)) (ha : ∀ s ∈ a, s ∈ xs)
    (hb : ∀ s ∈ b, s ∈ ys) : OnlyReported ids xs a ∧ OnlyReported ids ys b := by
  obtain ⟨nodup, mem_reported⟩ := h
  rw [List.map_append, List.nodup_append] at nodup
  obtain ⟨hx, hy, apart⟩ := nodup
  refine ⟨⟨hx, fun s hs hid => ?_⟩, ⟨hy, fun s hs hid => ?_⟩⟩
  · rcases List.mem_append.1 (mem_reported s (List.mem_append_left _ hs) hid) with h | h
    · exact h
    · exact absurd rfl (apart _ (List.mem_map_of_mem hs) _ (List.mem_map_of_mem (hb s h)))
  · rcases List.mem_append.1 (mem_reported s (List.mem_append_right _ hs) hid) with h | h
    · exact absurd rfl (apart _ (List.mem_map_of_mem (ha s h)) _ (List.mem_map_of_mem hs))
    · exact h

/-- Where all that is reported stands in the second part, the first is left as it is. -/
theorem split_right (h : OnlyReported ids (xs ++ ys) b) (hb : ∀ s ∈ b, s ∈ ys) :
    (∀ s ∈ xs, Node.muted ids s = s) ∧ OnlyReported ids ys b := by
  obtain ⟨first, second⟩ := split (a := []) h (by simp) hb
  exact ⟨first.muted_eq_self, second⟩

end OnlyReported

namespace Rules.ControlFlow.Jump

variable {jump : Jump}

theorem inCases_cons {pattern i} {guard : Option Node} {body ns : List Node}
    {rest : List (MatchCase Node)} (part : ¬jump.isWholeCase pattern body)
    (h : jump.inCases (⟨pattern, guard, ⟨i, .block body⟩⟩ :: rest) = .ok ns) :
    ∃ here more, jump.inLast body = .ok here ∧ jump.inCases rest = .ok more ∧
      ns = here ++ more := by
  rw [inCases, if_neg part] at h
  split at h
  · cases h
  cases hb : jump.inLast body with
  | error f => rw [hb] at h; cases h
  | ok here =>
    cases hr : jump.inCases rest with
    | error f => rw [hb, hr] at h; cases h
    | ok more =>
      rw [hb, hr] at h
      cases h
      exact ⟨here, more, rfl, rfl, rfl⟩

/-- What is reported stands among the simple statements. -/
theorem mem_simple_of_reported (simple : ∀ n, jump.isRedundant n → n.simple = [n]) :
    (∀ n ns, jump.trailing n = .ok ns → ∀ s ∈ ns, s ∈ n.simple) ∧
    (∀ body ns, jump.inLast body = .ok ns → ∀ s ∈ ns, s ∈ Node.simpleAll body) ∧
    (∀ cases ns, jump.inCases cases = .ok ns → ∀ s ∈ ns, s ∈ Node.simpleCases cases) := by
  apply Jump.trailing.mutual_induct jump
  case case1 =>
    intro i subject cases ih ns h s hs
    exact ih ns h s hs
  case case2 =>
    intro i branches j body ih ns h s hs
    simp only [Node.simple, Node.simpleOptional, List.mem_append]
    exact .inr (ih ns h s hs)
  case case3 =>
    intro i items j body isAsync ih ns h s hs
    exact ih ns h s hs
  case case4 =>
    intro n h1 h2 h3 ns h s hs
    rw [trailing.eq_4 jump n h1 h2 h3] at h
    cases h
    split at hs
    · rename_i redundant
      rwa [simple n redundant]
    · simp at hs
  case case5 =>
    intro ns h s hs
    cases h
    simp at hs
  case case6 =>
    intro stmt ih ns h s hs
    simpa [Node.simpleAll] using ih ns h s hs
  case case7 =>
    intro stmt rest nonempty ih ns h s hs
    rw [inLast.eq_3 jump stmt rest nonempty] at h
    simp only [Node.simpleAll, List.mem_append]
    exact .inr (ih ns h s hs)
  case case8 =>
    intro ns h s hs
    cases h
    simp at hs
  case case9 =>
    intro pattern guard i body rest whole ih ns h s hs
    rw [inCases, if_pos whole] at h
    simp only [Node.simpleCases, List.mem_append]
    exact .inr (ih ns h s hs)
  case case10 =>
    intro pattern guard i body rest part empty ns h
    simp [inCases, part, empty] at h
  case case11 =>
    intro pattern guard i body rest part filled ihb ihr ns h s hs
    obtain ⟨here, more, hb, hr, rfl⟩ := inCases_cons part h
    simp only [Node.simpleCases, List.mem_append] at hs ⊢
    exact hs.imp (ihb here hb s) (ihr more hr s)
  case case12 =>
    intro c rest noBlock ih ns h s hs
    rw [inCases.eq_3 jump c rest noBlock] at h
    simp only [Node.simpleCases, List.mem_append]
    exact .inr (ih ns h s hs)

variable {m : Type → Type} [Monad m] {Value Error Manager Iterator : Type}

/-- The jump is a simple statement that does nothing but end in its own way. -/
structure EndsIn (jump : Jump) (I : Meaning m Value Error Manager Iterator)
    (o : Outcome Value Error) : Prop where
  calm : ∀ e, o ≠ .raised e
  simple : ∀ n, jump.isRedundant n → n.simple = [n]
  mapSimple : ∀ f n, jump.isRedundant n → n.mapSimple f = f n
  exec : ∀ n, jump.isRedundant n → I.exec n = pure o

variable [LawfulMonad m] {I : Meaning m Value Error Manager Iterator} {o : Outcome Value Error}

/-- Each reported jump is the last thing that is done, however deep it stands. -/
theorem sameUpTo_muted (ends : jump.EndsIn I o) (ids : List NodeId) :
    (∀ n ns, jump.trailing n = .ok ns → OnlyReported ids n.simple ns →
      Meaning.SameUpTo o (I.exec (n.mapSimple (Node.muted ids))) (I.exec n)) ∧
    (∀ body ns, jump.inLast body = .ok ns → OnlyReported ids (Node.simpleAll body) ns →
      Meaning.SameUpTo o (I.execAll (Node.mapSimpleAll (Node.muted ids) body)) (I.execAll body)) ∧
    (∀ cases ns, jump.inCases cases = .ok ns → OnlyReported ids (Node.simpleCases cases) ns →
      ∀ v, Meaning.SameUpTo o (I.execCases v (Node.mapSimpleCases (Node.muted ids) cases))
        (I.execCases v cases)) := by
  obtain ⟨inNode, inList, inRest⟩ := mem_simple_of_reported ends.simple
  obtain ⟨keepNode, -, -, keepBranches, -⟩ := Node.mapSimple_eq_self_all (Node.muted ids)
  apply Jump.trailing.mutual_induct jump
  case case1 =>
    intro i subject cases ih ns h only
    exact .orRaise fun v => ih ns h only v
  case case2 =>
    intro i branches j body ih ns h only
    obtain ⟨kept, only⟩ := only.split_right (inList body ns h)
    simp only [Node.mapSimple, keepBranches branches kept]
    exact .execBranches I branches (ih ns h only)
  case case3 =>
    intro i items j body isAsync ih ns h only
    exact .within I ends.calm isAsync items (ih ns h only)
  case case4 =>
    intro n h1 h2 h3 ns h only
    rw [trailing.eq_4 jump n h1 h2 h3] at h
    cases h
    by_cases redundant : jump.isRedundant n
    · rw [ends.mapSimple _ n redundant, ends.exec n redundant, Node.muted]
      split
      · exact .jump_normal
      · rw [ends.exec n redundant]
        exact .refl _
    · rw [if_neg redundant] at only
      rw [keepNode n only.muted_eq_self]
      exact .refl _
  case case5 =>
    intro ns h only
    exact .refl _
  case case6 =>
    intro stmt ih ns h only
    simp only [Node.simpleAll, List.append_nil] at only
    simp only [Node.mapSimpleAll, Meaning.execAll_singleton]
    exact ih ns h only
  case case7 =>
    intro stmt rest nonempty ih ns h only
    rw [inLast.eq_3 jump stmt rest nonempty] at h
    obtain ⟨kept, only⟩ := only.split_right (inList rest ns h)
    simp only [Node.mapSimpleAll, keepNode stmt kept]
    exact .andThen _ (ih ns h only)
  case case8 =>
    intro ns h only v
    exact .refl _
  case case9 =>
    intro pattern guard i body rest whole ih ns h only v
    rw [inCases, if_pos whole] at h
    obtain ⟨kept, only⟩ := only.split_right (inRest rest ns h)
    simp only [Node.mapSimpleCases, keepNode _ kept]
    exact .execCases (.refl _) (ih ns h only v)
  case case10 =>
    intro pattern guard i body rest part empty ns h
    simp [inCases, part, empty] at h
  case case11 =>
    intro pattern guard i body rest part filled ihb ihr ns h only v
    obtain ⟨here, more, hb, hr, rfl⟩ := inCases_cons part h
    obtain ⟨first, second⟩ := only.split (inList body here hb) (inRest rest more hr)
    exact .execCases (ihb here hb first) (ihr more hr second v)
  case case12 =>
    intro c rest noBlock ih ns h only v
    rw [inCases.eq_3 jump c rest noBlock] at h
    obtain ⟨kept, only⟩ := only.split_right (inRest rest ns h)
    simp only [Node.mapSimpleCases, keepNode _ kept]
    exact .execCases (.refl _) (ih ns h only v)

theorem inBody_eq_ok {body : Node} {ns : List Node} (h : jump.inBody body = .ok ns) :
    ns = [] ∨ ∃ i stmts, body = ⟨i, .block stmts⟩ ∧ jump.inLast stmts = .ok ns := by
  unfold inBody at h
  cases hb : body.blockBody? with
  | none =>
    rw [hb] at h
    cases h
    exact .inl rfl
  | some stmts =>
    have isBlock : ∃ i, body = ⟨i, .block stmts⟩ := by
      obtain ⟨i, shape⟩ := body
      cases shape <;> simp [Node.blockBody?] at hb
      exact ⟨i, by rw [hb]⟩
    obtain ⟨i, rfl⟩ := isBlock
    rw [hb] at h
    split at h
    · rename_i found
      cases found
    · rename_i stmt found
      cases found
      split at h
      · cases h
        exact .inl rfl
      · exact .inr ⟨i, [stmt], rfl, h⟩
    · rename_i found
      cases found
      exact .inr ⟨i, stmts, rfl, h⟩

/-- A body without its redundant jumps does what it did, up to the jump at its end. -/
theorem sameUpTo_without (ends : jump.EndsIn I o) {body : Node} {ns : List Node}
    (distinct : (body.simple.map Node.id).Nodup) (h : jump.inBody body = .ok ns) :
    Meaning.SameUpTo o (I.exec (body.without ns)) (I.exec body) := by
  rcases inBody_eq_ok h with rfl | ⟨i, stmts, rfl, reported⟩
  · have kept : body.without [] = body :=
      (Node.mapSimple_eq_self_all _).1 body fun s _ => by simp [Node.muted]
    rw [kept]
    exact .refl _
  · have inside := (mem_simple_of_reported ends.simple).2.1 stmts ns reported
    exact (sameUpTo_muted ends _).2.1 stmts ns reported (.of_nodup distinct inside)

/-- The search for redundant jumps ends in no fault unless a case is empty. -/
theorem reported_of_filled (jump : Jump) :
    (∀ n : Node, n.Filled → ∃ ns, jump.trailing n = .ok ns) ∧
    (∀ body : List Node, (∀ s ∈ body, s.Filled) → ∃ ns, jump.inLast body = .ok ns) ∧
    (∀ cases : List (MatchCase Node), (∀ c ∈ cases, c.body.Filled) →
      ∃ ns, jump.inCases cases = .ok ns) := by
  apply Jump.trailing.mutual_induct jump
  case case1 =>
    intro i subject cases ih filled
    refine ih fun c hc => filled.child ?_
    simp only [Node.children, List.mem_cons, List.mem_flatMap]
    exact .inr ⟨c, hc, by simp [MatchCase.parts]⟩
  case case2 =>
    intro i branches j body ih filled
    have orElse : Node.Filled ⟨j, .block body⟩ := filled.child (by simp [Node.children])
    exact ih fun s hs => orElse.child hs
  case case3 =>
    intro i items j body isAsync ih filled
    have inner : Node.Filled ⟨j, .block body⟩ := filled.child (by simp [Node.children])
    exact ih fun s hs => inner.child hs
  case case4 =>
    intro n h1 h2 h3 filled
    exact ⟨_, trailing.eq_4 jump n h1 h2 h3⟩
  case case5 => exact fun _ => ⟨[], rfl⟩
  case case6 => exact fun stmt ih filled => ih (filled stmt (List.mem_singleton_self stmt))
  case case7 =>
    intro stmt rest nonempty ih filled
    rw [inLast.eq_3 jump stmt rest nonempty]
    exact ih fun s hs => filled s (List.mem_cons_of_mem _ hs)
  case case8 => exact fun _ => ⟨[], rfl⟩
  case case9 =>
    intro pattern guard i body rest whole ih filled
    rw [inCases, if_pos whole]
    exact ih fun c hc => filled c (List.mem_cons_of_mem _ hc)
  case case10 =>
    intro pattern guard i body rest part empty filled
    have nonempty := (filled _ List.mem_cons_self).isEmpty_eq_false
    rw [nonempty] at empty
    cases empty
  case case11 =>
    intro pattern guard i body rest part nonempty ihb ihr filled
    obtain ⟨here, hb⟩ := ihb fun s hs => (filled _ List.mem_cons_self).child hs
    obtain ⟨more, hr⟩ := ihr fun c hc => filled c (List.mem_cons_of_mem _ hc)
    refine ⟨here ++ more, ?_⟩
    rw [inCases, if_neg part, if_neg nonempty, hb, hr]
    rfl
  case case12 =>
    intro c rest noBlock ih filled
    rw [inCases.eq_3 jump c rest noBlock]
    exact ih fun c hc => filled c (List.mem_cons_of_mem _ hc)

theorem reported_mem_simple (simple : ∀ n, jump.isRedundant n → n.simple = [n]) {body : Node}
    {ns : List Node} (h : jump.inBody body = .ok ns) : ∀ s ∈ ns, s ∈ body.simple := by
  rcases inBody_eq_ok h with rfl | ⟨i, stmts, rfl, reported⟩
  · simp
  · exact (mem_simple_of_reported simple).2.1 stmts ns reported

theorem exists_inBody (jump : Jump) {body : Node} (filled : body.Filled) :
    ∃ ns, jump.inBody body = .ok ns := by
  obtain ⟨inNode, inList, -⟩ := reported_of_filled jump
  unfold inBody
  cases hb : body.blockBody? with
  | none => exact ⟨[], rfl⟩
  | some stmts =>
    have below (s : Node) (hs : s ∈ stmts) : s.Filled := by
      obtain ⟨i, shape⟩ := body
      cases shape <;> simp [Node.blockBody?] at hb
      exact filled.child (hb ▸ hs)
    match stmts with
    | [] => exact inList [] below
    | [stmt] =>
      by_cases alone : jump.standsAlone stmt
      · exact ⟨[], if_pos alone⟩
      · obtain ⟨ns, hns⟩ := inNode stmt (below stmt (List.mem_singleton_self stmt))
        exact ⟨ns, (if_neg alone).trans hns⟩
    | first :: second :: rest => exact inList (first :: second :: rest) below

omit [LawfulMonad m] in
theorem returning_endsIn (I : Meaning m Value Error Manager Iterator) :
    returning.EndsIn I (.returned I.nothing) := by
  have bare (n : Node) (h : returning.isRedundant n) : ∃ i, n = ⟨i, .returnStmt none⟩ := by
    obtain ⟨i, shape⟩ := n
    cases shape <;> simp [returning, isBareReturn] at h
    rename_i value
    cases value <;> simp at h
    exact ⟨i, rfl⟩
  constructor
  case calm => intro e he; cases he
  all_goals
    intros
    obtain ⟨i, rfl⟩ := bare _ ‹_›
    rfl

omit [LawfulMonad m] in
theorem continuing_endsIn (I : Meaning m Value Error Manager Iterator) :
    continuing.EndsIn I .continued := by
  have bare (n : Node) (h : continuing.isRedundant n) : ∃ i, n = ⟨i, .continueStmt⟩ := by
    obtain ⟨i, shape⟩ := n
    cases shape <;> simp [continuing, isContinue] at h
    exact ⟨i, rfl⟩
  constructor
  case calm => intro e he; cases he
  all_goals
    intros
    obtain ⟨i, rfl⟩ := bare _ ‹_›
    rfl

end Rules.ControlFlow.Jump

namespace Meaning

variable {m : Type → Type} [Monad m] {Value Error Manager Iterator : Type}
  (I : Meaning m Value Error Manager Iterator)

theorem rounds_congr {body body' : Node} (h : I.round body' = I.round body)
    (next : m (Except Error Bool)) (orElse : Option Node) (limit : Nat) :
    I.rounds next body' orElse limit = I.rounds next body orElse limit := by
  induction limit with
  | zero => rfl
  | succ limit ih => simp only [rounds, h, ih]

/-- Taking out redundant returns does not change a function, and taking out redundant continues
changes neither a round of a loop nor the loop; where no block is empty, the search for them
succeeds. -/
theorem redundant_jumps_removable [LawfulMonad m] (body : Node)
    (distinct : (body.simple.map Node.id).Nodup) :
    (∀ ns, returning.inBody body = .ok ns →
      (∀ s ∈ ns, s ∈ body.simple) ∧ I.call (body.without ns) = I.call body) ∧
    (∀ ns, continuing.inBody body = .ok ns →
      (∀ s ∈ ns, s ∈ body.simple) ∧ I.round (body.without ns) = I.round body ∧
      ∀ limit i orElse,
        (∀ condition, I.loop limit ⟨i, .whileLoop condition (body.without ns) orElse⟩ =
          I.loop limit ⟨i, .whileLoop condition body orElse⟩) ∧
        ∀ index source isAsync,
          I.loop limit ⟨i, .forLoop index source (body.without ns) orElse isAsync⟩ =
            I.loop limit ⟨i, .forLoop index source body orElse isAsync⟩) ∧
    (body.Filled →
      (∃ ns, returning.inBody body = .ok ns) ∧ ∃ ns, continuing.inBody body = .ok ns) := by
  refine ⟨fun ns h => ⟨?_, ?_⟩, fun ns h => ?_, fun filled => ?_⟩
  · exact Jump.reported_mem_simple (Jump.returning_endsIn I).simple h
  · exact Jump.sameUpTo_without (Jump.returning_endsIn I) distinct h _ _ rfl
  · have round : I.round (body.without ns) = I.round body := by
      simp only [Meaning.round, map_eq_pure_bind]
      exact Jump.sameUpTo_without (Jump.continuing_endsIn I) distinct h _ _ rfl
    refine ⟨Jump.reported_mem_simple (Jump.continuing_endsIn I).simple h, round, ?_⟩
    intro limit i orElse
    refine ⟨fun condition => I.rounds_congr round _ _ _, fun index source isAsync => ?_⟩
    simp only [loop, I.rounds_congr round]
  · exact ⟨Jump.exists_inBody returning filled, Jump.exists_inBody continuing filled⟩

/-- A `with` block around a `match` in which both cases end with a jump, in a run that writes down
what it does. -/
theorem redundant_jumps_removable_match :
    let I : Meaning (StateM (List NodeId)) Nat Nat NodeId Unit := {
      nothing := 0
      value := fun n s => (.ok n.id, n.id :: s)
      test := fun n s => (.ok (s.length = n.id), n.id :: s)
      takes := fun v p s => (.ok (v = p.id), p.id :: s)
      enter := fun _ n s => (.ok n.id, n.id :: s)
      bind := fun manager n s => (.ok (), manager :: n.id :: s)
      leave := fun manager e s => (.ok e.isSome, manager :: s)
      iterate := fun _ n s => (.ok (), n.id :: s)
      advance := fun _ n s => (.ok (s.length < n.id), n.id :: s)
      other := fun n s => (if n.id = 5 then .raised 7 else .normal, n.id :: s) }
    let node := fun (id : NodeId) (shape : Shape Node) => Node.mk ⟨id, .nowhere⟩ shape
    let body := fun (jump : Shape Node) => node 0 (.block [node 1 .passStmt, node 2 (.withBlock
      [⟨node 3 .ellipsis, none⟩]
      (node 4 (.block [node 5 (.expression (node 6 .ellipsis)), node 7 (.matching (node 8 .ellipsis)
        [⟨node 9 .ellipsis, none, node 10 (.block [node 11 .passStmt, node 12 jump])⟩,
          ⟨node 13 (.asPattern none none), none, node 14 (.block [node 15 jump])⟩])])) false)])
    let returns := [node 12 (.returnStmt none), node 15 (.returnStmt none)]
    let continues := [node 12 .continueStmt, node 15 .continueStmt]
    returning.inBody (body (.returnStmt none)) = .ok returns ∧
      I.call ((body (.returnStmt none)).without returns) = I.call (body (.returnStmt none)) ∧
      continuing.inBody (body .continueStmt) = .ok continues ∧
      I.round ((body .continueStmt).without continues) = I.round (body .continueStmt) := by
  intro I node body returns continues
  have distinct : ([1, 5, 11, 12, 15] : List NodeId).Nodup := by decide
  exact ⟨rfl, ((I.redundant_jumps_removable (body (.returnStmt none)) distinct).1 returns rfl).2,
    rfl, ((I.redundant_jumps_removable (body .continueStmt) distinct).2.1 continues rfl).2.1⟩

end Meaning

end IdiomLint
