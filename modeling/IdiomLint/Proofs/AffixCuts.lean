import IdiomLint.Proofs.Evaluation
import IdiomLint.Proofs.RedundantJumps
import IdiomLint.Rules.Affixes

/-! Cutting an affix off a string after testing for it. The method that is suggested gives the same
string as the slice, at every length, with one exception: at the end of a string, `-0` is no bound
from the end, and so cutting an empty affix off there leaves nothing. -/
namespace IdiomLint

namespace Evaluation

section

variable {α : Type} (xs : List α)

theorem sliced_from (k : Nat) : sliced (some k) none xs = xs.drop k := by
  have cut : cutAt xs.length k = Nat.min k xs.length := if_neg (by omega)
  simp only [sliced, Option.map_some, Option.map_none, Option.getD_some, Option.getD_none,
    List.take_length, cut]
  exact List.drop_eq_drop_min.symm

theorem sliced_upTo_neg (k : Nat) :
    sliced none (some (-(k : Int))) xs = if k = 0 then [] else xs.take (xs.length - k) := by
  have cut : cutAt xs.length (-(k : Int)) = if k = 0 then 0 else xs.length - k := by
    unfold cutAt
    split
    · rw [if_neg (by omega)]
      omega
    · obtain rfl : k = 0 := by omega
      simp
  simp only [sliced, Option.map_some, Option.map_none, Option.getD_some, Option.getD_none,
    List.drop_zero, cut]
  split <;> simp

end

def hasAffix (atEnd : Bool) (affix chars : List Char) : Bool :=
  if atEnd then affix.isSuffixOf chars else affix.isPrefixOf chars

def removeAffix (atEnd : Bool) (affix chars : List Char) : List Char :=
  if atEnd then removeSuffix affix chars else removePrefix affix chars

/-- The slice that is meant to cut an affix of this length off. -/
def cutOff (atEnd : Bool) (length : Nat) (chars : List Char) : List Char :=
  if atEnd then sliced none (some (-(length : Int))) chars else sliced (some length) none chars

theorem cutOff_eq_removeAffix_iff (atEnd : Bool) (affix chars : List Char) :
    (if hasAffix atEnd affix chars then cutOff atEnd affix.length chars else chars) =
        removeAffix atEnd affix chars ↔
      ¬ (atEnd ∧ affix = [] ∧ chars ≠ []) := by
  cases atEnd with
  | false => simp [hasAffix, cutOff, removeAffix, removePrefix, sliced_from]
  | true =>
    simp only [hasAffix, cutOff, removeAffix, removeSuffix, sliced_upTo_neg, if_true]
    by_cases empty : affix = []
    · subst empty
      cases chars <;> simp
    · simp [empty]

/-- States of a program: what expressions are worth in them, what assigning to a target makes of
them, and how statements go that neither test nor assign. -/
structure Store (State Item : Type) where
  reading : State → Valuation Item
  assign : Node → Value Item → State → State
  others : Meaning (StateM State) (Option (Value Item)) Unit Unit Unit

namespace Store

variable {State Item : Type} (S : Store State Item)

/-- The meaning of statements: conditions are evaluated and hold or not, and an assignment to one
target stores the value. -/
def meaning : Meaning (StateM State) (Option (Value Item)) Unit Unit Unit where
  __ := S.others
  test n state :=
    (((S.reading state).eval n).elim (.error ()) fun v => .ok ((S.reading state).holds v), state)
  other n := match n with
    | ⟨_, .assignment [target] value⟩ => fun state =>
      ((S.reading state).eval value).elim (.raised (), state) fun v =>
        (.normal, S.assign target v state)
    | n => S.others.other n

def run (n : Node) (state : State) : Outcome (Option (Value Item)) Unit × State :=
  S.meaning.exec n state

theorem run_assignment {i : Info} {target value : Node} {state : State} {v : Value Item}
    (h : (S.reading state).eval value = some v) :
    S.run ⟨i, .assignment [target] value⟩ state = (.normal, S.assign target v state) := by
  change ((S.reading state).eval value).elim _ _ = _
  rw [h]
  rfl

theorem run_ifElse {i j : Info} {condition stmt : Node} {state : State} {holds : Bool}
    (h : (S.reading state).eval condition = some (.truth holds)) :
    S.run ⟨i, .ifElse [(condition, ⟨j, .block [stmt]⟩)] none⟩ state =
      if holds then S.run stmt state else (.normal, state) := by
  have tested : S.meaning.test condition state = (.ok holds, state) := by
    change (Option.elim ((S.reading state).eval condition) _ _, state) = _
    rw [h]
    rfl
  have body : S.meaning.exec ⟨j, .block [stmt]⟩ = S.meaning.exec stmt :=
    S.meaning.execAll_singleton stmt
  have branches : S.run ⟨i, .ifElse [(condition, ⟨j, .block [stmt]⟩)] none⟩ state =
      (Meaning.orRaise (S.meaning.test condition) fun holds =>
        if holds then S.meaning.exec ⟨j, .block [stmt]⟩ else pure .normal) state := rfl
  rw [branches, body, Meaning.orRaise]
  change (StateT.bind (S.meaning.test condition) _ : StateM State _) state = _
  rw [StateT.bind, tested]
  cases holds <;> rfl

/-- The parts of a node that are taken for `x` are one variable: it keeps what is assigned to it,
and assigning what it holds changes nothing. -/
structure IsVariable (n x : Node) : Prop where
  same : ∀ m : Node, m.Within n → m.equivalent x → S.assign m = S.assign x
  kept : ∀ state v, (S.reading state).eval x = some v → S.assign x v state = state
  read : ∀ state v, (S.reading (S.assign x v state)).eval x = some v

end Store

end Evaluation

namespace Rules.Affixes

open Evaluation Finding

variable {Item : Type} {V : Valuation Item} {n : Node}

theorem affixTest?_eq_some {condition tested affix : Node} {test : String}
    (h : affixTest? condition = some (tested, test, affix)) :
    ∃ i j ref kind name analyzed,
      condition = ⟨i, .call ⟨j, .member tested ref⟩ [⟨affix, kind, name⟩] analyzed⟩ ∧
      ref.name = test ∧ (test = "endswith" ∨ test = "startswith") := by
  unfold affixTest? at h
  split at h
  case h_1 i j base ref affix kind name analyzed =>
    rw [Option.ite_none_right_eq_some] at h
    obtain ⟨named, same⟩ := h
    cases same
    exact ⟨i, j, ref, kind, name, analyzed, rfl, rfl, by simpa using named⟩
  case h_2 => cases h

theorem isLengthOf_eq_true {affix size : Node} (h : isLengthOf affix size = true) :
    ∃ i callee arg kind name analyzed, size = ⟨i, .call callee [⟨arg, kind, name⟩] analyzed⟩ ∧
      callee.refersTo "builtins.len" ∧ affix.equivalent arg := by
  unfold isLengthOf at h
  split at h
  case h_1 i callee arg kind name analyzed =>
    rw [Bool.and_eq_true] at h
    exact ⟨i, callee, arg, kind, name, analyzed, rfl, h.1, h.2⟩
  case h_2 => cases h

/-- A size is the length of a literal, or the length that `len` gives. -/
theorem isSizeOf_cases {affix size : Node} (h : isSizeOf affix size = true) :
    (∃ i j s, affix = ⟨i, .str s⟩ ∧ size = ⟨j, .int s.length⟩) ∨ isLengthOf affix size := by
  unfold isSizeOf at h
  split at h
  case h_1 i s j k => exact .inl ⟨i, j, s, rfl, by rw [eq_of_beq h]⟩
  case h_2 => exact .inr h

theorem cutsOff_cases {test : String} {affix : Node} {start stop : Option Node}
    (h : cutsOff test affix start stop = true) :
    (test = "startswith" ∧ ∃ size, start = some size ∧ stop = none ∧ isSizeOf affix size) ∨
    (test = "endswith" ∧ ∃ i size method, start = none ∧
      stop = some ⟨i, .unary .neg size method⟩ ∧ isSizeOf affix size) := by
  unfold cutsOff at h
  split at h
  case h_1 size =>
    rw [Bool.and_eq_true, beq_iff_eq] at h
    exact .inl ⟨h.1, size, rfl, rfl, h.2⟩
  case h_2 i size method =>
    rw [Bool.and_eq_true, beq_iff_eq] at h
    exact .inr ⟨h.1, i, size, method, rfl, rfl, h.2⟩
  case h_3 => cases h

theorem eval_size (plain : V.Plain n) (uniform : V.Uniform n) {affix size : Node}
    (affixWithin : affix.Within n) (sizeWithin : size.Within n) {p : List Char}
    (hp : V.eval affix = some (.text p)) (h : isSizeOf affix size = true) :
    V.eval size = some (.number p.length) := by
  rcases isSizeOf_cases h with ⟨i, j, s, rfl, rfl⟩ | counted
  · cases hp
    rw [V.eval_int, String.length_toList]
  · obtain ⟨i, callee, arg, kind, name, analyzed, rfl, len, same⟩ := isLengthOf_eq_true counted
    have called : V.eval callee = some (.function .len) := V.eval_of_refersTo (f := .len) len
    have position : kind = .pos := by
      simpa [Value.takes] using (plain.within sizeWithin).takes called
    have argWithin : arg.Within n :=
      sizeWithin.child (by simp [Node.children])
    have value : V.eval arg = some (.text p) := uniform affix arg affixWithin argWithin same ▸ hp
    subst position
    rw [V.eval_call_single i called value]
    rfl

/-- A test for an affix, and a slice of the same string that cuts the affix off. -/
structure Cut (condition value : Node) where
  tested : Node
  test : String
  affix : Node
  sliced : Node
  start : Option Node
  stop : Option Node
  isTest : affixTest? condition = some (tested, test, affix)
  isSlice : ∃ i j method analyzed,
    value = ⟨i, .index sliced ⟨j, .slice start stop none⟩ method analyzed⟩
  same : sliced.equivalent tested
  cuts : cutsOff test affix start stop

namespace Cut

variable {condition value : Node} (c : Cut condition value)

def atEnd : Bool := c.test == "endswith"

theorem sliced_within (within : value.Within n) : c.sliced.Within n := by
  obtain ⟨i, j, method, analyzed, shown⟩ := c.isSlice
  rw [shown] at within
  exact within.child (by simp [Node.children])

theorem affix_within (within : condition.Within n) : c.affix.Within n := by
  obtain ⟨i, j, ref, kind, name, analyzed, shown, -⟩ := affixTest?_eq_some c.isTest
  rw [shown] at within
  exact within.child (by simp [Node.children])

theorem tested_within (within : condition.Within n) : c.tested.Within n := by
  obtain ⟨i, j, ref, kind, name, analyzed, shown, -⟩ := affixTest?_eq_some c.isTest
  rw [shown] at within
  have callee : Node.Within ⟨j, .member c.tested ref⟩ n :=
    within.child (by simp [Node.children])
  exact callee.child (by simp [Node.children])

variable (uniform : V.Uniform n) (conditionWithin : condition.Within n)
  (valueWithin : value.Within n) {s p : List Char}
include uniform conditionWithin valueWithin

theorem eval_tested (hs : V.eval c.sliced = some (.text s)) :
    V.eval c.tested = some (.text s) :=
  uniform _ _ (c.sliced_within valueWithin) (c.tested_within conditionWithin) c.same ▸ hs

variable (plain : V.Plain n)
include plain

theorem eval_condition (hs : V.eval c.sliced = some (.text s))
    (hp : V.eval c.affix = some (.text p)) :
    V.eval condition = some (.truth (hasAffix c.atEnd p s)) := by
  have tested := c.eval_tested uniform conditionWithin valueWithin hs
  obtain ⟨i, j, ref, kind, name, analyzed, shown, named, ends⟩ := affixTest?_eq_some c.isTest
  rw [shown] at conditionWithin
  have inside : Node.Within ⟨j, .member c.tested ref⟩ n :=
    conditionWithin.child (by simp [Node.children])
  obtain ⟨m, known, result⟩ : ∃ m, TextMethod.ofName? ref.name = some m ∧
      Value.ofTextMethod? s m [(none, .text p)] =
        some (.truth (hasAffix c.atEnd p s) : Value Item) := by
    rw [atEnd, named]
    rcases ends with ends | ends <;> rw [ends]
    · exact ⟨.endsWith, by decide, rfl⟩
    · exact ⟨.startsWith, by decide, rfl⟩
  have method := (plain.within inside).eval_method tested known
  have position : kind = .pos := by
    simpa [Value.takes] using (plain.within conditionWithin).takes method
  subst position
  refine (congrArg V.eval shown).trans ?_
  rw [V.eval_call_single i method hp]
  exact result

theorem eval_value (hs : V.eval c.sliced = some (.text s))
    (hp : V.eval c.affix = some (.text p)) :
    V.eval value = some (.text (cutOff c.atEnd p.length s)) := by
  have affixWithin := c.affix_within conditionWithin
  obtain ⟨i, j, method, analyzed, shown⟩ := c.isSlice
  rw [shown] at valueWithin
  have keyWithin : Node.Within ⟨j, .slice c.start c.stop none⟩ n :=
    valueWithin.child (by simp [Node.children])
  refine (congrArg V.eval shown).trans ?_
  rw [V.eval_index, hs, V.eval_slice, atEnd]
  rcases cutsOff_cases c.cuts with ⟨test, size, start, stop, isSize⟩ |
    ⟨test, k, size, method, start, stop, isSize⟩ <;> rw [test, start, stop]
  · have sizeWithin : size.Within n :=
      keyWithin.child (by simp [Node.children, start])
    rw [V.evalBound_some (eval_size plain uniform affixWithin sizeWithin hp isSize)]
    rfl
  · have boundWithin : Node.Within ⟨k, .unary .neg size method⟩ n :=
      keyWithin.child (by simp [Node.children, stop])
    have sizeWithin : size.Within n :=
      boundWithin.child (by simp [Node.children])
    have negated : V.eval ⟨k, .unary .neg size method⟩ = some (.number (-(p.length : Int))) := by
      change (V.eval size).bind _ = _
      rw [eval_size plain uniform affixWithin sizeWithin hp isSize]
      rfl
    rw [V.evalBound_some negated]
    rfl

end Cut

def removalMethod (atEnd : Bool) : TextMethod := if atEnd then .removeSuffix else .removePrefix

def removalCall (i : Info) (base : Node) (atEnd : Bool) (affix : Node) : Node :=
  ⟨i, .call ⟨i, .member base ⟨(removalMethod atEnd).name, "", none, false⟩⟩ [⟨affix, .pos, none⟩]
    none⟩

theorem eval_removalCall (i : Info) {base affix : Node} (atEnd : Bool) {s p : List Char}
    (hs : V.eval base = some (.text s)) (hp : V.eval affix = some (.text p)) :
    V.eval (removalCall i base atEnd affix) = some (.text (removeAffix atEnd p s)) := by
  have method : V.eval ⟨i, .member base ⟨(removalMethod atEnd).name, "", none, false⟩⟩ =
      some (.textMethod s (removalMethod atEnd)) := by
    have free : Builtin.ofFullname? "" = none := by decide
    rw [V.eval_member i free, hs]
    cases atEnd <;> rfl
  rw [removalCall, V.eval_call_single i method hp]
  cases atEnd <;> rfl

theorem exists_cut_of_mem_ofConditional {condition ifTrue ifFalse : Node} {f : Finding}
    (hf : f ∈ ofConditional n condition ifTrue ifFalse) :
    ∃ c : Cut condition ifTrue, c.tested.equivalent ifFalse ∧
      f = replace n n.sourceText (removal c.sliced c.test c.affix) := by
  unfold ofConditional at hf
  split at hf
  case h_1 tested test affix i sliced j start stop method analyzed isTest =>
    rw [List.mem_ite_nil_right, Bool.and_eq_true, Bool.and_eq_true] at hf
    obtain ⟨⟨⟨same, sameOther⟩, cuts⟩, here⟩ := hf
    exact ⟨⟨tested, test, affix, sliced, start, stop, isTest, ⟨i, j, method, analyzed, rfl⟩, same,
      cuts⟩, sameOther, List.mem_singleton.1 here⟩
  case h_2 => cases hf

theorem exists_cut_of_mem_ofStatement {condition stmt : Node} {f : Finding}
    (hf : f ∈ ofStatement n condition stmt) :
    ∃ i target value, stmt = ⟨i, .assignment [target] value⟩ ∧ ∃ c : Cut condition value,
      target.equivalent c.sliced ∧ f = replace n n.sourceText
        (c.sliced.sourceText ++ " = " ++ removal c.sliced c.test c.affix) := by
  unfold ofStatement at hf
  split at hf
  case h_1 tested test affix i target k sliced j start stop method analyzed isTest =>
    rw [List.mem_ite_nil_right, Bool.and_eq_true, Bool.and_eq_true] at hf
    obtain ⟨⟨⟨same, sameTarget⟩, cuts⟩, here⟩ := hf
    exact ⟨i, target, _, rfl, ⟨tested, test, affix, sliced, start, stop, isTest,
      ⟨k, j, method, analyzed, rfl⟩, same, cuts⟩, sameTarget, List.mem_singleton.1 here⟩
  case h_2 => cases hf

theorem cutAffix_cases {env : Env} {notes notes' : Notes} {found : List Finding} {f : Finding}
    (h : cutAffix env notes n = .ok (found, notes')) (hf : f ∈ found) :
    (∃ i condition ifTrue ifFalse, n = ⟨i, .conditional condition ifTrue ifFalse⟩ ∧
      f ∈ ofConditional n condition ifTrue ifFalse) ∨
    (∃ i condition j stmt more, n = ⟨i, .ifElse ((condition, ⟨j, .block [stmt]⟩) :: more) none⟩ ∧
      f ∈ ofStatement n condition stmt) := by
  unfold cutAffix at h
  split at h
  · cases h
    cases hf
  · split at h
    case h_1 i branches orElse _ =>
      cases below : elifsBelow orElse with
      | error fault => rw [below] at h; cases h
      | ok ids =>
        rw [below] at h
        cases h
        cases hf
    case h_2 i condition j stmt more _ =>
      cases h
      exact .inr ⟨i, condition, j, stmt, more, rfl, hf⟩
    case h_3 i condition ifTrue ifFalse _ =>
      cases h
      exact .inl ⟨i, condition, ifTrue, ifFalse, rfl, hf⟩
    case h_4 =>
      cases h
      cases hf

theorem removal_eq (base affix : Node) {test : String} :
    removal base test affix = base.sourceText ++ "." ++ (removalMethod (test == "endswith")).name
      ++ "(" ++ affix.sourceText ++ ")" := by
  unfold removal remover removalMethod
  split <;> rfl

/-- What a conditional or an `if` cuts off: whether it is at the end, the string and the affix. -/
def parts? : Node → Option (Bool × Node × Node)
  | ⟨_, .conditional condition ⟨_, .index sliced _ _ _⟩ _⟩
  | ⟨_, .ifElse [(condition, ⟨_, .block [⟨_, .assignment _ ⟨_, .index sliced _ _ _⟩⟩]⟩)] _⟩ =>
    (affixTest? condition).map fun (_, test, affix) => (test == "endswith", sliced, affix)
  | _ => none

namespace Cut

variable {condition value : Node} (c : Cut condition value) {s p : List Char}

theorem parts?_conditional (i : Info) (ifFalse : Node) :
    parts? ⟨i, .conditional condition value ifFalse⟩ = some (c.atEnd, c.sliced, c.affix) := by
  obtain ⟨j, k, method, analyzed, shown⟩ := c.isSlice
  refine (congrArg (fun v => parts? ⟨i, .conditional condition v ifFalse⟩) shown).trans ?_
  change (affixTest? condition).map _ = _
  rw [c.isTest]
  rfl

theorem parts?_ifElse (i j k : Info) (target : Node) :
    parts? ⟨i, .ifElse [(condition, ⟨j, .block [⟨k, .assignment [target] value⟩]⟩)] none⟩ =
      some (c.atEnd, c.sliced, c.affix) := by
  obtain ⟨l, m, method, analyzed, shown⟩ := c.isSlice
  refine (congrArg (fun v => parts?
    ⟨i, .ifElse [(condition, ⟨j, .block [⟨k, .assignment [target] v⟩]⟩)] none⟩) shown).trans ?_
  change (affixTest? condition).map _ = _
  rw [c.isTest]
  rfl

theorem eval_conditional_iff {i : Info} {ifFalse : Node}
    (hn : n = ⟨i, .conditional condition value ifFalse⟩) (other : c.tested.equivalent ifFalse)
    (plain : V.Plain n) (uniform : V.Uniform n)
    (hs : V.eval c.sliced = some (.text s)) (hp : V.eval c.affix = some (.text p)) :
    V.eval n = V.eval (removalCall i c.sliced c.atEnd c.affix) ↔
      ¬ (c.atEnd ∧ p = [] ∧ s ≠ []) := by
  have part {m : Node} (h : m = condition ∨ m = value ∨ m = ifFalse) : m.Within n :=
    Node.within_of_mem (by rw [hn]; simpa [Node.children] using h)
  have conditionWithin := part (.inl rfl)
  have valueWithin := part (.inr (.inl rfl))
  have kept : V.eval ifFalse = some (.text s) :=
    uniform _ _ (c.tested_within conditionWithin) (part (.inr (.inr rfl))) other ▸
      c.eval_tested uniform conditionWithin valueWithin hs
  rw [eval_removalCall i c.atEnd hs hp, ← cutOff_eq_removeAffix_iff, hn, V.eval_conditional,
    c.eval_condition uniform conditionWithin valueWithin plain hs hp,
    c.eval_value uniform conditionWithin valueWithin plain hs hp, kept, Option.bind_some,
    ← apply_ite, ← apply_ite, Option.some_inj, Value.text.injEq, Valuation.holds]

theorem run_ifElse_iff {State : Type} {S : Store State Item} {state : State} {i j k : Info}
    {target : Node}
    (hn : n = ⟨i, .ifElse [(condition, ⟨j, .block [⟨k, .assignment [target] value⟩]⟩)] none⟩)
    (same : target.equivalent c.sliced) (var : S.IsVariable n c.sliced)
    (plain : (S.reading state).Plain n) (uniform : (S.reading state).Uniform n)
    (hs : (S.reading state).eval c.sliced = some (.text s))
    (hp : (S.reading state).eval c.affix = some (.text p)) :
    S.run n state =
        S.run ⟨i, .assignment [c.sliced] (removalCall i c.sliced c.atEnd c.affix)⟩ state ↔
      ¬ (c.atEnd ∧ p = [] ∧ s ≠ []) := by
  have conditionWithin : condition.Within n :=
    Node.within_of_mem (by rw [hn]; simp [Node.children])
  have blockWithin : Node.Within ⟨j, .block [⟨k, .assignment [target] value⟩]⟩ n :=
    Node.within_of_mem (by rw [hn]; simp [Node.children])
  have stmtWithin : Node.Within ⟨k, .assignment [target] value⟩ n :=
    blockWithin.child (by simp [Node.children])
  have valueWithin : value.Within n :=
    stmtWithin.child (by simp [Node.children])
  have targetWithin : target.Within n :=
    stmtWithin.child (by simp [Node.children])
  have tested := c.eval_condition uniform conditionWithin valueWithin plain hs hp
  have cut := c.eval_value uniform conditionWithin valueWithin plain hs hp
  have run : S.run n state = (.normal, S.assign c.sliced (.text
      (if hasAffix c.atEnd p s then cutOff c.atEnd p.length s else s)) state) := by
    rw [hn, S.run_ifElse tested, S.run_assignment cut, var.same target targetWithin same]
    split
    · rfl
    · rw [var.kept state _ hs]
  rw [run, S.run_assignment (eval_removalCall i c.atEnd hs hp), ← cutOff_eq_removeAffix_iff]
  constructor
  · intro h
    -- Reading the variable tells the two states apart.
    have read := congrArg (fun o => (S.reading o.2).eval c.sliced) h
    simpa only [var.read, Option.some_inj, Value.text.injEq] using read
  · intro h
    rw [h]

end Cut

/-- What is reported and what is suggested for it give the same string, and leave the same behind,
unless an empty affix is cut off the end of a string that is not empty. -/
theorem affix_cut_same_iff {env : Env} {notes notes' : Notes} {found : List Finding} {f : Finding}
    (reported : cutAffix env notes n = .ok (found, notes')) (hf : f ∈ found)
    (single : ∀ i branches orElse, n = ⟨i, .ifElse branches orElse⟩ → branches.length = 1) :
    ∃ (atEnd : Bool) (subject affix : Node), parts? n = some (atEnd, subject, affix) ∧
      let new := removalCall n.info subject atEnd affix
      let text := subject.sourceText ++ "." ++ (removalMethod atEnd).name ++ "("
        ++ affix.sourceText ++ ")"
      (n.isExpression → f = replace n n.sourceText text ∧
        ∀ (Item : Type) (V : Valuation Item) (s p : List Char), V.Plain n → V.Uniform n →
          V.eval subject = some (.text s) → V.eval affix = some (.text p) →
          (V.eval n = V.eval new ↔ ¬ (atEnd ∧ p = [] ∧ s ≠ []))) ∧
      (¬ n.isExpression →
        f = replace n n.sourceText (subject.sourceText ++ " = " ++ text) ∧
        ∀ (State Item : Type) (S : Store State Item) (state : State) (s p : List Char),
          (S.reading state).Plain n → (S.reading state).Uniform n → S.IsVariable n subject →
          (S.reading state).eval subject = some (.text s) →
          (S.reading state).eval affix = some (.text p) →
          (S.run n state = S.run ⟨n.info, .assignment [subject] new⟩ state ↔
            ¬ (atEnd ∧ p = [] ∧ s ≠ []))) := by
  rcases cutAffix_cases reported hf with ⟨i, condition, ifTrue, ifFalse, rfl, here⟩ |
    ⟨i, condition, j, stmt, more, rfl, here⟩
  · obtain ⟨c, other, rfl⟩ := exists_cut_of_mem_ofConditional here
    refine ⟨c.atEnd, c.sliced, c.affix, c.parts?_conditional i ifFalse, ⟨fun _ => ⟨?_, ?_⟩,
      fun no => absurd rfl no⟩⟩
    · rw [removal_eq]
      rfl
    · intro Item V s p plain uniform hs hp
      exact c.eval_conditional_iff rfl other plain uniform hs hp
  · obtain rfl : more = [] := by simpa using single _ _ _ rfl
    obtain ⟨k, target, value, rfl, c, same, rfl⟩ := exists_cut_of_mem_ofStatement here
    refine ⟨c.atEnd, c.sliced, c.affix, c.parts?_ifElse i j k target, ⟨fun no => (by cases no),
      fun _ => ⟨?_, ?_⟩⟩⟩
    · rw [removal_eq]
      rfl
    · intro State Item S state s p plain uniform var hs hp
      exact c.run_ifElse_iff rfl same var plain uniform hs hp

def fileName : Node := ⟨default, .name ⟨"name", "m.name", none, false⟩ none⟩

/-- `name[:-k] if name.endswith(affix) else name`, where `k` is the length of the affix. -/
def endCut (affix : String) : Node :=
  let size : Node := ⟨default, .unary .neg ⟨default, .int affix.length⟩ none⟩
  ⟨default, .conditional
    ⟨default, .call ⟨default, .member fileName ⟨"endswith", "", none, false⟩⟩
      [⟨⟨default, .str affix⟩, .pos, none⟩] none⟩
    ⟨default, .index fileName ⟨default, .slice none (some size) none⟩ none none⟩
    fileName⟩

theorem affix_cut_same_iff_ending :
    let env : Env := ⟨.empty, ⟨3, 10⟩, []⟩
    let V : Valuation Int := .ofTable [("name", .text "a.txt".toList)]
    ∃ f, cutAffix env {} (endCut ".txt") = .ok ([f], {}) ∧
      V.Plain (endCut ".txt") ∧ V.Uniform (endCut ".txt") ∧
      V.eval (endCut ".txt") =
        V.eval (removalCall default fileName true ⟨default, .str ".txt"⟩) := by
  intro env V
  obtain ⟨f, reported⟩ : ∃ f, cutAffix env {} (endCut ".txt") = .ok ([f], {}) := ⟨_, rfl⟩
  have plain : V.Plain (endCut ".txt") := Valuation.plain_of_allDownTo 5 (by decide +kernel)
  have uniform : V.Uniform (endCut ".txt") := Valuation.uniform_of_allDownTo 5 (by decide +kernel)
  obtain ⟨atEnd, subject, affix, parts, same, -⟩ :=
    affix_cut_same_iff reported (List.mem_singleton.2 rfl) (by rintro i branches orElse ⟨⟩)
  cases parts
  have iff := (same rfl).2 Int V "a.txt".toList ".txt".toList plain uniform rfl rfl
  exact ⟨f, reported, plain, uniform, iff.2 (by decide)⟩

/-- An empty affix: the slice is `name[:-0]`, which is empty, and nothing has to be removed. -/
theorem empty_affix_cut_reported :
    let env : Env := ⟨.empty, ⟨3, 10⟩, []⟩
    let V : Valuation Int := .ofTable [("name", .text "a.txt".toList)]
    (∃ f, cutAffix env {} (endCut "") = .ok ([f], {})) ∧
      V.eval (endCut "") = some (.text []) ∧
      V.eval (removalCall default fileName true ⟨default, .str ""⟩) =
        some (.text "a.txt".toList) := by
  refine ⟨⟨_, rfl⟩, ?_, ?_⟩ <;> decide +kernel

end Rules.Affixes

end IdiomLint
