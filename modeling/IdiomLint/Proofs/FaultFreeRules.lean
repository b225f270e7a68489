import IdiomLint.Proofs.RedundantJumps
import IdiomLint.Proofs.WellFormed
import IdiomLint.Rules.Affixes
import IdiomLint.Rules.Comprehensions
import IdiomLint.Rules.Containers
import IdiomLint.Rules.Defaults
import IdiomLint.Rules.Emptiness
import IdiomLint.Rules.Functions
import IdiomLint.Rules.Loops
import IdiomLint.Rules.MethodChains
import IdiomLint.Rules.OpenFiles
import IdiomLint.Rules.TypeTests

/-! The rules that can meet a fault, on well-formed trees and complete symbol tables. All of them
succeed there but one: a second test of a type that has no argument. -/
namespace IdiomLint.Rules

open Node

variable {env : Env} {n : Node}

theorem Functions.succeeds_forwardedTo? {params : List (Param Node)} (h : n.WellFormed) :
    Succeeds (forwardedTo? params n) := by
  unfold forwardedTo?
  split
  · split
    · refine Succeeds.bind (succeeds_map_iff.2 ?_) fun _ => succeeds_pure _
      exact (h.child (by simp [children])).succeeds_entries _
    · exact succeeds_ok _
  · exact succeeds_ok _

theorem Functions.succeeds_functionName (h : n.WellFormed) : Succeeds (functionName env n) := by
  unfold functionName
  split
  case h_2 => exact succeeds_ok _
  case h_1 i params body g =>
    have inBody : body.WellFormed := h.child (by simp [children, functionParts])
    cases hv : returned? body with
    | none => exact succeeds_ok _
    | some value =>
      have inValue : value.WellFormed := by
        unfold returned? at hv
        split at hv
        · cases hv
          exact (inBody.child List.mem_cons_self).child (by simp [children])
        · cases hv
      refine (succeeds_forwardedTo? inValue).bind fun found => ?_
      cases found with
      | some f => exact succeeds_pure _
      | none => dsimp only; split <;> exact succeeds_pure _

theorem Containers.succeeds_sliceCopy (h : n.WellFormed) : Succeeds (sliceCopy env n) :=
  succeeds_map_iff.2 (h.succeeds_entries _)

theorem Affixes.succeeds_cutAffix (h : n.WellFormed) (notes : Notes) :
    Succeeds (cutAffix env notes n) := by
  unfold cutAffix
  split
  · exact succeeds_ok _
  · split
    · refine succeeds_map_iff.2 (succeeds_map_iff.2 ?_)
      exact (h.child (by simp [children])).succeeds_entries _
    all_goals exact succeeds_ok _

theorem Interpolation.succeeds_callsIn (h : n.WellFormed) : Succeeds (callsIn n) :=
  succeeds_map_iff.2 (h.succeeds_entries _)

theorem Interpolation.succeeds_singleField (env : Env) (h : n.WellFormed) (notes : Notes) :
    Succeeds (singleField env notes n) := by
  unfold singleField
  split
  · exact succeeds_ok _
  · split
    case h_2 => exact succeeds_ok _
    case h_1 i callee args analyzed _ =>
      have argument {a : CallArg Node} (ha : a ∈ args) : a.value.WellFormed :=
        h.child (by simp only [children, List.mem_append, List.mem_cons, List.mem_map]
                    exact .inl (.inr ⟨a, ha, rfl⟩))
      split
      case h_1 =>
        refine Succeeds.bind (succeeds_mapM fun item hi => ?_) fun _ => succeeds_pure _
        have inList := argument List.mem_cons_self
        exact succeeds_callsIn (inList.child hi)
      case h_2 =>
        split
        · exact (succeeds_ok _).ite (succeeds_ok _)
        · have inSpec := argument (List.mem_cons_of_mem _ List.mem_cons_self)
          exact succeeds_map_iff.2 (succeeds_callsIn inSpec)
      case h_3 => exact succeeds_ok _

theorem MethodChains.succeeds_continues {n : Node} (h : n.WellFormed) (name : String) :
    Succeeds (continues name n) := by
  unfold continues
  split
  case h_1 i j base ref args analyzed =>
    split
    · exact (succeeds_map_iff.2 (h.succeeds_readCount name)).ite (succeeds_ok _)
    · exact succeeds_continues ((h.child List.mem_cons_self).child (by simp [children])) name
  case h_2 => exact succeeds_ok _
termination_by sizeOf n

theorem MethodChains.succeeds_stillOpen {stmt : Node} (h : stmt.WellFormed)
    (candidates : List Candidate) : Succeeds (stillOpen stmt candidates) := by
  induction candidates with
  | nil => exact succeeds_ok _
  | cons c rest ih =>
    exact (h.succeeds_readCount c.name).bind fun _ => ih.bind fun _ => succeeds_pure _

theorem MethodChains.succeeds_chained {stmts : List Node} (h : ∀ stmt ∈ stmts, stmt.WellFormed)
    (last : String) (candidates : List Candidate) : Succeeds (chained last candidates stmts) := by
  induction stmts generalizing last candidates with
  | nil => exact succeeds_ok _
  | cons stmt rest ih =>
    obtain ⟨here, below⟩ := List.forall_mem_cons.1 h
    have further (last : String) (candidates : List Candidate) :
        Succeeds (chained last candidates rest) := ih below last candidates
    have follows {value : Node} (hv : value.WellFormed) {next : Bool → Except Fault (List Finding)}
        (each : ∀ b, Succeeds (next b)) :
        Succeeds (if last == "" then pure false >>= next else continues last value >>= next) :=
      ((succeeds_pure false).bind each).ite ((succeeds_continues hv last).bind each)
    unfold chained
    refine (succeeds_stillOpen here candidates).bind fun candidates => ?_
    split
    case h_1 i j target binding value =>
      refine follows (here.child List.mem_cons_self) fun b => ?_
      dsimp only
      refine Succeeds.ite (Succeeds.ite ((further _ _).bind fun _ => succeeds_pure _) ?_) ?_
      all_goals exact further _ _
    case h_2 i value =>
      have after (b : Bool) : Succeeds (if b then do
          return Finding.ofNode ⟨i, .returnStmt value⟩ returnMessage :: (← chained last candidates rest)
          else chained last candidates rest) :=
        ((further _ _).bind fun _ => succeeds_pure _).ite (further _ _)
      cases value with
      | none => exact (succeeds_pure false).bind after
      | some v => exact follows (here.child (by simp [children])) after
    case h_3 => exact further _ _

theorem MethodChains.succeeds_fluentInterface (h : n.WellFormed) :
    Succeeds (fluentInterface env n) := by
  unfold fluentInterface
  split
  case h_1 i name params body g =>
    have inBody : body.WellFormed := h.child (by simp [children, functionParts])
    exact succeeds_chained (fun _ hs => inBody.of_mem_statements hs) _ _
  case h_2 => exact succeeds_ok _

/-- What fills a list stands below its loop. -/
theorem Comprehensions.wellFormed_of_fillingStmt? {stmt filling : Node} {body : LoopBody}
    {fullname : String} (h : stmt.WellFormed) (hb : loopBody? stmt = some body)
    (hf : fillingStmt? fullname body = some filling) : filling.WellFormed := by
  have parts : body.stmt.WellFormed ∧ ∀ inner ∈ body.guarded, inner.WellFormed := by
    unfold loopBody? at hb
    split at hb
    case h_2 => cases hb
    case h_1 i index source j stmt orElse isAsync =>
      have block : WellFormed ⟨j, .block [stmt]⟩ := h.child (by simp [children])
      have only : stmt.WellFormed := block.child List.mem_cons_self
      split at hb
      case h_1 k condition l inner =>
        have branch : WellFormed ⟨l, .block [inner]⟩ := only.child (by simp [children])
        cases hb
        refine ⟨only, fun m hm => ?_⟩
        split at hm <;> cases hm
        exact branch.child List.mem_cons_self
      case h_2 =>
        cases hb
        exact ⟨only, by simp⟩
  unfold fillingStmt? at hf
  split at hf
  case h_1 inner found =>
    cases hf
    exact parts.2 _ (Option.filter_eq_some_iff.1 found).1
  case h_2 =>
    split at hf
    · cases hf
      exact parts.1
    · cases hf

theorem Comprehensions.succeeds_filledLists {stmts : List Node}
    (h : ∀ stmt ∈ stmts, stmt.WellFormed) (made : Option Node) :
    Succeeds (filledLists made stmts) := by
  induction stmts generalizing made with
  | nil => exact succeeds_ok _
  | cons stmt rest ih =>
    obtain ⟨here, below⟩ := List.forall_mem_cons.1 h
    unfold filledLists
    split
    · exact ih below _
    · split
      · exact ih below _
      · dsimp only
        split
        case h_1 body hb _ filling hf =>
          have inFilling := wellFormed_of_fillingStmt? here hb hf
          refine (inFilling.succeeds_readCount _).bind fun _ => ?_
          exact (ih below _).bind fun _ => succeeds_pure _
        case h_2 => exact ih below _

theorem Comprehensions.succeeds_listLoop (h : n.WellFormed) : Succeeds (listLoop env n) :=
  succeeds_filledLists (fun _ hs => h.of_mem_statements hs) none

theorem Loops.wellFormed_of_loopLike? {l : LoopLike} (h : n.WellFormed)
    (hl : loopLike? n = some l) : ∀ context ∈ l.contexts, context.WellFormed := by
  have child {context : Node} (hc : context ∈ n.children .calleeFirst) := h.child hc
  unfold loopLike? at hl
  split at hl <;> cases hl
  all_goals
    intro context hc
    refine child ?_
    simp only [List.mem_cons, List.not_mem_nil, or_false] at hc
    simp only [children, Clause.parts, List.flatMap_cons, List.flatMap_nil, List.append_nil,
      List.mem_cons, List.mem_append, List.not_mem_nil, or_false]
    grind

theorem Loops.succeeds_unusedNames {contexts : List Node}
    (h : ∀ c ∈ contexts, Succeeds (c.entries .full))
    (first second : Node) (firstMessage secondMessage : String) :
    Succeeds (unusedNames first second contexts firstMessage secondMessage) :=
  (succeeds_unusedIn h _).bind fun _ => (succeeds_unusedIn h _).bind fun _ => succeeds_pure _

section

variable (complete : env.table.Complete)
include complete

theorem Loops.succeeds_dictItems (h : n.WellFormed) : Succeeds (dictItems env n) := by
  unfold dictItems
  split
  case h_2 => exact succeeds_ok _
  case h_1 hl =>
    have contexts (c) (hc) := (wellFormed_of_loopLike? h hl c hc).succeeds_entries .full
    split
    · refine Succeeds.ite ((complete.succeeds_isMapping _).bind fun _ => ?_) (succeeds_ok _)
      exact (succeeds_unusedNames contexts _ _ _ _).ite (succeeds_pure _)
    · exact succeeds_ok _

theorem Loops.succeeds_enumeration (h : n.WellFormed) : Succeeds (enumeration env n) := by
  unfold enumeration
  split
  case h_2 => exact succeeds_ok _
  case h_1 hl =>
    have contexts (c) (hc) := (wellFormed_of_loopLike? h hl c hc).succeeds_entries .full
    split
    · refine Succeeds.ite ((complete.succeeds_inherits _ _).bind fun _ => ?_) (succeeds_ok _)
      exact (succeeds_unusedNames contexts _ _ _ _).ite (succeeds_pure _)
    · exact succeeds_ok _

theorem Comparisons.succeeds_dictKeys (n : Node) : Succeeds (dictKeys env n) := by
  unfold dictKeys
  split
  · refine Succeeds.ite ((complete.succeeds_isMapping _).bind fun _ => ?_) (succeeds_ok _)
    exact (succeeds_pure _).ite (succeeds_pure _)
  · exact succeeds_ok _

theorem OpenFiles.succeeds_writeLines (n : Node) : Succeeds (writeLines env n) := by
  unfold writeLines
  split
  · refine Succeeds.ite ((complete.succeeds_inherits _ _).bind fun _ => ?_) (succeeds_ok _)
    exact (succeeds_pure _).ite (succeeds_pure _)
  · exact succeeds_ok _

theorem OpenFiles.succeeds_readLines (n : Node) : Succeeds (readLines env n) := by
  unfold readLines
  split
  · refine Succeeds.ite ((complete.succeeds_inherits _ _).bind fun _ => ?_) (succeeds_ok _)
    exact (succeeds_pure _).ite (succeeds_pure _)
  · exact succeeds_ok _

theorem OpenFiles.succeeds_iteratedLines (n : Node) : Succeeds (iteratedLines env n) := by
  unfold iteratedLines
  split
  · exact succeeds_readLines complete _
  · exact succeeds_map_iff.2 (succeeds_mapM fun c _ => succeeds_readLines complete c.source)
  · exact succeeds_ok _

theorem Containers.succeeds_allTexts? (items : List (Option Node × Node)) :
    Succeeds (allTexts? env items) := by
  induction items with
  | nil => exact succeeds_ok _
  | cons entry rest ih =>
    have texts : Succeeds (entryTexts? env entry) := by
      obtain ⟨key, value⟩ := entry
      cases key with
      | some key => exact succeeds_ok _
      | none =>
        exact (complete.succeeds_isMapping value).bind fun _ => (succeeds_pure _).ite (succeeds_pure _)
    refine texts.bind fun text => ?_
    cases text with
    | none => exact succeeds_pure _
    | some t => exact ih.bind fun _ => succeeds_pure _

theorem Containers.succeeds_dictArguments? (alone : Bool) (args : List (CallArg Node))
    (d : DictArguments) : Succeeds (dictArguments? env alone d args) := by
  induction args generalizing d with
  | nil => exact succeeds_ok _
  | cons a rest ih =>
    obtain ⟨value, kind, name⟩ := a
    unfold dictArguments?
    dsimp only
    split
    · exact succeeds_ok _
    · exact (complete.succeeds_isMapping value).bind fun _ => (ih _).ite (succeeds_pure _)
    · split <;> exact ih _

theorem Containers.succeeds_dictUnion (n : Node) : Succeeds (dictUnion env n) := by
  unfold dictUnion
  refine (succeeds_ok _).ite ?_
  split
  case h_1 items =>
    refine Succeeds.ite ((succeeds_allTexts? complete items).bind fun texts => ?_) (succeeds_ok _)
    cases texts <;> exact succeeds_pure _
  case h_2 callee args analyzed =>
    refine Succeeds.ite (Succeeds.ite (succeeds_ok _) ?_) (succeeds_ok _)
    refine (succeeds_dictArguments? complete _ args _).bind fun d => ?_
    cases d <;> exact succeeds_pure _
  case h_3 => exact succeeds_ok _

theorem Emptiness.succeeds_lengthOf? (n : Node) : Succeeds (lengthOf? env n) := by
  unfold lengthOf?
  split
  · exact Succeeds.ite ((complete.succeeds_isSized _).bind fun _ => succeeds_pure _) (succeeds_ok _)
  · exact succeeds_ok _

theorem Emptiness.succeeds_simplified (n : Node) : Succeeds (simplified env n) := by
  fun_induction simplified env n with
  | case1 _ _ _ _ _ _ _ _ _ ih => exact ih
  | case3 i j base ref analyzed _ ih =>
    exact (complete.succeeds_isMapping base).bind fun _ => ih.ite (succeeds_pure _)
  | case2 | case4 | case5 => exact succeeds_ok _

theorem Emptiness.succeeds_part (n : Node) : Succeeds (part env n) := by
  have compared : Succeeds (comparison env n) := by
    unfold comparison
    split
    · refine (succeeds_lengthOf? complete _).bind fun container => ?_
      split
      · exact (succeeds_simplified complete _).bind fun _ => succeeds_pure _
      · exact succeeds_pure _
    all_goals exact succeeds_ok _
  have called : Succeeds (lengthCall env n) := by
    refine (succeeds_lengthOf? complete n).bind fun arg => ?_
    cases arg <;> exact succeeds_pure _
  unfold part
  split
  · exact compared
  · exact called
  · exact succeeds_ok _

omit complete in
theorem Emptiness.mem_children_of_mem_conditionsOf {c : Node} (h : c ∈ conditionsOf n) :
    c ∈ n.children .calleeFirst := by
  unfold conditionsOf at h
  split at h
  case h_8 => cases h
  all_goals
    simp only [children, Clause.parts, MatchCase.parts, List.mem_append, List.mem_cons,
      List.mem_flatMap, List.mem_filterMap, List.not_mem_nil, or_false] at h ⊢
    grind

theorem Emptiness.succeeds_lengthTest (h : n.WellFormed) : Succeeds (lengthTest env n) := by
  refine succeeds_map_iff.2 (succeeds_mapM fun c hc => ?_)
  have inCondition := h.child (mem_children_of_mem_conditionsOf hc)
  exact inCondition.succeeds_foldEvents _
    (fun _ m => succeeds_map_iff.2 (succeeds_part complete m)) []

theorem Defaults.succeeds_judgeSymbol (callee : Node) (args : List (CallArg Node)) (fuel : Nat)
    (symbol : SymbolId) (notes : Notes) :
    Succeeds (judgeSymbol env callee args fuel symbol notes) := by
  induction fuel generalizing symbol notes with
  | zero => exact succeeds_ok _
  | succ fuel ih =>
    unfold judgeSymbol
    split
    case h_3 items implementation _ => cases implementation <;> exact succeeds_ok _
    case h_4 info known =>
      refine succeeds_foldlM (fun s maker _ => ?_) _
      dsimp only
      split
      · exact succeeds_ok _
      case h_2 nowhere => exact absurd nowhere (complete.member known)
      · exact (ih _ _).bind fun _ => succeeds_pure _
    all_goals exact succeeds_ok _

theorem Defaults.succeeds_implicitDefault (n : Node) (notes : Notes) :
    Succeeds (implicitDefault env notes n) := by
  unfold implicitDefault
  split
  · split
    · exact succeeds_judgeSymbol complete _ _ _ _ _
    · exact succeeds_ok _
  · exact succeeds_ok _

end

theorem Comprehensions.succeeds_starmap (env : Env) (n : Node) (notes : Notes) :
    Succeeds (starmap env notes n) := by
  unfold starmap
  split
  · exact succeeds_ok _
  · split <;> exact succeeds_ok _

theorem Comprehensions.succeeds_flattening (env : Env) (n : Node) (notes : Notes) :
    Succeeds (flattening env notes n) := by
  unfold flattening
  refine (succeeds_ok _).ite ?_
  split
  case h_4 => split <;> exact succeeds_ok _
  case h_5 => exact succeeds_ok _
  all_goals exact (succeeds_ok _).ite (succeeds_ok _)

namespace ControlFlow

theorem wellFormed_of_functionBody? {body : Node} (h : n.WellFormed)
    (hb : functionBody? n = some body) : body.WellFormed := by
  unfold functionBody? at hb
  split at hb <;> cases hb
  all_goals exact h.child (by simp [children, functionParts])

theorem succeeds_redundantReturn (h : n.WellFormed) : Succeeds (redundantReturn env n) := by
  unfold redundantReturn
  split
  case h_1 body hb =>
    have filled := (wellFormed_of_functionBody? h hb).filled
    exact succeeds_map_iff.2 (returning.exists_inBody filled)
  case h_2 => exact succeeds_ok _

theorem succeeds_redundantContinue (h : n.WellFormed) : Succeeds (redundantContinue env n) := by
  unfold redundantContinue
  dsimp only
  split
  case h_1 body hb =>
    have inBody : body.WellFormed := by
      split at hb <;> cases hb
      all_goals exact h.child (by simp [children])
    exact succeeds_map_iff.2 (continuing.exists_inBody inBody.filled)
  case h_2 => exact succeeds_ok _

def IsFilledCase (c : MatchCase Node) : Prop := c.body.WellFormed ∧ c.body.blockBody?.isSome

theorem succeeds_allReturn {cases : List (MatchCase Node)} (h : ∀ c ∈ cases, IsFilledCase c) :
    Succeeds (allReturn cases) := by
  induction cases with
  | nil => exact succeeds_ok _
  | cons c rest ih =>
    obtain ⟨⟨inBody, block⟩, below⟩ := List.forall_mem_cons.1 h
    have ends : Succeeds (endsWithReturn c.body) := by
      obtain ⟨stmt, last⟩ := inBody.exists_getLast? block
      simp [endsWithReturn, last]
    exact ends.bind fun _ => (ih below).ite (succeeds_pure _)

theorem isFilledCase_of_mem {i : Info} {subject : Node} {cases : List (MatchCase Node)}
    (h : WellFormed ⟨i, .matching subject cases⟩) : ∀ c ∈ cases, IsFilledCase c := by
  intro c hc
  have own := h _ (.refl _)
  simp only [hasParts, List.all_eq_true] at own
  refine ⟨h.child ?_, own c hc⟩
  simp only [children, MatchCase.parts, List.mem_cons, List.mem_flatMap]
  exact .inr ⟨c, hc, by simp⟩

/-- By induction over the branches: a statement, and the cases of a `match` from one on. -/
theorem succeeds_finalReturn?_and_finalCase? :
    (∀ n : Node, n.WellFormed → Succeeds (finalReturn? n)) ∧
    (∀ all cases, (∀ c ∈ all, IsFilledCase c) → (∀ c ∈ cases, IsFilledCase c) →
      Succeeds (finalCase? all cases)) := by
  apply finalReturn?.mutual_induct
  case case1 => intro i value h; exact succeeds_ok _
  case case2 =>
    intro i subject cases ih h
    have filled := isFilledCase_of_mem h
    rw [finalReturn?]
    exact ih filled filled
  case case3 =>
    intro i condition body j stmt last hl returns ih h
    have orElse : WellFormed ⟨j, .block [stmt]⟩ := h.child (by simp [children])
    simp only [finalReturn?, hl, returns, if_true]
    exact ih (orElse.child List.mem_cons_self)
  case case4 =>
    intro i condition body j stmt last hl goesOn h
    simp [finalReturn?, hl, goesOn]
  case case5 =>
    intro i condition body j stmt hl h
    simp [finalReturn?, hl]
  case case6 =>
    intro n h1 h2 h3 h
    rw [finalReturn?.eq_4 n h1 h2 h3]
    exact succeeds_ok none
  case case7 => intro all _ _; exact succeeds_ok none
  case case8 =>
    intro all pattern guard i stmt wildcard ih every only
    have inStmt : stmt.WellFormed := (only _ List.mem_cons_self).1.child List.mem_cons_self
    simp only [finalCase?, wildcard, if_true]
    have others : ∀ c ∈ all.dropLast, IsFilledCase c :=
      fun c hc => every c ((List.dropLast_sublist all).subset hc)
    refine (succeeds_allReturn others).bind fun _ => ?_
    exact (ih inStmt).ite (succeeds_pure none)
  case case9 =>
    intro all pattern guard i stmt binds _ _
    simp [finalCase?, binds]
  case case10 =>
    intro all c rest other ih every these
    rw [finalCase?.eq_3 all c rest other]
    exact ih every (List.forall_mem_cons.1 these).2

theorem succeeds_elseReturn (h : n.WellFormed) : Succeeds (elseReturn env n) := by
  unfold elseReturn
  dsimp only
  split
  case h_1 => exact succeeds_ok _
  case h_2 stmt branch hs =>
    have inStmt : stmt.WellFormed := by
      have last : (functionBody? n).bind (fun body => body.blockBody?.bind List.getLast?)
          = some stmt := by
        split at hs <;> cases hs <;> assumption
      obtain ⟨body, hb, hl⟩ := Option.bind_eq_some_iff.1 last
      obtain ⟨stmts, block, hl⟩ := Option.bind_eq_some_iff.1 hl
      have inBody := wellFormed_of_functionBody? h hb
      unfold blockBody? at block
      split at block <;> cases block
      exact inBody.child (List.mem_of_getLast? hl)
    refine (succeeds_finalReturn?_and_finalCase?.1 stmt inStmt).bind fun found => ?_
    cases found <;> exact succeeds_pure _

end ControlFlow

/-- A second test of the type of a value that is given no value. -/
def TypeTests.testsNothing (n : Node) : Bool :=
  match n.operands? .or with
  | some (⟨_, .call ⟨_, .name f _⟩ [_, _] _⟩, ⟨_, .call ⟨_, .name g _⟩ [] _⟩) =>
    f.fullname == g.fullname
      && (f.fullname == "builtins.isinstance" || f.fullname == "builtins.issubclass")
  | _ => false

theorem TypeTests.sameValueTests_of_testsNothing (h : testsNothing n) :
    sameValueTests env n = .error .outOfRange := by
  unfold testsNothing at h
  unfold sameValueTests
  split at h
  case h_2 => cases h
  case h_1 ops => simp only [ops, h, if_true]

theorem TypeTests.classes_of_testsNothing (h : testsNothing n) : n.classes = [.binary] := by
  have operator : n.operands? .or ≠ none := by
    intro none
    simp [testsNothing, none] at h
  unfold operands? at operator
  split at operator
  · rfl
  · exact absurd rfl operator

theorem TypeTests.succeeds_sameValueTests (h : testsNothing n = false) :
    Succeeds (sameValueTests env n) := by
  unfold testsNothing at h
  unfold sameValueTests
  split
  case h_2 => exact succeeds_ok _
  case h_1 others _ ops =>
    cases others with
    | nil =>
      rw [ops] at h
      dsimp only at h
      rw [h]
      exact succeeds_ok _
    | cons other rest => exact ((succeeds_ok _).ite (succeeds_ok _)).ite (succeeds_ok _)

end IdiomLint.Rules
