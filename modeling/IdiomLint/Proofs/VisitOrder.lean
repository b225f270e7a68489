import IdiomLint.Check.Visitor
import Mathlib.Data.List.Basic

/-! The order in which the visitor runs checks. Whatever methods the registered checks take over,
the visitor does what the plain pre-order walk asks for at each of its events; so more checks do
not change what the others see. -/
namespace IdiomLint

namespace Node

/-- Only the parts of calls are entered in another order than the traversal has. -/
theorem children_argumentsFirst (n : Node) :
    n.children .argumentsFirst = match n with
      | ⟨_, .call callee args _⟩ => args.map (·.value) ++ [callee]
      | _ => n.children .calleeFirst := by
  obtain ⟨info, shape⟩ := n
  cases shape
  case reveal kind value => cases kind <;> rfl
  all_goals rfl

section

variable {w : Walk} {n : Node}

theorem events_of_reach (all : w.reach n = none) (h : n.refusal = none) :
    n.events w = .enter n :: ((n.children w.order).flatMap fun c => c.events w)
      ++ n.complaint.toList.map .fault := by
  rw [events, h]
  simp [Walk.entered, all]

theorem events_checking (h : n.refusal = none) :
    n.events .checking = .enter n ::
      ((n.children .argumentsFirst).flatMap fun c => c.events .checking)
        ++ n.complaint.toList.map .fault :=
  events_of_reach rfl h

theorem events_full (h : n.refusal = none) :
    n.events .full = .enter n :: ((n.children .calleeFirst).flatMap fun c => c.events .full)
      ++ n.complaint.toList.map .fault :=
  events_of_reach rfl h

/-- A walk that meets no fault goes on to the children, and meets none there. -/
theorem events_of_clear (all : w.reach n = none) (clear : ∀ f, .fault f ∉ n.events w) :
    (n.refusal = none ∧ n.complaint = none) ∧
      n.events w = .enter n :: ((n.children w.order).flatMap fun c => c.events w) ∧
      ∀ c ∈ n.children w.order, ∀ f, .fault f ∉ c.events w := by
  cases refused : n.refusal with
  | some f =>
    rw [events, refused] at clear
    exact absurd (List.mem_singleton_self _) (clear f)
  | none =>
    rw [events_of_reach all refused] at clear ⊢
    cases known : n.complaint with
    | some f => exact absurd (by simp [known]) (clear f)
    | none =>
      refine ⟨⟨rfl, rfl⟩, List.append_nil _, fun c hc f hf => clear f ?_⟩
      exact List.mem_append.2 (.inl (List.mem_cons_of_mem _ (List.mem_flatMap.2 ⟨c, hc, hf⟩)))

end

end Node

namespace Registry

open Traversal

variable {κ : Type} (r : Registry κ)

/-- What is asked for at an event of a walk: at a node, every check that is registered for one of
its classes is run once, class after class and in the order of registration. -/
def atEvent : Event → List (Action κ)
  | .enter n => n.classes.flatMap fun cls => ((r cls).getD []).map fun c => .invoke ⟨n, cls, c⟩
  | .fault f => [.fault f]

theorem atEvent_enter (n : Node) :
    r.atEvent (.enter n) = n.classes.flatMap fun cls => r.invoke cls n := rfl

def atStep : Step → List (Action κ)
  | .accept c => r.accept c
  | .method cls m => r.method cls m

theorem traverse_eq (cls : NodeClass) (n : Node) :
    r.traverse cls n = (steps cls n).flatMap r.atStep ++ n.complaint.toList.map .fault := by
  rw [traverse]
  conv_rhs => rw [← List.attach_map_subtype_val (steps cls n), List.flatMap_map]
  congr 2
  funext ⟨s, _⟩
  cases s <;> rfl

/-- Taking a method over only puts checks before it. -/
theorem method_eq {cls : NodeClass} (h : cls ≠ .call) (n : Node) :
    r.method cls n = r.invoke cls n ++ r.traverse cls n := by
  rw [method, if_neg h]
  cases hr : r cls with
  | none => simp [invoke, checksOf, hr]
  | some checks => simp

theorem method_call (n : Node) :
    r.method .call n = r.invoke .call n ++ (n.children .argumentsFirst).flatMap r.accept := by
  rw [method, if_pos rfl]
  simp

theorem accept_of_classes {n : Node} {cls : NodeClass} {more : List NodeClass}
    (accepted : n.refusal = none) (classes : n.classes = cls :: more) :
    r.accept n = r.method cls n := by
  rw [accept, accepted, classes]

theorem flatMap_atStep_functionSteps (params : List (Param Node)) (body : Node) :
    (functionSteps params body).flatMap r.atStep =
      (functionParts params body).flatMap r.accept := by
  have declared (p : Param Node) : r.accept p.declared = r.method .variable p.declared :=
    r.accept_of_classes rfl rfl
  simp only [functionSteps, functionParts, List.flatMap_append, List.flatMap_map, atStep, declared,
    List.flatMap_singleton]

/-- A function goes through two methods, its own and that for function items. -/
theorem accept_function {n body : Node} {own : NodeClass} {params : List (Param Node)}
    (accepted : n.refusal = none) (classes : n.classes = [own, .functionItem])
    (noCall : own ≠ .call) (first : steps own n = [.method .functionItem n])
    (second : steps .functionItem n = functionSteps params body) (content : n.complaint = none)
    (parts : n.children .argumentsFirst = functionParts params body) :
    r.accept n = r.atEvent (.enter n) ++ (n.children .argumentsFirst).flatMap r.accept
      ++ n.complaint.toList.map .fault := by
  have item : r.method .functionItem n = r.invoke .functionItem n
      ++ (n.children .argumentsFirst).flatMap r.accept := by
    rw [method_eq r (by decide), traverse_eq, second, flatMap_atStep_functionSteps, parts, content]
    simp
  rw [r.accept_of_classes accepted classes, method_eq r noCall, traverse_eq, first]
  simp [atEvent_enter, atStep, classes, item, content]

theorem accept_single {n : Node} {cls : NodeClass} (accepted : n.refusal = none)
    (classes : n.classes = [cls]) (noCall : cls ≠ .call)
    (parts : steps cls n = (n.children .argumentsFirst).map .accept) :
    r.accept n = r.atEvent (.enter n) ++ (n.children .argumentsFirst).flatMap r.accept
      ++ n.complaint.toList.map .fault := by
  rw [r.accept_of_classes accepted classes, method_eq r noCall, traverse_eq, parts]
  simp [atEvent_enter, classes, List.flatMap_map, atStep]

/-- The visitor at one node: the checks of the node's classes, then the parts of the node. -/
theorem accept_step {n : Node} (accepted : n.refusal = none) :
    r.accept n = r.atEvent (.enter n) ++ (n.children .argumentsFirst).flatMap r.accept
      ++ n.complaint.toList.map .fault := by
  obtain ⟨info, shape⟩ := n
  cases shape
  case function => exact r.accept_function rfl rfl (by decide) rfl rfl rfl rfl
  case lambda => exact r.accept_function rfl rfl (by decide) rfl rfl rfl rfl
  case call f as a =>
    rw [r.accept_of_classes rfl rfl, method_call]
    simp [atEvent_enter, Node.classes, Node.complaint]
  case leaf kind name => cases kind <;> exact r.accept_single rfl rfl (by decide) rfl
  case reveal kind value =>
    cases kind
    · cases value <;> exact r.accept_single rfl rfl (by decide) rfl
    · exact r.accept_single rfl rfl (by decide) rfl
  case argument => simp [Node.refusal] at accepted
  case required => simp [Node.refusal] at accepted
  all_goals exact r.accept_single rfl rfl (by decide) rfl

/-- The visitor along a whole walk. -/
theorem accept_eq (n : Node) : r.accept n = (n.events .checking).flatMap r.atEvent := by
  cases refused : n.refusal with
  | some f =>
    rw [accept, Node.events, refused]
    simp [atEvent]
  | none =>
    have below (c : Node) (hc : c ∈ n.children .argumentsFirst) :
        r.accept c = (c.events .checking).flatMap r.atEvent := accept_eq c
    rw [accept_step r refused, Node.events_checking refused]
    simp only [List.flatMap_cons, List.flatMap_append, List.cons_append, List.append_assoc,
      List.flatMap_assoc]
    congr 2
    · exact List.flatMap_congr below
    · rw [List.flatMap_map, ← List.flatMap_pure_eq_map]
      rfl
termination_by sizeOf n
decreasing_by exact Node.sizeOf_lt_of_mem_children hc

end Registry

namespace Action

variable {κ : Type}

/-- The checks that are run before the first fault. -/
def invocations : List (Action κ) → List (Invocation κ)
  | .invoke i :: rest => i :: invocations rest
  | _ => []

theorem invocations_invoke_append (is : List (Invocation κ)) (rest : List (Action κ)) :
    invocations (is.map .invoke ++ rest) = is ++ invocations rest := by
  induction is with
  | nil => rfl
  | cons i is ih => simp [invocations, ih]

end Action

namespace Registry

variable {κ : Type} [DecidableEq κ]

/-- Keeps the checks of another registry in their order and registers none of them once more. -/
structure Extends (large small : Registry κ) : Prop where
  sublist (cls : NodeClass) : (small.checksOf cls).Sublist (large.checksOf cls)
  count_eq (cls : NodeClass) (c : κ) :
    c ∈ small.checksOf cls → (large.checksOf cls).count c = (small.checksOf cls).count c

def registers (r : Registry κ) (i : Invocation κ) : Bool := i.check ∈ r.checksOf i.cls

theorem filter_eq_of_sublist {p : κ → Bool} {small large : List κ} (h : small.Sublist large)
    (count_eq : ∀ c, p c → large.count c = small.count c) : large.filter p = small.filter p := by
  induction h with
  | slnil => rfl
  | @cons small large a h ih =>
    have rejected : p a = false := by
      by_contra selected
      have more := count_eq a (by simpa using selected)
      have := h.count_le a
      rw [List.count_cons_self] at more
      omega
    rw [List.filter_cons_of_neg (by simp [rejected])]
    refine ih fun c hc => ?_
    have other : a ≠ c := by
      rintro rfl
      simp [rejected] at hc
    simpa [List.count_cons_of_ne other] using count_eq c hc
  | @cons_cons small large a h ih =>
    have rest := ih fun c hc => by
      have := count_eq c hc
      simp only [List.count_cons] at this
      omega
    simp only [List.filter_cons, rest]

theorem Extends.filter_checksOf {large small : Registry κ} (h : large.Extends small)
    (cls : NodeClass) :
    (large.checksOf cls).filter (· ∈ small.checksOf cls) = small.checksOf cls := by
  rw [filter_eq_of_sublist (h.sublist cls) fun c hc => h.count_eq cls c (by simpa using hc)]
  simp

/-- Leaving out the checks that are new leaves the old run. -/
theorem Extends.filter_invocations {large small : Registry κ} (h : large.Extends small)
    (es : List Event) :
    (Action.invocations (es.flatMap large.atEvent)).filter small.registers =
      Action.invocations (es.flatMap small.atEvent) := by
  have atClass (n : Node) (cls : NodeClass) :
      ((large.checksOf cls).map fun c => (⟨n, cls, c⟩ : Invocation κ)).filter small.registers =
        (small.checksOf cls).map fun c => ⟨n, cls, c⟩ := by
    rw [List.filter_map, ← h.filter_checksOf cls]
    rfl
  have atNode (r : Registry κ) (n : Node) : r.atEvent (.enter n) =
      (n.classes.flatMap fun cls => (r.checksOf cls).map fun c => ⟨n, cls, c⟩).map .invoke := by
    simp only [atEvent_enter, invoke, List.map_flatMap, List.map_map, Function.comp_def]
  induction es with
  | nil => rfl
  | cons e es ih =>
    cases e with
    | fault f => rfl
    | enter n =>
      simp only [List.flatMap_cons, atNode, Action.invocations_invoke_append, List.filter_append,
        ih, List.filter_flatMap, atClass]

/-- The visitor runs exactly the checks that the pre-order walk asks for, which enters the parts of
a node as the traversal does but for those of a call, and runs those of a registry as if they were
alone when more are registered. -/
theorem accept_along_walk (t : Node) :
    (∀ r : Registry κ, r.accept t = (t.events .checking).flatMap r.atEvent) ∧
    (∀ n : Node, n.children .argumentsFirst = match n with
      | ⟨_, .call callee args _⟩ => args.map (·.value) ++ [callee]
      | _ => n.children .calleeFirst) ∧
    ∀ large small : Registry κ, large.Extends small →
      (Action.invocations (large.accept t)).filter small.registers =
        Action.invocations (small.accept t) := by
  refine ⟨fun r => r.accept_eq t, Node.children_argumentsFirst, fun large small h => ?_⟩
  rw [accept_eq, accept_eq]
  exact h.filter_invocations _

/-- A lambda whose body is a call, with checks for lambdas, function items and calls, to which
further ones are added before and between them. -/
theorem accept_along_walk_lambda :
    let small : Registry Nat := fun cls => match cls with
      | .lambda => some [1]
      | .functionItem => some [2]
      | .call => some [3, 4]
      | _ => none
    let large : Registry Nat := fun cls => match cls with
      | .lambda => some [5, 1]
      | .functionItem => some [2, 6]
      | .call => some [3, 7, 4]
      | .int => some [8]
      | _ => none
    let zero : Node := ⟨default, .int 0⟩
    let callee : Node := ⟨default, .ellipsis⟩
    let call : Node := ⟨default, .call callee [⟨zero, .pos, none⟩] none⟩
    let body : Node := ⟨default, .block [⟨default, .returnStmt (some call)⟩]⟩
    let t : Node := ⟨default, .lambda [] body false⟩
    large.Extends small
      ∧ Action.invocations (small.accept t)
        = [⟨t, .lambda, 1⟩, ⟨t, .functionItem, 2⟩, ⟨call, .call, 3⟩, ⟨call, .call, 4⟩]
      ∧ Action.invocations (large.accept t)
        = [⟨t, .lambda, 5⟩, ⟨t, .lambda, 1⟩, ⟨t, .functionItem, 2⟩, ⟨t, .functionItem, 6⟩,
          ⟨call, .call, 3⟩, ⟨call, .call, 7⟩, ⟨call, .call, 4⟩, ⟨zero, .int, 8⟩]
      ∧ (Action.invocations (large.accept t)).filter small.registers =
        Action.invocations (small.accept t) := by
  intro small large zero callee call body t
  have extended : large.Extends small := by
    constructor
    · intro cls
      cases cls <;> decide
    · intro cls c hc
      cases cls <;> simp [small, large, checksOf] at hc ⊢ <;> grind
  have walked : t.events .checking = [.enter t, .enter body,
      .enter ⟨default, .returnStmt (some call)⟩, .enter call, .enter zero, .enter callee] := by
    simp [t, body, call, zero, callee, Node.events_checking, Node.refusal.eq_3,
      Node.complaint, Node.children, functionParts]
  obtain ⟨along, -, kept⟩ := accept_along_walk (κ := Nat) t
  refine ⟨extended, ?_, ?_, kept large small extended⟩
  · rw [along small, walked]
    rfl
  · rw [along large, walked]
    rfl

end Registry

end IdiomLint
