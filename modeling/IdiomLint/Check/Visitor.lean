import IdiomLint.Syntax.NodeClass
import IdiomLint.Syntax.Walk

/-! The visitor that runs checks over a tree. It has a method for each class of nodes. The method
of a class for which checks are registered runs them and then goes on as the plain traversal does;
calls have a method of their own, with checks or without. -/
namespace IdiomLint

/-- Checks by class, in the order of their registration; a class nobody asked for has no entry. -/
abbrev Registry (κ : Type) := NodeClass → Option (List κ)

/-- A check that is run on a node as one of a class. -/
structure Invocation (κ : Type) where
  node : Node
  cls : NodeClass
  check : κ

inductive Action (κ : Type) where
  | invoke (invocation : Invocation κ)
  | fault (cause : Fault)

namespace Action

/-- Runs actions one after the other, up to the first fault. -/
def perform {κ σ : Type} (run : σ → Invocation κ → Except Fault σ) (start : σ)
    (actions : List (Action κ)) : Except Fault σ :=
  actions.foldlM (fun s a => match a with
    | invoke i => run s i
    | fault f => .error f) start

end Action

/-- How a method goes on: it hands a child over to the method of the child's class, or a node to
the method it names. -/
inductive Step where
  | accept (child : Node)
  | method (cls : NodeClass) (node : Node)

namespace Traversal

def functionSteps (params : List (Param Node)) (body : Node) : List Step :=
  (params.filterMap (·.initial)).map .accept ++ params.map (fun p => .method .variable p.declared)
    ++ [.accept body]

/-- What the method of a class does with a node when no check is registered. -/
def steps (cls : NodeClass) (n : Node) : List Step :=
  match cls, n with
  | .functionItem, ⟨_, .function _ params body _⟩ => functionSteps params body
  | .functionItem, ⟨_, .lambda params body _⟩ => functionSteps params body
  | _, ⟨_, .function ..⟩ => [.method .functionItem n]
  | _, ⟨_, .lambda ..⟩ => [.method .functionItem n]
  | _, n => (n.children .calleeFirst).map .accept

/-- The method for function items is entered from those for definitions and lambdas. -/
def layer : NodeClass → Nat
  | .functionItem => 0
  | _ => 1

theorem layer_le (cls : NodeClass) : layer cls ≤ 1 := by
  unfold layer
  split <;> omega

theorem sizeOf_accept {cls : NodeClass} {n c : Node} (h : .accept c ∈ steps cls n) :
    sizeOf c < sizeOf n := by
  have inParts {params : List (Param Node)} {body : Node}
      (h : .accept c ∈ functionSteps params body) : c ∈ functionParts params body := by
    simp only [functionSteps, functionParts, List.mem_append, List.mem_map, List.mem_singleton,
      Step.accept.injEq, exists_eq_right, reduceCtorEq, and_false, exists_false, or_false] at h ⊢
    rcases h with h | h
    · exact .inl (.inl h)
    · exact .inr h
  have smaller (h : c ∈ n.children .calleeFirst) : sizeOf c < sizeOf n :=
    Node.sizeOf_lt_of_mem_children h
  unfold steps at h
  split at h
  · exact smaller (inParts h)
  · exact smaller (inParts h)
  · simp at h
  · simp at h
  · simp only [List.mem_map, Step.accept.injEq, exists_eq_right] at h
    exact smaller h

/-- A method names a method for a smaller node, or one of a lower layer for the same node. -/
theorem sizeOf_method {cls sub : NodeClass} {n m : Node} (h : .method sub m ∈ steps cls n) :
    sizeOf m < sizeOf n ∨ sizeOf m = sizeOf n ∧ layer sub < layer cls := by
  have declared {params : List (Param Node)} {body : Node}
      (h : .method sub m ∈ functionSteps params body) : m ∈ functionParts params body := by
    simp only [functionSteps, functionParts, List.mem_append, List.mem_map, List.mem_singleton,
      Step.method.injEq, reduceCtorEq, and_false, exists_false, or_false, false_or] at h ⊢
    obtain ⟨p, hp, -, hm⟩ := h
    exact .inl (.inr ⟨p, hp, hm⟩)
  have smaller (h : m ∈ n.children .calleeFirst) : sizeOf m < sizeOf n :=
    Node.sizeOf_lt_of_mem_children h
  unfold steps at h
  split at h
  · exact .inl (smaller (declared h))
  · exact .inl (smaller (declared h))
  · simp only [List.mem_singleton, Step.method.injEq] at h
    obtain ⟨rfl, rfl⟩ := h
    refine .inr ⟨rfl, ?_⟩
    cases cls <;> simp_all [layer]
  · simp only [List.mem_singleton, Step.method.injEq] at h
    obtain ⟨rfl, rfl⟩ := h
    refine .inr ⟨rfl, ?_⟩
    cases cls <;> simp_all [layer]
  · simp at h

end Traversal

namespace Registry

variable {κ : Type}

/-- The checks of a class. -/
def checksOf (r : Registry κ) (cls : NodeClass) : List κ := (r cls).getD []

def invoke (r : Registry κ) (cls : NodeClass) (n : Node) : List (Action κ) :=
  (r.checksOf cls).map fun c => .invoke ⟨n, cls, c⟩

open Traversal

mutual

/-- Hands a node over to the method of its class. -/
def accept (r : Registry κ) (n : Node) : List (Action κ) :=
  match n.refusal, n.classes with
  | none, cls :: _ => r.method cls n
  | some f, _ => [.fault f]
  | none, [] => []
termination_by (sizeOf n, 4)
decreasing_by
  have := layer_le cls
  exact Prod.Lex.right _ (by omega)

def method (r : Registry κ) (cls : NodeClass) (n : Node) : List (Action κ) :=
  if cls = .call then
    r.invoke cls n ++ (n.children .argumentsFirst).attach.flatMap fun c => r.accept c.1
  else if (r cls).isSome then r.invoke cls n ++ r.traverse cls n
  else r.traverse cls n
termination_by (sizeOf n, 2 * layer cls + 1)
decreasing_by
  · exact Prod.Lex.left _ _ (Node.sizeOf_lt_of_mem_children c.2)
  · exact Prod.Lex.right _ (Nat.lt_succ_self _)
  · exact Prod.Lex.right _ (Nat.lt_succ_self _)

/-- Goes on as the traversal does, by the methods of this visitor. -/
def traverse (r : Registry κ) (cls : NodeClass) (n : Node) : List (Action κ) :=
  ((steps cls n).attach.flatMap fun s => match s with
    | ⟨.accept c, _⟩ => r.accept c
    | ⟨.method sub m, _⟩ => r.method sub m) ++ n.complaint.toList.map .fault
termination_by (sizeOf n, 2 * layer cls)
decreasing_by
  · exact Prod.Lex.left _ _ (sizeOf_accept ‹_›)
  · rcases sizeOf_method ‹_› with h | ⟨h, lower⟩
    · exact Prod.Lex.left _ _ h
    · rw [h]
      exact Prod.Lex.right _ (by omega)

end

end Registry

end IdiomLint
