import IdiomLint.Syntax.Tree

/-! The children of a node in the order in which a walk enters them. The main statement is that
children are smaller than their parent, which makes walks by children terminate. -/
namespace IdiomLint

/-- Why a run over a tree can stop before its end. -/
inductive Fault where
  /-- A node of a class that the walk does not know. -/
  | unsupported (className : String)
  /-- A part that every tree and symbol table promises is missing. -/
  | broken
  /-- The last or a numbered element of a list that is too short. -/
  | outOfRange
deriving DecidableEq, Inhabited

def Fault.message : Fault → String
  | unsupported c => s!"No `visit_*` overload available for `{c}`"
  | broken => ""
  | outOfRange => "list index out of range"

/-- Whether the parts of a call are entered callee first or arguments first. Only a walk that
goes callee first also enters the node that analysis put in place of the call. -/
inductive Order where
  | calleeFirst | argumentsFirst
deriving DecidableEq

namespace Param

/-- A parameter seen as the variable it declares. -/
def declared {α : Type} (p : Param α) : Node := ⟨p.info, .leaf .variable p.name⟩

end Param

namespace Clause

/-- A comprehension enters the source of a clause before its index. -/
def parts {α : Type} (c : Clause α) : List α := c.source :: c.index :: c.conditions

end Clause

namespace Handler

def parts {α : Type} (h : Handler α) : List α := h.type.toList ++ [h.body]

end Handler

namespace WithItem

def parts {α : Type} (w : WithItem α) : List α := w.resource :: w.target.toList

end WithItem

namespace MatchCase

def parts {α : Type} (c : MatchCase α) : List α := c.pattern :: c.guard.toList ++ [c.body]

end MatchCase

/-- Defaults first, then the declared variables, then the body. -/
def functionParts (params : List (Param Node)) (body : Node) : List Node :=
  params.filterMap (·.initial) ++ params.map (·.declared) ++ [body]

namespace Node

def children (order : Order) : Node → List Node
  | ⟨info, shape⟩ =>
    match shape with
    | .file _ body => body
    | .importNames _ assignments => assignments
    | .importFrom _ _ _ assignments => assignments
    | .importAll _ _ => []
    | .function _ params body _ => functionParts params body
    | .decorated function decorators boundName =>
      function :: ⟨info, .leaf .variable boundName⟩ :: decorators
    | .overloads items implementation => items ++ implementation.toList
    | .classDef _ decorators bases metaclass keywords body analyzed =>
      decorators ++ bases ++ metaclass.toList ++ keywords.map (·.2) ++ [body] ++ analyzed.toList
    | .block body => body
    | .globalDecl _ => []
    | .nonlocalDecl _ => []
    | .expression value => [value]
    | .returnStmt value => value.toList
    | .deletion target => [target]
    | .assignment targets value => value :: targets
    | .augmented _ target value => [value, target]
    | .whileLoop condition body orElse => condition :: body :: orElse.toList
    | .forLoop index source body orElse _ => index :: source :: body :: orElse.toList
    | .assertion condition message => condition :: message.toList
    | .ifElse branches orElse => branches.map (·.1) ++ branches.map (·.2) ++ orElse.toList
    | .raising error cause => error.toList ++ cause.toList
    | .tryBlock body handlers orElse finalBody _ =>
      body :: handlers.flatMap (·.parts) ++ handlers.filterMap (·.target) ++ orElse.toList
        ++ finalBody.toList
    | .withBlock items body _ => items.flatMap (·.parts) ++ [body]
    | .matching subject cases => subject :: cases.flatMap (·.parts)
    | .breakStmt => []
    | .continueStmt => []
    | .passStmt => []
    | .int _ => []
    | .str _ => []
    | .bytes _ => []
    | .float _ => []
    | .complex _ => []
    | .ellipsis => []
    | .name _ _ => []
    | .member base _ => [base]
    | .call callee args analyzed =>
      match order with
      | .calleeFirst => callee :: args.map (·.value) ++ analyzed.toList
      | .argumentsFirst => args.map (·.value) ++ [callee]
    | .index base key _ analyzed => base :: key :: analyzed.toList
    | .unary _ operand _ => [operand]
    | .binary _ left right _ analyzed => left :: right :: analyzed.toList
    | .comparison _ operands => operands
    | .slice start stop step => start.toList ++ stop.toList ++ step.toList
    | .walrus target value => [target, value]
    | .conditional condition ifTrue ifFalse => [condition, ifTrue, ifFalse]
    | .list items => items
    | .tuple items => items
    | .set items => items
    | .dict items => items.flatMap fun kv => kv.1.toList ++ [kv.2]
    | .star value => [value]
    | .await value => [value]
    | .yield value => value.toList
    | .yieldFrom value => [value]
    | .generator element clauses => clauses.flatMap (·.parts) ++ [element]
    | .listComp generator => [generator]
    | .setComp generator => [generator]
    | .dictComp key value clauses => clauses.flatMap (·.parts) ++ [key, value]
    | .lambda params body _ => functionParts params body
    | .cast value _ => [value]
    | .assertType value _ => [value]
    | .reveal .type value => value.toList
    | .reveal .locals _ => []
    | .superCall _ call => [call]
    | .typeApplication value => [value]
    | .leaf _ _ => []
    | .asPattern pattern name => pattern.toList ++ name.toList
    | .orPattern alternatives => alternatives
    | .valuePattern value => [value]
    | .singletonPattern _ => []
    | .sequencePattern items => items
    | .starredPattern capture => capture.toList
    | .mappingPattern entries rest => entries.map (·.1) ++ entries.map (·.2) ++ rest.toList
    | .classPattern cls positionals keywords => cls :: positionals ++ keywords.map (·.2)
    | .argument _ => []
    | .required _ => []

theorem sizeOf_mem_toList {α : Type} [SizeOf α] {o : Option α} {a : α} (h : a ∈ o.toList) :
    sizeOf a < sizeOf o := by
  cases o with
  | none => simp at h
  | some b => simp at h; subst h; simp

theorem sizeOf_functionParts {params : List (Param Node)} {body c : Node}
    (h : c ∈ functionParts params body) :
    sizeOf c ≤ 1 + sizeOf params + sizeOf body := by
  simp only [functionParts, List.mem_append, List.mem_filterMap, List.mem_map,
    List.mem_singleton] at h
  rcases h with (⟨p, hp, hc⟩ | ⟨p, hp, hc⟩) | h
  · have hlt := List.sizeOf_lt_of_mem hp
    have hin := sizeOf_mem_toList (o := p.initial) (a := c) (by simp [hc])
    cases p
    simp only [Param.mk.sizeOf_spec] at hlt hin
    omega
  · have hlt := List.sizeOf_lt_of_mem hp
    cases p
    subst hc
    simp only [Param.declared, Param.mk.sizeOf_spec, Node.mk.sizeOf_spec, Shape.leaf.sizeOf_spec,
      LeafKind.variable.sizeOf_spec] at hlt ⊢
    omega
  · subst h; omega

theorem sizeOf_flatMap {β : Type} [SizeOf β] {parts : β → List Node} {bs : List β} {c : Node}
    (smaller : ∀ b, c ∈ parts b → sizeOf c < sizeOf b) (h : c ∈ bs.flatMap parts) :
    sizeOf c < sizeOf bs := by
  obtain ⟨b, hb, hc⟩ := List.mem_flatMap.1 h
  exact Nat.lt_trans (smaller b hc) (List.sizeOf_lt_of_mem hb)

theorem sizeOf_map {β : Type} [SizeOf β] {part : β → Node} {bs : List β} {c : Node}
    (smaller : ∀ b, sizeOf (part b) < sizeOf b) (h : c ∈ bs.map part) : sizeOf c < sizeOf bs := by
  obtain ⟨b, hb, hc⟩ := List.mem_map.1 h
  exact hc ▸ Nat.lt_trans (smaller b) (List.sizeOf_lt_of_mem hb)

theorem sizeOf_clause {b : Clause Node} {c : Node} (h : c ∈ b.parts) : sizeOf c < sizeOf b := by
  cases b
  simp only [Clause.parts, List.mem_cons] at h
  simp only [Clause.mk.sizeOf_spec]
  rcases h with rfl | rfl | h
  · omega
  · omega
  · have := List.sizeOf_lt_of_mem h; omega

theorem sizeOf_handler {b : Handler Node} {c : Node} (h : c ∈ b.parts) : sizeOf c < sizeOf b := by
  cases b
  simp only [Handler.parts, List.mem_append, List.mem_singleton] at h
  simp only [Handler.mk.sizeOf_spec]
  rcases h with h | rfl
  · have := sizeOf_mem_toList h; omega
  · omega

theorem sizeOf_handlerTarget {bs : List (Handler Node)} {c : Node}
    (h : c ∈ bs.filterMap (·.target)) : sizeOf c < sizeOf bs := by
  obtain ⟨b, hb, hc⟩ := List.mem_filterMap.1 h
  have hlt := List.sizeOf_lt_of_mem hb
  have hin := sizeOf_mem_toList (o := b.target) (a := c) (by simp [hc])
  cases b
  simp only [Handler.mk.sizeOf_spec] at hlt hin
  omega

theorem sizeOf_withItem {b : WithItem Node} {c : Node} (h : c ∈ b.parts) :
    sizeOf c < sizeOf b := by
  cases b
  simp only [WithItem.parts, List.mem_cons] at h
  simp only [WithItem.mk.sizeOf_spec]
  rcases h with rfl | h
  · omega
  · have := sizeOf_mem_toList h; omega

theorem sizeOf_matchCase {b : MatchCase Node} {c : Node} (h : c ∈ b.parts) :
    sizeOf c < sizeOf b := by
  cases b
  simp only [MatchCase.parts, List.cons_append, List.mem_cons, List.mem_append,
    List.not_mem_nil, or_false] at h
  simp only [MatchCase.mk.sizeOf_spec]
  rcases h with rfl | h | rfl
  · omega
  · have := sizeOf_mem_toList h; omega
  · omega

theorem sizeOf_dictItem {b : Option Node × Node} {c : Node} (h : c ∈ b.1.toList ++ [b.2]) :
    sizeOf c < sizeOf b := by
  obtain ⟨k, v⟩ := b
  simp only [List.mem_append, List.mem_singleton] at h
  simp only [Prod.mk.sizeOf_spec]
  rcases h with h | rfl
  · have := sizeOf_mem_toList h; omega
  · omega

theorem sizeOf_fst {β γ : Type} [SizeOf β] [SizeOf γ] (b : β × γ) : sizeOf b.1 < sizeOf b := by
  obtain ⟨x, y⟩ := b
  simp only [Prod.mk.sizeOf_spec]
  omega

theorem sizeOf_snd {β γ : Type} [SizeOf β] [SizeOf γ] (b : β × γ) : sizeOf b.2 < sizeOf b := by
  obtain ⟨x, y⟩ := b
  simp only [Prod.mk.sizeOf_spec]
  omega

theorem sizeOf_callArg (b : CallArg Node) : sizeOf b.value < sizeOf b := by
  cases b
  simp only [CallArg.mk.sizeOf_spec]
  omega

theorem sizeOf_shape_pos (s : Shape Node) : 1 ≤ sizeOf s := by
  cases s <;> simp <;> omega

theorem sizeOf_leaf_le (info : Info) (kind : LeafKind) (name : String) (f : Node) :
    sizeOf (Node.mk info (.leaf kind name)) < 1 + sizeOf info + 1 + sizeOf f + sizeOf name := by
  obtain ⟨i, s⟩ := f
  have := sizeOf_shape_pos s
  cases kind <;> simp <;> omega

/-- Walks by children end. -/
theorem sizeOf_lt_of_mem_children {order : Order} {n c : Node} (h : c ∈ n.children order) :
    sizeOf c < sizeOf n := by
  obtain ⟨info, shape⟩ := n
  cases shape
  case function | lambda => have := sizeOf_functionParts h; simp; omega
  case decorated f ds b =>
    simp only [children, List.mem_cons] at h
    rcases h with rfl | rfl | h
    · simp; omega
    · have := sizeOf_leaf_le info .variable b f; simp at this ⊢; omega
    · have := List.sizeOf_lt_of_mem h; simp; omega
  case call f as a =>
    cases order
    all_goals simp only [children, List.mem_append, List.mem_cons, List.cons_append,
      List.not_mem_nil, or_false] at h
    · rcases h with rfl | h | h
      · simp; omega
      · have := sizeOf_map sizeOf_callArg h; simp; omega
      · have := sizeOf_mem_toList h; simp; omega
    · rcases h with h | rfl
      · have := sizeOf_map sizeOf_callArg h; simp; omega
      · simp; omega
  case reveal k v =>
    cases k
    · have := sizeOf_mem_toList h; simp; omega
    · simp [children] at h
  all_goals
    simp only [children, List.mem_append, List.mem_cons, List.cons_append,
      List.not_mem_nil, or_false, or_assoc] at h
  case tryBlock =>
    rcases h with rfl | h | h | h | h
    · simp; omega
    · have := sizeOf_flatMap (fun _ => sizeOf_handler) h; simp; omega
    · have := sizeOf_handlerTarget h; simp; omega
    · have := sizeOf_mem_toList h; simp; omega
    · have := sizeOf_mem_toList h; simp; omega
  case withBlock =>
    rcases h with h | rfl
    · have := sizeOf_flatMap (fun _ => sizeOf_withItem) h; simp; omega
    · simp; omega
  case matching =>
    rcases h with rfl | h
    · simp; omega
    · have := sizeOf_flatMap (fun _ => sizeOf_matchCase) h; simp; omega
  case dict => have := sizeOf_flatMap (fun _ => sizeOf_dictItem) h; simp; omega
  case generator =>
    rcases h with h | rfl
    · have := sizeOf_flatMap (fun _ => sizeOf_clause) h; simp; omega
    · simp; omega
  case dictComp =>
    rcases h with h | rfl | rfl
    · have := sizeOf_flatMap (fun _ => sizeOf_clause) h; simp; omega
    · simp; omega
    · simp; omega
  case ifElse | mappingPattern =>
    rcases h with h | h | h
    · have := sizeOf_map sizeOf_fst h; simp; omega
    · have := sizeOf_map sizeOf_snd h; simp; omega
    · have := sizeOf_mem_toList h; simp; omega
  case classPattern =>
    rcases h with rfl | h | h
    · simp; omega
    · have := List.sizeOf_lt_of_mem h; simp; omega
    · have := sizeOf_map sizeOf_snd h; simp; omega
  case classDef =>
    rcases h with h | h | h | h | rfl | h
    · have := List.sizeOf_lt_of_mem h; simp; omega
    · have := List.sizeOf_lt_of_mem h; simp; omega
    · have := sizeOf_mem_toList h; simp; omega
    · have := sizeOf_map sizeOf_snd h; simp; omega
    · simp; omega
    · have := sizeOf_mem_toList h; simp; omega
  case slice =>
    rcases h with h | h | h <;> (have hlt := sizeOf_mem_toList h; simp; omega)
  case raising | asPattern =>
    rcases h with h | h <;> (have hlt := sizeOf_mem_toList h; simp; omega)
  case overloads =>
    rcases h with h | h
    · have := List.sizeOf_lt_of_mem h; simp; omega
    · have := sizeOf_mem_toList h; simp; omega
  case assignment =>
    rcases h with rfl | h
    · simp; omega
    · have := List.sizeOf_lt_of_mem h; simp; omega
  case assertion =>
    rcases h with rfl | h
    · simp; omega
    · have := sizeOf_mem_toList h; simp; omega
  case returnStmt | yield | starredPattern => have := sizeOf_mem_toList h; simp; omega
  case whileLoop | index | binary =>
    rcases h with rfl | rfl | h
    · simp; omega
    · simp; omega
    · have := sizeOf_mem_toList h; simp; omega
  case forLoop =>
    rcases h with rfl | rfl | rfl | h
    · simp; omega
    · simp; omega
    · simp; omega
    · have := sizeOf_mem_toList h; simp; omega
  case file | importNames | importFrom | block | comparison | list | tuple | set | orPattern |
      sequencePattern =>
    have := List.sizeOf_lt_of_mem h; simp; omega
  case augmented | walrus => rcases h with rfl | rfl <;> (simp; omega)
  case conditional => rcases h with rfl | rfl | rfl <;> (simp; omega)
  all_goals (subst h; simp; omega)

end Node

end IdiomLint
