import IdiomLint.Proofs.NodeMemory
import Mathlib.Data.List.Perm.Basic

/-! How often a name occurs in a tree. Everything that a node holds is listed field by field, apart
from any walk; a walk that meets no fault enters just that, besides the variables that functions
declare, so the reads it counts are the occurrences of the name. -/
namespace IdiomLint

namespace Node

/-- Everything that a node holds, in the order of its fields. A request to show all local names
holds nothing. -/
def held (n : Node) : List Node :=
  match n.shape with
  | .file _ body | .block body => body
  | .importNames _ assignments | .importFrom _ _ _ assignments => assignments
  | .function _ params body _ | .lambda params body _ => params.filterMap (·.initial) ++ [body]
  | .decorated function decorators _ => function :: decorators
  | .overloads items implementation => items ++ implementation.toList
  | .classDef _ decorators bases metaclass keywords body analyzed =>
    decorators ++ bases ++ metaclass.toList ++ keywords.map (·.2) ++ [body] ++ analyzed.toList
  | .expression value | .deletion value | .star value | .await value | .yieldFrom value
  | .listComp value | .setComp value | .cast value _ | .assertType value _ | .superCall _ value
  | .typeApplication value | .valuePattern value | .member value _ | .unary _ value _ => [value]
  | .returnStmt value | .yield value | .starredPattern value | .reveal .type value => value.toList
  | .assignment targets value => targets ++ [value]
  | .augmented _ target value | .walrus target value => [target, value]
  | .whileLoop condition body orElse => condition :: body :: orElse.toList
  | .forLoop index source body orElse _ => index :: source :: body :: orElse.toList
  | .assertion condition message => condition :: message.toList
  | .ifElse branches orElse => branches.flatMap (fun b => [b.1, b.2]) ++ orElse.toList
  | .raising error cause => error.toList ++ cause.toList
  | .tryBlock body handlers orElse finalBody _ =>
    body :: handlers.flatMap (fun h => h.type.toList ++ h.target.toList ++ [h.body])
      ++ orElse.toList ++ finalBody.toList
  | .withBlock items body _ =>
    items.flatMap (fun i => i.resource :: i.target.toList) ++ [body]
  | .matching subject cases =>
    subject :: cases.flatMap fun c => c.pattern :: c.guard.toList ++ [c.body]
  | .call callee args analyzed => callee :: args.map (·.value) ++ analyzed.toList
  | .index base key _ analyzed => base :: key :: analyzed.toList
  | .binary _ left right _ analyzed => left :: right :: analyzed.toList
  | .comparison _ items | .list items | .tuple items | .set items | .orPattern items
  | .sequencePattern items => items
  | .slice start stop step => start.toList ++ stop.toList ++ step.toList
  | .conditional condition ifTrue ifFalse => [condition, ifTrue, ifFalse]
  | .dict items => items.flatMap fun kv => kv.1.toList ++ [kv.2]
  | .generator element clauses =>
    element :: clauses.flatMap fun c => c.index :: c.source :: c.conditions
  | .dictComp key value clauses =>
    key :: value :: clauses.flatMap fun c => c.index :: c.source :: c.conditions
  | .asPattern pattern name => pattern.toList ++ name.toList
  | .mappingPattern entries rest => entries.flatMap (fun e => [e.1, e.2]) ++ rest.toList
  | .classPattern cls positionals keywords => cls :: positionals ++ keywords.map (·.2)
  | .argument param => param.initial.toList
  | .importAll _ _ | .globalDecl _ | .nonlocalDecl _ | .breakStmt | .continueStmt | .passStmt
  | .int _ | .str _ | .bytes _ | .float _ | .complex _ | .ellipsis | .name _ _
  | .reveal .locals _ | .leaf _ _ | .singletonPattern _ | .required _ => []

/-- The variables that a node declares, which a walk enters as nodes of their own. -/
def declarations : Node → List Node
  | ⟨_, .function _ params _ _⟩ => params.map (·.declared)
  | ⟨_, .lambda params _ _⟩ => params.map (·.declared)
  | ⟨i, .decorated _ _ boundName⟩ => [⟨i, .leaf .variable boundName⟩]
  | _ => []

theorem eq_variable_of_mem_declarations {n c : Node} (hc : c ∈ n.declarations) :
    ∃ i name, c = ⟨i, .leaf .variable name⟩ := by
  unfold declarations at hc
  split at hc
  · obtain ⟨p, -, rfl⟩ := List.mem_map.1 hc
    exact ⟨_, _, rfl⟩
  · obtain ⟨p, -, rfl⟩ := List.mem_map.1 hc
    exact ⟨_, _, rfl⟩
  · obtain rfl := List.mem_singleton.1 hc
    exact ⟨_, _, rfl⟩
  · cases hc

theorem perm_flatMap_pairs {β : Type} (bs : List (β × β)) :
    (bs.map (·.1) ++ bs.map (·.2)).Perm (bs.flatMap fun b => [b.1, b.2]) := by
  have both := List.flatMap_append_perm bs (fun b => [b.1]) (fun b => [b.2])
  simpa [List.map_eq_flatMap] using both

theorem perm_functionParts (params : List (Param Node)) (body : Node) :
    (functionParts params body).Perm
      (params.filterMap (·.initial) ++ [body] ++ params.map (·.declared)) := by
  simp only [functionParts, List.append_assoc]
  exact List.perm_append_comm.append_left _

theorem perm_clauseParts (clauses : List (Clause Node)) :
    (clauses.flatMap (·.parts)).Perm
      (clauses.flatMap fun c => c.index :: c.source :: c.conditions) :=
  List.Perm.flatMap_left clauses fun c _ => .swap c.index c.source c.conditions

theorem perm_handlerParts (handlers : List (Handler Node)) :
    (handlers.flatMap (·.parts) ++ handlers.filterMap (·.target)).Perm
      (handlers.flatMap fun h => h.type.toList ++ h.target.toList ++ [h.body]) := by
  rw [List.filterMap_eq_flatMap_toList]
  refine (List.flatMap_append_perm handlers _ _).trans (List.Perm.flatMap_left handlers fun h _ => ?_)
  simp only [Handler.parts, List.append_assoc]
  exact List.perm_append_comm.append_left _

/-- A walk goes on to everything that a node holds and to the variables that it declares. -/
theorem children_perm {n : Node} (accepted : n.refusal = none) :
    (n.children .calleeFirst).Perm (n.held ++ n.declarations) := by
  obtain ⟨info, shape⟩ := n
  cases shape
  case reveal kind value => cases kind <;> simp [children, held, shape, declarations]
  all_goals simp only [children, held, shape, declarations, List.append_nil]
  case function params body _ => exact perm_functionParts params body
  case lambda params body _ => exact perm_functionParts params body
  case decorated function decorators _ =>
    exact .cons function (List.perm_append_singleton _ decorators).symm
  case assignment targets value => exact (List.perm_append_singleton value targets).symm
  case augmented _ target value => exact .swap target value []
  case ifElse branches orElse => exact (perm_flatMap_pairs branches).append_right _
  case mappingPattern entries rest => exact (perm_flatMap_pairs entries).append_right _
  case tryBlock body handlers orElse finalBody _ =>
    exact (((perm_handlerParts handlers).cons body).append_right _).append_right _
  case generator element clauses =>
    exact (List.perm_append_singleton element _).trans ((perm_clauseParts clauses).cons element)
  case dictComp key value clauses =>
    exact List.perm_append_comm.trans ((perm_clauseParts clauses).append_left [key, value])
  case argument => cases accepted
  all_goals exact .refl _

theorem sizeOf_lt_of_mem_held {n c : Node} (h : c ∈ n.held) : sizeOf c < sizeOf n := by
  cases refused : n.refusal with
  | none =>
    have child : c ∈ n.children .calleeFirst :=
      (children_perm refused).mem_iff.2 (List.mem_append_left _ h)
    exact sizeOf_lt_of_mem_children child
  | some fault =>
    obtain ⟨info, shape⟩ := n
    cases shape
    case argument param =>
      have inParam : sizeOf c < sizeOf param.initial := sizeOf_mem_toList h
      cases param
      simp only [Node.mk.sizeOf_spec, Shape.argument.sizeOf_spec, Param.mk.sizeOf_spec] at inParam ⊢
      omega
    case required => cases h
    all_goals cases refused

/-- A node and everything below it. -/
def nodes (n : Node) : List Node := n :: n.held.attach.flatMap fun c => c.1.nodes
termination_by sizeOf n
decreasing_by exact sizeOf_lt_of_mem_held c.2

theorem nodes_eq (n : Node) : n.nodes = n :: n.held.flatMap nodes := by
  rw [nodes]
  congr 1
  conv_rhs => rw [← List.attach_map_subtype_val n.held, List.flatMap_map]

/-- How often a name that resolves to `x` occurs in a tree. -/
def occurrences (x : String) (n : Node) : Nat := n.nodes.countP (isNameOf x)

def occurrencesIn (x : String) (ns : List Node) : Nat := (ns.flatMap nodes).countP (isNameOf x)

section

variable {x : String} {n : Node} {ns ms : List Node}

@[simp] theorem occurrencesIn_nil : occurrencesIn x [] = 0 := rfl

@[simp] theorem occurrencesIn_cons :
    occurrencesIn x (n :: ns) = n.occurrences x + occurrencesIn x ns := by
  simp [occurrencesIn, occurrences]

@[simp] theorem occurrencesIn_append :
    occurrencesIn x (ns ++ ms) = occurrencesIn x ns + occurrencesIn x ms := by
  simp [occurrencesIn]

theorem occurrencesIn_eq_zero_iff : occurrencesIn x ns = 0 ↔ ∀ c ∈ ns, c.occurrences x = 0 := by
  induction ns with
  | nil => simp
  | cons c ns ih => simp [ih]

theorem occurrencesIn_perm (h : ns.Perm ms) : occurrencesIn x ns = occurrencesIn x ms :=
  (h.flatMap_right nodes).countP_eq _

theorem occurrences_eq (x : String) (n : Node) :
    n.occurrences x = (if n.isNameOf x then 1 else 0) + occurrencesIn x n.held := by
  rw [occurrences, nodes_eq, List.countP_cons, occurrencesIn, Nat.add_comm]

/-- Only names are occurrences themselves. -/
theorem occurrences_of_not_isNameOf (h : n.isNameOf x = false) :
    n.occurrences x = occurrencesIn x n.held := by
  simp [occurrences_eq x n, h]

theorem occurrences_of_held_eq_nil (h : n.held = []) :
    n.occurrences x = if n.isNameOf x then 1 else 0 := by
  simp [occurrences_eq x n, h]

theorem occurrencesIn_declarations : occurrencesIn x n.declarations = 0 := by
  rw [occurrencesIn_eq_zero_iff]
  intro c hc
  obtain ⟨i, name, rfl⟩ := eq_variable_of_mem_declarations hc
  exact occurrences_of_held_eq_nil rfl

end

def isReading (x : String) : Event → Bool
  | .enter m => m.isNameOf x
  | .fault _ => false

/-- A walk that meets no fault enters every occurrence of a name, and each one once. -/
theorem countP_events (x : String) (n : Node) (clear : ∀ f, .fault f ∉ n.events .full) :
    (n.events .full).countP (isReading x) = n.occurrences x := by
  obtain ⟨⟨entered, -⟩, shown, inside⟩ := events_of_clear rfl clear
  have below (c : Node) (hc : c ∈ n.children .calleeFirst) :
      (c.events .full).countP (isReading x) = c.occurrences x :=
    countP_events x c (inside c hc)
  have children : ((n.children .calleeFirst).flatMap fun c => c.events .full).countP (isReading x)
      = occurrencesIn x (n.children .calleeFirst) := by
    rw [occurrencesIn, List.countP_flatMap, List.countP_flatMap]
    exact congrArg List.sum (List.map_congr_left below)
  rw [occurrencesIn_perm (children_perm entered), occurrencesIn_append,
    occurrencesIn_declarations] at children
  rw [shown, List.countP_cons, occurrences_eq, isReading]
  exact (congrArg (· + _) children).trans (Nat.add_comm _ _)
termination_by sizeOf n
decreasing_by exact sizeOf_lt_of_mem_children hc

theorem readCount_eq_ok_iff {x : String} {n : Node} {k : Nat} :
    n.readCount x = .ok k ↔ Succeeds (n.entries .full) ∧ k = n.occurrences x := by
  have counted {ns : List Node} (walked : n.entries .full = .ok ns) :
      n.readCount x = .ok (n.occurrences x) := by
    have entered := entries_eq_ok_iff.1 walked
    rw [readCount, walked, ← countP_events x n fun f => by simp [entered], entered, List.countP_map,
      List.countP_eq_length_filter]
    rfl
  constructor
  · intro h
    obtain ⟨ns, walked, -⟩ := map_eq_ok h
    rw [counted walked, Except.ok.injEq] at h
    exact ⟨⟨ns, walked⟩, h.symm⟩
  · rintro ⟨⟨ns, walked⟩, rfl⟩
    exact counted walked

end Node

/-- A name is unused in several trees exactly if walks over them meet no fault and it occurs in none. -/
theorem eq_true_iff_of_unusedIn {x : String} {contexts : List Node} {unused : Bool}
    (h : unusedIn x contexts = .ok unused) :
    unused = true ↔ ∀ c ∈ contexts, Succeeds (c.entries .full) ∧ c.occurrences x = 0 := by
  induction contexts with
  | nil =>
    cases h
    simp
  | cons context rest ih =>
    obtain ⟨k, counted, h⟩ := bind_eq_ok h
    obtain ⟨walked, rfl⟩ := Node.readCount_eq_ok_iff.1 counted
    rw [List.forall_mem_cons]
    split at h
    case isTrue found =>
      cases h
      simp only [Bool.false_eq_true, false_iff]
      omega
    case isFalse absent =>
      rw [ih h]
      exact (and_iff_right ⟨walked, by omega⟩).symm

end IdiomLint
