import IdiomLint.Proofs.ComparedParts

/-! Copies of an expression that stand elsewhere. Outlines show on which lines their nodes start, so
that two copies are the same exactly if the outlines by which their parts are compared show the
same lines. -/
namespace IdiomLint

namespace Node

mutual

def unplaced : Node → Node
  | ⟨_, .file path body⟩ => ⟨nowhere, .file path (unplacedAll body)⟩
  | ⟨_, .importNames names assignments⟩ =>
    ⟨nowhere, .importNames names (unplacedAll assignments)⟩
  | ⟨_, .importFrom source dots names assignments⟩ =>
    ⟨nowhere, .importFrom source dots names (unplacedAll assignments)⟩
  | ⟨_, .function name params body traits⟩ =>
    ⟨nowhere, .function name (unplacedParams params) (unplaced body) traits⟩
  | ⟨_, .decorated function decorators boundName⟩ =>
    ⟨nowhere, .decorated (unplaced function) (unplacedAll decorators) boundName⟩
  | ⟨_, .overloads items implementation⟩ =>
    ⟨nowhere, .overloads (unplacedAll items) (unplacedOption implementation)⟩
  | ⟨_, .classDef name decorators bases metaclass keywords body analyzed⟩ =>
    ⟨nowhere, .classDef name (unplacedAll decorators) (unplacedAll bases) (unplacedOption metaclass)
      (unplacedKeywords keywords) (unplaced body) (unplacedOption analyzed)⟩
  | ⟨_, .block body⟩ => ⟨nowhere, .block (unplacedAll body)⟩
  | ⟨_, .expression value⟩ => ⟨nowhere, .expression (unplaced value)⟩
  | ⟨_, .returnStmt value⟩ => ⟨nowhere, .returnStmt (unplacedOption value)⟩
  | ⟨_, .deletion target⟩ => ⟨nowhere, .deletion (unplaced target)⟩
  | ⟨_, .assignment targets value⟩ => ⟨nowhere, .assignment (unplacedAll targets) (unplaced value)⟩
  | ⟨_, .augmented op target value⟩ => ⟨nowhere, .augmented op (unplaced target) (unplaced value)⟩
  | ⟨_, .whileLoop condition body orElse⟩ =>
    ⟨nowhere, .whileLoop (unplaced condition) (unplaced body) (unplacedOption orElse)⟩
  | ⟨_, .forLoop index source body orElse isAsync⟩ =>
    ⟨nowhere, .forLoop (unplaced index) (unplaced source) (unplaced body) (unplacedOption orElse)
      isAsync⟩
  | ⟨_, .assertion condition message⟩ =>
    ⟨nowhere, .assertion (unplaced condition) (unplacedOption message)⟩
  | ⟨_, .ifElse branches orElse⟩ =>
    ⟨nowhere, .ifElse (unplacedPairs branches) (unplacedOption orElse)⟩
  | ⟨_, .raising error cause⟩ =>
    ⟨nowhere, .raising (unplacedOption error) (unplacedOption cause)⟩
  | ⟨_, .tryBlock body handlers orElse finalBody isStar⟩ =>
    ⟨nowhere, .tryBlock (unplaced body) (unplacedHandlers handlers) (unplacedOption orElse)
      (unplacedOption finalBody) isStar⟩
  | ⟨_, .withBlock items body isAsync⟩ =>
    ⟨nowhere, .withBlock (unplacedWithItems items) (unplaced body) isAsync⟩
  | ⟨_, .matching subject cases⟩ => ⟨nowhere, .matching (unplaced subject) (unplacedCases cases)⟩
  | ⟨_, .member base ref⟩ => ⟨nowhere, .member (unplaced base) ref⟩
  | ⟨_, .call callee args analyzed⟩ =>
    ⟨nowhere, .call (unplaced callee) (unplacedArgs args) (unplacedOption analyzed)⟩
  | ⟨_, .index base key method analyzed⟩ =>
    ⟨nowhere, .index (unplaced base) (unplaced key) method (unplacedOption analyzed)⟩
  | ⟨_, .unary op operand method⟩ => ⟨nowhere, .unary op (unplaced operand) method⟩
  | ⟨_, .binary op left right method analyzed⟩ =>
    ⟨nowhere, .binary op (unplaced left) (unplaced right) method (unplacedOption analyzed)⟩
  | ⟨_, .comparison operators operands⟩ =>
    ⟨nowhere, .comparison operators (unplacedAll operands)⟩
  | ⟨_, .slice start stop step⟩ =>
    ⟨nowhere, .slice (unplacedOption start) (unplacedOption stop) (unplacedOption step)⟩
  | ⟨_, .walrus target value⟩ => ⟨nowhere, .walrus (unplaced target) (unplaced value)⟩
  | ⟨_, .conditional condition ifTrue ifFalse⟩ =>
    ⟨nowhere, .conditional (unplaced condition) (unplaced ifTrue) (unplaced ifFalse)⟩
  | ⟨_, .list items⟩ => ⟨nowhere, .list (unplacedAll items)⟩
  | ⟨_, .tuple items⟩ => ⟨nowhere, .tuple (unplacedAll items)⟩
  | ⟨_, .set items⟩ => ⟨nowhere, .set (unplacedAll items)⟩
  | ⟨_, .dict items⟩ => ⟨nowhere, .dict (unplacedEntries items)⟩
  | ⟨_, .star value⟩ => ⟨nowhere, .star (unplaced value)⟩
  | ⟨_, .await value⟩ => ⟨nowhere, .await (unplaced value)⟩
  | ⟨_, .yield value⟩ => ⟨nowhere, .yield (unplacedOption value)⟩
  | ⟨_, .yieldFrom value⟩ => ⟨nowhere, .yieldFrom (unplaced value)⟩
  | ⟨_, .generator element clauses⟩ =>
    ⟨nowhere, .generator (unplaced element) (unplacedClauses clauses)⟩
  | ⟨_, .listComp generator⟩ => ⟨nowhere, .listComp (unplaced generator)⟩
  | ⟨_, .setComp generator⟩ => ⟨nowhere, .setComp (unplaced generator)⟩
  | ⟨_, .dictComp key value clauses⟩ =>
    ⟨nowhere, .dictComp (unplaced key) (unplaced value) (unplacedClauses clauses)⟩
  | ⟨_, .lambda params body isGenerator⟩ =>
    ⟨nowhere, .lambda (unplacedParams params) (unplaced body) isGenerator⟩
  | ⟨_, .cast value type⟩ => ⟨nowhere, .cast (unplaced value) type⟩
  | ⟨_, .assertType value type⟩ => ⟨nowhere, .assertType (unplaced value) type⟩
  | ⟨_, .reveal kind value⟩ => ⟨nowhere, .reveal kind (unplacedOption value)⟩
  | ⟨_, .superCall name call⟩ => ⟨nowhere, .superCall name (unplaced call)⟩
  | ⟨_, .typeApplication value⟩ => ⟨nowhere, .typeApplication (unplaced value)⟩
  | ⟨_, .asPattern pattern name⟩ =>
    ⟨nowhere, .asPattern (unplacedOption pattern) (unplacedOption name)⟩
  | ⟨_, .orPattern alternatives⟩ => ⟨nowhere, .orPattern (unplacedAll alternatives)⟩
  | ⟨_, .valuePattern value⟩ => ⟨nowhere, .valuePattern (unplaced value)⟩
  | ⟨_, .sequencePattern items⟩ => ⟨nowhere, .sequencePattern (unplacedAll items)⟩
  | ⟨_, .starredPattern capture⟩ => ⟨nowhere, .starredPattern (unplacedOption capture)⟩
  | ⟨_, .mappingPattern entries rest⟩ =>
    ⟨nowhere, .mappingPattern (unplacedPairs entries) (unplacedOption rest)⟩
  | ⟨_, .classPattern cls positionals keywords⟩ =>
    ⟨nowhere, .classPattern (unplaced cls) (unplacedAll positionals) (unplacedKeywords keywords)⟩
  | ⟨_, .argument param⟩ => ⟨nowhere, .argument (unplacedParam param)⟩
  | ⟨_, shape⟩ => ⟨nowhere, shape⟩

def unplacedAll : List Node → List Node
  | [] => []
  | n :: rest => unplaced n :: unplacedAll rest

def unplacedOption : Option Node → Option Node
  | none => none
  | some n => some (unplaced n)

def unplacedPairs : List (Node × Node) → List (Node × Node)
  | [] => []
  | (a, b) :: rest => (unplaced a, unplaced b) :: unplacedPairs rest

def unplacedEntries : List (Option Node × Node) → List (Option Node × Node)
  | [] => []
  | (key, value) :: rest => (unplacedOption key, unplaced value) :: unplacedEntries rest

def unplacedKeywords : List (String × Node) → List (String × Node)
  | [] => []
  | (key, value) :: rest => (key, unplaced value) :: unplacedKeywords rest

def unplacedArgs : List (CallArg Node) → List (CallArg Node)
  | [] => []
  | ⟨value, kind, name⟩ :: rest => ⟨unplaced value, kind, name⟩ :: unplacedArgs rest

def unplacedParam : Param Node → Param Node
  | ⟨_, name, fullname, kind, initial, annotated, positionOnly⟩ =>
    ⟨nowhere, name, fullname, kind, unplacedOption initial, annotated, positionOnly⟩

def unplacedParams : List (Param Node) → List (Param Node)
  | [] => []
  | param :: rest => unplacedParam param :: unplacedParams rest

def unplacedClauses : List (Clause Node) → List (Clause Node)
  | [] => []
  | ⟨index, source, conditions, isAsync⟩ :: rest =>
    ⟨unplaced index, unplaced source, unplacedAll conditions, isAsync⟩ :: unplacedClauses rest

def unplacedHandlers : List (Handler Node) → List (Handler Node)
  | [] => []
  | ⟨type, target, body⟩ :: rest =>
    ⟨unplacedOption type, unplacedOption target, unplaced body⟩ :: unplacedHandlers rest

def unplacedWithItems : List (WithItem Node) → List (WithItem Node)
  | [] => []
  | ⟨resource, target⟩ :: rest =>
    ⟨unplaced resource, unplacedOption target⟩ :: unplacedWithItems rest

def unplacedCases : List (MatchCase Node) → List (MatchCase Node)
  | [] => []
  | ⟨pattern, guard, body⟩ :: rest =>
    ⟨unplaced pattern, unplacedOption guard, unplaced body⟩ :: unplacedCases rest

end

theorem unplacedAll_eq_map (ns : List Node) : unplacedAll ns = ns.map unplaced := by
  induction ns with
  | nil => rfl
  | cons n ns ih => exact congrArg (n.unplaced :: ·) ih

theorem unplacedOption_eq_map (n : Option Node) : unplacedOption n = n.map unplaced := by
  cases n <;> rfl

theorem unplacedArgs_eq_map (args : List (CallArg Node)) : unplacedArgs args
    = args.map fun a => ⟨a.value.unplaced, a.kind, a.name⟩ := by
  induction args with
  | nil => rfl
  | cons arg args ih => exact congrArg (⟨arg.value.unplaced, arg.kind, arg.name⟩ :: ·) ih

theorem unplacedEntries_eq_map (items : List (Option Node × Node)) : unplacedEntries items
    = items.map fun e => (e.1.map unplaced, e.2.unplaced) := by
  induction items with
  | nil => rfl
  | cons e items ih =>
    exact congrArg₂ List.cons (congrArg (·, e.2.unplaced) (unplacedOption_eq_map e.1)) ih

end Node

namespace Outline

open Node (nowhere unplaced unplacedAll unplacedOption unplacedPairs unplacedEntries
  unplacedKeywords unplacedArgs unplacedParam unplacedParams unplacedClauses unplacedHandlers
  unplacedWithItems unplacedCases)

mutual

def Item.unplaced : Item → Item
  | .text s => .text s
  | .name ref toModule => .name ref toModule
  | .declared _ own => .declared nowhere own
  | .tag label node layout parts =>
    .tag label (node.map fun _ => nowhere) layout (Item.unplacedAll parts)

def Item.unplacedAll : List Item → List Item
  | [] => []
  | part :: rest => part.unplaced :: Item.unplacedAll rest

end

theorem Item.unplacedAll_eq_map (parts : List Item) :
    Item.unplacedAll parts = parts.map Item.unplaced := by
  induction parts with
  | nil => rfl
  | cons part rest ih => rw [List.map_cons, ← ih]; rfl

section

variable (s label : String) (i : Info) (parts : List Item)

@[simp] theorem unplaced_text : (Item.text s).unplaced = .text s := rfl

@[simp] theorem unplaced_declared : (Item.declared i s).unplaced = .declared nowhere s := rfl

@[simp] theorem unplaced_tag (layout : Layout) : (Item.tag label none layout parts).unplaced
    = .tag label none layout (parts.map Item.unplaced) := by
  rw [← Item.unplacedAll_eq_map]
  rfl

@[simp] theorem unplaced_tagged :
    (tagged label parts).unplaced = tagged label (parts.map Item.unplaced) :=
  unplaced_tag label parts .below

@[simp] theorem map_unplaced_group :
    (group label parts).map Item.unplaced = group label (parts.map Item.unplaced) := by
  cases parts <;> simp [group]

end

section

variable {label : String} {i : Info} {d d' : Item} {parts parts' more more' : List Item}

theorem cons_unplaced (first : d' = d.unplaced) (rest : parts' = parts.map Item.unplaced) :
    d' :: parts' = (d :: parts).map Item.unplaced := by
  rw [List.map_cons, first, rest]

theorem append_unplaced (first : parts' = parts.map Item.unplaced)
    (rest : more' = more.map Item.unplaced) :
    parts' ++ more' = (parts ++ more).map Item.unplaced := by
  rw [List.map_append, first, rest]

theorem tagged_unplaced (h : parts' = parts.map Item.unplaced) :
    tagged label parts' = (tagged label parts).unplaced := by
  rw [unplaced_tagged, h]

theorem map_tagged_unplaced (h : parts' = parts.map Item.unplaced) :
    parts'.map (fun part => tagged label [part])
      = (parts.map fun part => tagged label [part]).map Item.unplaced := by
  simp [h, Function.comp_def]

theorem dump_unplaced (h : parts' = parts.map Item.unplaced) :
    dump label nowhere parts' = (dump label i parts).unplaced := by
  rw [h, ← Item.unplacedAll_eq_map]
  rfl

end

theorem leaf_nowhere (i : Info) (name : String) (kind : LeafKind) :
    leaf nowhere name kind = (leaf i name kind).unplaced := by
  cases kind <;> rfl

theorem positionLimit_unplaced (params : List (Param Node)) :
    positionLimit (unplacedParams params) = (positionLimit params).map Item.unplaced := by
  have kinds : (unplacedParams params).map (·.kind) = params.map (·.kind) := by
    induction params with
    | nil => rfl
    | cons param rest ih =>
      cases param with
      | mk _ _ _ kind _ _ _ => exact congrArg (kind :: ·) ih
  have any (p : ArgKind → Bool) : (unplacedParams params).any (fun q => p q.kind)
      = params.any fun q => p q.kind := by
    simpa [List.any_map, Function.comp_def] using congrArg (List.any · p) kinds
  have count (p : ArgKind → Bool) : ((unplacedParams params).filter fun q => p q.kind).length
      = (params.filter fun q => p q.kind).length := by
    simpa [List.filter_map, Function.comp_def] using congrArg (fun ks => (ks.filter p).length) kinds
  rw [positionLimit, positionLimit, any fun k => k == .named || k == .namedOpt,
    count fun k => k == .pos || k == .opt]
  split <;> simp

theorem gathered_unplaced (params : List (Param Node)) :
    gathered (unplacedParams params) = (gathered params).map Item.unplaced := by
  induction params with
  | nil => rfl
  | cons param rest ih =>
    obtain ⟨i, name, fullname, kind, initial, annotated, positionOnly⟩ := param
    cases kind
    case star => exact congrArg (tagged "VarArg" [.declared nowhere name] :: ·) ih
    case starStar => exact congrArg (tagged "DictVarArg" [.declared nowhere name] :: ·) ih
    all_goals exact ih

theorem map_unplaced_functionFlags (traits : FunctionTraits) :
    (functionFlags traits).map Item.unplaced = functionFlags traits := by
  obtain ⟨isStatic, isClass, isProperty, isGenerator⟩ := traits
  cases isStatic <;> cases isClass <;> cases isProperty <;> rfl

mutual

/-- The outline of a tree without positions is the outline of the tree, without positions. -/
theorem item_unplaced : ∀ n : Node, item n.unplaced = (item n).unplaced
  | ⟨_, .file path body⟩ => dump_unplaced (by split <;> simp [each_unplaced body])
  | ⟨_, .importNames _ _⟩ | ⟨_, .importFrom _ _ _ _⟩ | ⟨_, .importAll _ _⟩ => rfl
  | ⟨_, .function name params body traits⟩ =>
    dump_unplaced (by
      cases traits.isGenerator <;>
        simp [positionLimit_unplaced params, namedParams_unplaced params, gathered_unplaced params,
          map_unplaced_functionFlags, item_unplaced body])
  | ⟨_, .decorated function decorators boundName⟩ =>
    dump_unplaced (by simp [each_unplaced decorators, item_unplaced function])
  | ⟨_, .overloads items implementation⟩ =>
    dump_unplaced (by simp [each_unplaced items, optional_unplaced implementation])
  | ⟨_, .classDef name decorators bases metaclass _ body _⟩ =>
    dump_unplaced (by
      simp [each_unplaced decorators, optional_unplaced metaclass, each_unplaced bases,
        statements_unplaced body])
  | ⟨_, .block items⟩ | ⟨_, .list items⟩ | ⟨_, .tuple items⟩ | ⟨_, .set items⟩
  | ⟨_, .orPattern items⟩ | ⟨_, .sequencePattern items⟩ => dump_unplaced (each_unplaced items)
  | ⟨_, .globalDecl _⟩ | ⟨_, .nonlocalDecl _⟩ | ⟨_, .singletonPattern _⟩ =>
    dump_unplaced (by simp [Function.comp_def])
  | ⟨_, .expression value⟩ | ⟨_, .deletion value⟩ | ⟨_, .member value _⟩ | ⟨_, .unary _ value _⟩
  | ⟨_, .star value⟩ | ⟨_, .await value⟩ | ⟨_, .yieldFrom value⟩ | ⟨_, .listComp value⟩
  | ⟨_, .setComp value⟩ | ⟨_, .cast value _⟩ | ⟨_, .assertType value _⟩ | ⟨_, .superCall _ value⟩
  | ⟨_, .typeApplication value⟩ | ⟨_, .valuePattern value⟩ =>
    dump_unplaced (by simp [item_unplaced value, Function.comp_def])
  | ⟨_, .returnStmt value⟩ | ⟨_, .yield value⟩ | ⟨_, .reveal .type value⟩
  | ⟨_, .starredPattern value⟩ => dump_unplaced (optional_unplaced value)
  | ⟨_, .assignment [] value⟩ =>
    dump_unplaced (cons_unplaced rfl (cons_unplaced (item_unplaced value) rfl))
  | ⟨_, .assignment (first :: second :: targets) value⟩ =>
    dump_unplaced (cons_unplaced (tagged_unplaced (each_unplaced (first :: second :: targets)))
      (cons_unplaced (item_unplaced value) rfl))
  | ⟨_, .assignment [a] b⟩ | ⟨_, .augmented _ a b⟩ | ⟨_, .index a b _ none⟩
  | ⟨_, .binary _ a b _ none⟩ | ⟨_, .walrus a b⟩ =>
    dump_unplaced (by simp [item_unplaced a, item_unplaced b])
  | ⟨_, .whileLoop condition body orElse⟩ =>
    dump_unplaced (by
      simp [item_unplaced condition, item_unplaced body, branch_unplaced "Else" orElse])
  | ⟨_, .forLoop index source body orElse isAsync⟩ =>
    dump_unplaced (by
      cases isAsync <;>
        simp [item_unplaced index, item_unplaced source, item_unplaced body,
          branch_unplaced "Else" orElse])
  | ⟨_, .assertion condition message⟩ =>
    dump_unplaced (by simp [item_unplaced condition, optional_unplaced message])
  | ⟨_, .ifElse branches orElse⟩ =>
    dump_unplaced (by simp [conditionals_unplaced branches, branch_unplaced "Else" orElse])
  | ⟨_, .raising a b⟩ | ⟨_, .asPattern a b⟩ =>
    dump_unplaced (by simp [optional_unplaced a, optional_unplaced b])
  | ⟨_, .tryBlock body handlers orElse finalBody isStar⟩ =>
    dump_unplaced (by
      cases isStar <;>
        simp [item_unplaced body, handlerParts_unplaced handlers, branch_unplaced "Else" orElse,
          branch_unplaced "Finally" finalBody])
  | ⟨_, .withBlock items body isAsync⟩ =>
    dump_unplaced (by cases isAsync <;> simp [withParts_unplaced items, item_unplaced body])
  | ⟨_, .matching subject cases⟩ =>
    dump_unplaced (by simp [item_unplaced subject, caseParts_unplaced cases])
  | ⟨_, .breakStmt⟩ | ⟨_, .continueStmt⟩ | ⟨_, .passStmt⟩ | ⟨_, .reveal .locals _⟩ => rfl
  | ⟨_, .int _⟩ | ⟨_, .str _⟩ | ⟨_, .bytes _⟩ | ⟨_, .float _⟩ | ⟨_, .complex _⟩ => rfl
  | ⟨_, .ellipsis⟩ | ⟨_, .name _ _⟩ | ⟨_, .argument _⟩ | ⟨_, .required _⟩ => rfl
  | ⟨_, .call _ _ (some analyzed)⟩ | ⟨_, .index _ _ _ (some analyzed)⟩
  | ⟨_, .binary _ _ _ _ (some analyzed)⟩ => item_unplaced analyzed
  | ⟨_, .call callee args none⟩ =>
    dump_unplaced (by simp [item_unplaced callee, positionals_unplaced args, others_unplaced args])
  | ⟨_, .comparison operators operands⟩ =>
    dump_unplaced (by simp [Function.comp_def, each_unplaced operands])
  | ⟨_, .slice start stop step⟩ =>
    dump_unplaced (by
      simp [orEmpty_unplaced start, orEmpty_unplaced stop, optional_unplaced step])
  | ⟨_, .conditional condition ifTrue ifFalse⟩ =>
    dump_unplaced (by
      simp [item_unplaced condition, item_unplaced ifTrue, item_unplaced ifFalse])
  | ⟨_, .dict items⟩ => dump_unplaced (entries_unplaced items)
  | ⟨_, .generator element clauses⟩ =>
    dump_unplaced (by
      simp [item_unplaced element, indices_unplaced clauses, sources_unplaced clauses,
        conditions_unplaced clauses])
  | ⟨_, .dictComp key value clauses⟩ =>
    dump_unplaced (by
      simp [item_unplaced key, item_unplaced value, indices_unplaced clauses,
        sources_unplaced clauses, conditions_unplaced clauses])
  | ⟨_, .lambda params body isGenerator⟩ =>
    dump_unplaced (by
      cases isGenerator <;>
        simp [namedParams_unplaced params, gathered_unplaced params, item_unplaced body])
  | ⟨i, .leaf kind name⟩ => leaf_nowhere i name kind
  | ⟨_, .mappingPattern items rest⟩ =>
    dump_unplaced (by simp [keyedParts_unplaced items, optional_unplaced rest])
  | ⟨_, .classPattern cls positionals keywords⟩ =>
    dump_unplaced (by
      simp [item_unplaced cls, each_unplaced positionals, keywordParts_unplaced keywords])

theorem each_unplaced : ∀ ns : List Node, each (unplacedAll ns) = (each ns).map Item.unplaced
  | [] => rfl
  | n :: rest => congrArg₂ List.cons (item_unplaced n) (each_unplaced rest)

theorem optional_unplaced : ∀ n : Option Node,
    optional (unplacedOption n) = (optional n).map Item.unplaced
  | none => rfl
  | some n => congrArg ([·]) (item_unplaced n)

theorem orEmpty_unplaced : ∀ n : Option Node,
    orEmpty (unplacedOption n) = (orEmpty n).map Item.unplaced
  | none => rfl
  | some n => congrArg ([·]) (item_unplaced n)

theorem statements_unplaced : ∀ n : Node,
    statements n.unplaced = (statements n).map Item.unplaced
  | ⟨_, shape⟩ => by
    cases shape
    case block body => exact each_unplaced body
    all_goals rfl

theorem branch_unplaced (tag : String) : ∀ n : Option Node,
    branch tag (unplacedOption n) = (branch tag n).map Item.unplaced
  | none => rfl
  | some n => cons_unplaced (tagged_unplaced (statements_unplaced n)) rfl

theorem conditionals_unplaced : ∀ branches : List (Node × Node),
    conditionals (unplacedPairs branches) = (conditionals branches).map Item.unplaced
  | [] => rfl
  | (c, b) :: rest =>
    cons_unplaced (tagged_unplaced (cons_unplaced (item_unplaced c) rfl))
      (cons_unplaced (tagged_unplaced (statements_unplaced b)) (conditionals_unplaced rest))

theorem handlerParts_unplaced : ∀ handlers : List (Handler Node),
    handlerParts (unplacedHandlers handlers) = (handlerParts handlers).map Item.unplaced
  | [] => rfl
  | ⟨type, target, body⟩ :: rest =>
    append_unplaced (append_unplaced (optional_unplaced type) (optional_unplaced target))
      (cons_unplaced (item_unplaced body) (handlerParts_unplaced rest))

theorem withParts_unplaced : ∀ items : List (WithItem Node),
    withParts (unplacedWithItems items) = (withParts items).map Item.unplaced
  | [] => rfl
  | ⟨resource, target⟩ :: rest =>
    append_unplaced
      (cons_unplaced (tagged_unplaced (cons_unplaced (item_unplaced resource) rfl))
        (map_tagged_unplaced (optional_unplaced target)))
      (withParts_unplaced rest)

theorem caseParts_unplaced : ∀ cases : List (MatchCase Node),
    caseParts (unplacedCases cases) = (caseParts cases).map Item.unplaced
  | [] => rfl
  | ⟨pattern, guard, body⟩ :: rest =>
    append_unplaced
      (cons_unplaced (tagged_unplaced (cons_unplaced (item_unplaced pattern) rfl))
        (map_tagged_unplaced (optional_unplaced guard)))
      (cons_unplaced (tagged_unplaced (statements_unplaced body)) (caseParts_unplaced rest))

theorem positionals_unplaced : ∀ args : List (CallArg Node),
    positionals (unplacedArgs args) = (positionals args).map Item.unplaced
  | [] => rfl
  | ⟨value, kind, _⟩ :: rest => by
    cases kind
    case pos | star => exact cons_unplaced (item_unplaced value) (positionals_unplaced rest)
    all_goals exact positionals_unplaced rest

theorem others_unplaced : ∀ args : List (CallArg Node),
    others (unplacedArgs args) = (others args).map Item.unplaced
  | [] => rfl
  | ⟨value, kind, name⟩ :: rest => by
    cases kind
    case star => exact cons_unplaced rfl (others_unplaced rest)
    case named =>
      refine cons_unplaced (tagged_unplaced (append_unplaced ?_ ?_)) (others_unplaced rest)
      · cases name <;> rfl
      · exact cons_unplaced (item_unplaced value) rfl
    case starStar =>
      exact cons_unplaced (tagged_unplaced (cons_unplaced (item_unplaced value) rfl))
        (others_unplaced rest)
    all_goals exact others_unplaced rest

theorem entries_unplaced : ∀ items : List (Option Node × Node),
    entries (unplacedEntries items) = (entries items).map Item.unplaced
  | [] => rfl
  | (key, value) :: rest =>
    append_unplaced (optional_unplaced key)
      (cons_unplaced (item_unplaced value) (entries_unplaced rest))

theorem indices_unplaced : ∀ clauses : List (Clause Node),
    indices (unplacedClauses clauses) = (indices clauses).map Item.unplaced
  | [] => rfl
  | ⟨index, _, _, _⟩ :: rest => congrArg₂ List.cons (item_unplaced index) (indices_unplaced rest)

theorem sources_unplaced : ∀ clauses : List (Clause Node),
    sources (unplacedClauses clauses) = (sources clauses).map Item.unplaced
  | [] => rfl
  | ⟨_, source, _, _⟩ :: rest => congrArg₂ List.cons (item_unplaced source) (sources_unplaced rest)

theorem conditions_unplaced : ∀ clauses : List (Clause Node),
    conditions (unplacedClauses clauses) = (conditions clauses).map Item.unplaced
  | [] => rfl
  | ⟨_, _, conds, _⟩ :: rest =>
    append_unplaced (each_unplaced conds) (conditions_unplaced rest)

theorem namedParams_unplaced : ∀ params : List (Param Node),
    namedParams (unplacedParams params) = (namedParams params).map Item.unplaced
  | [] => rfl
  | ⟨_, name, _, kind, initial, _, _⟩ :: rest => by
    cases kind
    case pos | named => exact cons_unplaced rfl (namedParams_unplaced rest)
    case opt | namedOpt =>
      exact cons_unplaced (tagged_unplaced (cons_unplaced rfl (optional_unplaced initial)))
        (namedParams_unplaced rest)
    all_goals exact namedParams_unplaced rest

theorem keyedParts_unplaced : ∀ items : List (Node × Node),
    keyedParts (unplacedPairs items) = (keyedParts items).map Item.unplaced
  | [] => rfl
  | (key, value) :: rest =>
    cons_unplaced (tagged_unplaced (cons_unplaced (item_unplaced key) rfl))
      (cons_unplaced (tagged_unplaced (cons_unplaced (item_unplaced value) rfl))
        (keyedParts_unplaced rest))

theorem keywordParts_unplaced : ∀ keywords : List (String × Node),
    keywordParts (unplacedKeywords keywords) = (keywordParts keywords).map Item.unplaced
  | [] => rfl
  | (_, value) :: rest =>
    cons_unplaced (tagged_unplaced (cons_unplaced rfl (cons_unplaced (item_unplaced value) rfl)))
      (keywordParts_unplaced rest)

end

/-- What is shown of the position of a node: the line on which it starts, or only whether it stands
nowhere. -/
inductive Place where
  | line (n : Int)
  | nowhere (unknown : Bool)

mutual

def Item.places : Item → List Place
  | .text _ => []
  | .name _ _ => []
  | .declared i _ => [.nowhere (i.span.line < 0)]
  | .tag _ node _ parts =>
    (node.map fun i => Place.line i.span.line).toList ++ Item.placesAll parts

def Item.placesAll : List Item → List Place
  | [] => []
  | part :: rest => part.places ++ Item.placesAll rest

end

mutual

theorem length_places_unplaced : ∀ d : Item, d.unplaced.places.length = d.places.length
  | .text _ => rfl
  | .name _ _ => rfl
  | .declared _ _ => rfl
  | .tag _ node _ parts => by
    have rest := length_placesAll_unplaced parts
    cases node <;> simp [Item.unplaced, Item.places, rest]

theorem length_placesAll_unplaced : ∀ parts : List Item,
    (Item.placesAll (Item.unplacedAll parts)).length = (Item.placesAll parts).length
  | [] => rfl
  | part :: rest => by
    simp [Item.unplacedAll, Item.placesAll, length_places_unplaced part,
      length_placesAll_unplaced rest]

end

theorem length_places_eq {d e : Item} (copy : d.unplaced = e.unplaced) :
    d.places.length = e.places.length := by
  rw [← length_places_unplaced d, copy, length_places_unplaced e]

theorem append_cons_inj {c : Char} {s t u v : List Char} (hs : c ∉ s) (ht : c ∉ t) :
    s ++ c :: u = t ++ c :: v ↔ s = t ∧ u = v := by
  induction s generalizing t with
  | nil => cases t <;> simp_all
  | cons x s ih =>
    rw [List.mem_cons, not_or] at hs
    cases t with
    | nil => simp [Ne.symm hs.1]
    | cons y t =>
      rw [List.mem_cons, not_or] at ht
      simp [ih hs.2 ht.2, and_assoc]

theorem not_mem_lineOf (node : Option Info) : '(' ∉ lineOf node :=
  fun h => absurd (of_mem_lineOf h) (by decide)

theorem lineOf_inj {m n : Option Info} : lineOf m = lineOf n
    ↔ m.map (fun i => Place.line i.span.line) = n.map (fun i => Place.line i.span.line) := by
  cases m <;> cases n <;> simp [lineOf, String.toList_inj, Int.repr_inj]

theorem not_mem_mark (i : Info) : '(' ∉ mark i := by
  rw [mark]
  split <;> simp

theorem mark_inj {i j : Info} : mark i = mark j
    ↔ Place.nowhere (i.span.line < 0) = Place.nowhere (j.span.line < 0) := by
  by_cases hi : i.span.line < 0 <;> by_cases hj : j.span.line < 0 <;> simp [mark, hi, hj]

mutual

/-- Copies that show the same positions are printed as the same text, and as different texts in
front of whatever follows if they do not. -/
theorem chars_append_inj : ∀ {d e : Item}, d.unplaced = e.unplaced → ∀ (k : Nat) (u v : List Char),
    d.chars k ++ u = e.chars k ++ v ↔ d.places = e.places ∧ u = v
  | .text s, e, copy, k, u, v => by
    cases e with
    | text s' =>
      obtain rfl := Item.text.inj copy
      simp [Item.places]
    | _ => cases copy
  | .name ref toModule, e, copy, k, u, v => by
    cases e with
    | name ref' toModule' =>
      obtain ⟨rfl, rfl⟩ := Item.name.inj copy
      simp [Item.places]
    | _ => cases copy
  | .declared i own, e, copy, k, u, v => by
    cases e with
    | declared j own' =>
      obtain ⟨-, rfl⟩ := Item.declared.inj copy
      rw [chars_declared_append, chars_declared_append, List.append_right_inj,
        append_cons_inj (not_mem_mark i) (not_mem_mark j), mark_inj, List.append_right_inj]
      simp [Item.places]
    | _ => cases copy
  | .tag label node layout parts, e, copy, k, u, v => by
    cases e with
    | tag label' node' layout' parts' =>
      obtain ⟨rfl, given, rfl, rest⟩ := Item.tag.inj copy
      rw [chars_tag_append, chars_tag_append, List.append_right_inj,
        append_cons_inj (not_mem_lineOf node) (not_mem_lineOf node'), lineOf_inj,
        charsAll_append_inj rest, List.cons_inj_right, ← and_assoc]
      refine and_congr_left fun _ => ?_
      cases node <;> cases node' <;> simp_all [Item.places]
    | _ => cases copy

theorem charsAll_append_inj : ∀ {ps qs : List Item}, Item.unplacedAll ps = Item.unplacedAll qs →
    ∀ (layout : Layout) (k : Nat) (u v : List Char),
      charsAll layout k ps ++ u = charsAll layout k qs ++ v
        ↔ Item.placesAll ps = Item.placesAll qs ∧ u = v
  | [], qs, copy, layout, k, u, v => by
    cases qs with
    | nil => exact ⟨fun same => ⟨rfl, same⟩, fun h => h.2⟩
    | cons q qs => cases copy
  | p :: ps, qs, copy, layout, k, u, v => by
    cases qs with
    | nil => cases copy
    | cons q qs =>
      obtain ⟨first, rest⟩ := List.cons.inj copy
      rw [charsAll_cons_append, charsAll_cons_append, List.append_right_inj,
        chars_append_inj first, charsAll_append_inj rest, ← and_assoc]
      refine and_congr_left fun _ => ⟨fun h => congrArg₂ (· ++ ·) h.1 h.2, fun h => ?_⟩
      exact List.append_inj h (length_places_eq first)

end

end Outline

namespace Equivalence

open Node (nowhere unplaced)

variable {f : Form} {a b m n : Node}

/-- Taking positions away keeps the form. -/
theorem hasForm_unplaced_iff : HasForm f n.unplaced ↔ HasForm f n := by
  constructor
  · intro h
    obtain ⟨i, shape⟩ := n
    cases shape
    all_goals cases h
    all_goals constructor
  · intro h
    cases h <;> constructor

/-- Taking positions away keeps labels, and takes them from the compared parts. -/
theorem compared_unplaced (h : HasForm f n) :
    n.unplaced.label = n.label ∧ n.unplaced.compared = n.compared.map unplaced := by
  cases h with
  | name | member | index | star | unary | binary => exact ⟨rfl, rfl⟩
  | call i callee args analyzed =>
    have erased : unplaced ⟨i, .call callee args analyzed⟩ = ⟨nowhere, .call callee.unplaced
      (Node.unplacedArgs args) (Node.unplacedOption analyzed)⟩ := rfl
    simp [erased, Node.unplacedArgs_eq_map, Node.label, Node.compared, Function.comp_def]
  | comparison => exact ⟨rfl, Node.unplacedAll_eq_map _⟩
  | list i items | tuple i items | set i items =>
    have counted : (Node.unplacedAll items).length = items.length := by
      rw [Node.unplacedAll_eq_map, List.length_map]
    exact ⟨congrArg Label.counted counted, Node.unplacedAll_eq_map items⟩
  | dict i items =>
    have erased : unplaced ⟨i, .dict items⟩ = ⟨nowhere, .dict (Node.unplacedEntries items)⟩ := rfl
    simp [erased, Node.unplacedEntries_eq_map, Node.label, Node.compared, Node.entryParts,
      Function.comp_def, List.map_flatMap, List.flatMap_map, Option.toList_map]
  | slice i start stop step =>
    have erased : unplaced ⟨i, .slice start stop step⟩ = ⟨nowhere, .slice
      (Node.unplacedOption start) (Node.unplacedOption stop) (Node.unplacedOption step)⟩ := rfl
    simp [erased, Node.unplacedOption_eq_map, Node.label, Node.compared, Option.toList_map]

theorem hasForm_of_copy (copy : m.unplaced = n.unplaced) (h : HasForm f m) : HasForm f n := by
  rw [← hasForm_unplaced_iff, ← copy, hasForm_unplaced_iff]
  exact h

/-- Whatever the comparison of two copies comes to is again two copies. -/
theorem Meets.copy (met : Meets a b m n) (copy : a.unplaced = b.unplaced) :
    m.unplaced = n.unplaced := by
  induction met with
  | start => exact copy
  | @part m n c d f k _ hm hn hc hd ih =>
    have parts : m.compared.map unplaced = n.compared.map unplaced := by
      rw [← (compared_unplaced hm).2, ← (compared_unplaced hn).2, ih]
    have place := congrArg (·[k]?) parts
    simpa [hc, hd] using place

theorem outline_eq_iff_of_copy (copy : m.unplaced = n.unplaced) :
    m.outline = n.outline ↔ (Outline.item m).places = (Outline.item n).places := by
  have alike : (Outline.item m).unplaced = (Outline.item n).unplaced := by
    rw [← Outline.item_unplaced, ← Outline.item_unplaced, copy]
  have printed := Outline.chars_append_inj alike 0 [] []
  rw [List.append_nil, List.append_nil] at printed
  rw [Node.outline, Node.outline, String.ofList_inj, printed, and_iff_left rfl]

theorem agree_iff_of_copy (copy : m.unplaced = n.unplaced) : Agree m n
    ↔ ((∀ f, ¬ HasForm f m) → (Outline.item m).places = (Outline.item n).places) := by
  constructor
  · intro agree no_form
    exact (outline_eq_iff_of_copy copy).1 (agree.outline fun f h => absurd h (no_form f))
  · intro h
    refine ⟨fun f hm hn => ?_, fun apart => ?_⟩
    · rw [← (compared_unplaced hm).1, ← (compared_unplaced hn).1, copy]
    · exact (outline_eq_iff_of_copy copy).2 (h fun f hm => apart f hm (hasForm_of_copy copy hm))

end Equivalence

/-- Two copies of a tree are the same exactly if, wherever their comparison comes to nodes that it
does not look into, the outlines of both show the same positions. -/
theorem equivalent_copies_iff {a b : Node} (copy : a.unplaced = b.unplaced) :
    a.equivalent b = true ↔ ∀ m n, Equivalence.Meets a b m n →
      (∀ f, ¬ Equivalence.HasForm f m) → (Outline.item m).places = (Outline.item n).places := by
  refine Equivalence.nodes_iff_meets.trans (forall₂_congr fun m n => ?_)
  exact forall_congr' fun met => Equivalence.agree_iff_of_copy (met.copy copy)

def awaitAt (line column : Int) : Node :=
  ⟨⟨1, ⟨line, column, none, none⟩⟩, .await
    ⟨⟨2, ⟨line, column + 6, none, none⟩⟩, .name ⟨"x", "m.x", some .inModule, false⟩ none⟩⟩

theorem awaitAt_no_form (line column : Int) (f : Equivalence.Form) :
    ¬ Equivalence.HasForm f (awaitAt line column) := by
  intro h
  cases h

def listAt (line : Int) (item : Node) : Node := ⟨⟨0, ⟨line, 0, none, none⟩⟩, .list [item]⟩

/-- A list may begin on another line, as long as what it awaits stays on its line. -/
theorem equivalent_copies_iff_list :
    (listAt 1 (awaitAt 3 0)).unplaced = (listAt 2 (awaitAt 3 4)).unplaced
      ∧ (listAt 1 (awaitAt 3 0)).equivalent (listAt 2 (awaitAt 3 4)) = true := by
  have copy : (listAt 1 (awaitAt 3 0)).unplaced = (listAt 2 (awaitAt 3 4)).unplaced := rfl
  refine ⟨copy, (equivalent_copies_iff copy).2 fun m n met no_form => ?_⟩
  obtain ⟨rfl, -⟩ | ⟨-, _ | k, c, d, -, -, hc, hd, met⟩ := met.first
  · exact absurd (.list ..) (no_form .list)
  · cases hc
    cases hd
    obtain ⟨rfl, rfl⟩ := met.eq_of_no_form (awaitAt_no_form 3 0)
    rfl
  · cases hc

/-- What is awaited on the next line is not the same. -/
theorem moved_await_differs : (awaitAt 1 0).unplaced = (awaitAt 2 0).unplaced
    ∧ (awaitAt 1 0).equivalent (awaitAt 2 0) = false := by
  have copy : (awaitAt 1 0).unplaced = (awaitAt 2 0).unplaced := rfl
  refine ⟨copy, Bool.eq_false_iff.2 fun same => ?_⟩
  have shown := (Equivalence.Agree.of_same same).outline fun f h => absurd h (awaitAt_no_form 1 0 f)
  cases (Equivalence.outline_eq_iff_of_copy copy).1 shown

end IdiomLint
