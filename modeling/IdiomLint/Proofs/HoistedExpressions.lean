import IdiomLint.Proofs.Scopes
import IdiomLint.Rules.Containers

/-! Expressions that are moved out of the construct that binds a variable. A function that looks up
items of its parameter is reported for one that gets the items at keys, which are evaluated when that
function is made; a loop that changes a set element by element is reported for one call, so the set is
evaluated once. What is suggested does the same, whatever expressions mean, exactly if nothing that is
moved depends on the variable. The checks do not look inside of what they move, so this can fail; only
a set that is nothing but the variable is left alone. -/
namespace IdiomLint

open Finding Rules.Functions Rules.Containers

namespace Interpretation

variable {Val : Type} (M : Interpretation Val) (env : String → Val)

def itemOf? : Node → Option Val
  | ⟨_, .index base key _ _⟩ => some (M.item (M.value env base) (M.value env key))
  | _ => none

def items? : Node → Option Val
  | ⟨_, .tuple items⟩ => (items.mapM (M.itemOf? env)).map M.tuple
  | n => M.itemOf? env n

/-- What getting the items at given keys gives: one item for one key, a tuple for several. -/
def gotten (v : Val) : List Val → Val
  | [key] => M.item v key
  | keys => M.tuple (keys.map (M.item v))

theorem gotten_of_lt {v : Val} {keys : List Val} (several : 1 < keys.length) :
    M.gotten v keys = M.tuple (keys.map (M.item v)) := by
  match keys with
  | [] => rfl
  | [_] => exact absurd several (by simp)
  | _ :: _ :: _ => rfl

/-- For `reading`, getting items shows whether the keys are all 0. -/
theorem forall_eq_zero_of_gotten_reading {x : String} {v w : Nat} {keys others : List Nat}
    (equal : (reading x).gotten v keys = (reading x).gotten w others)
    (length : keys.length = others.length) (zero : ∀ key ∈ others, key = 0) :
    ∀ key ∈ keys, key = 0 := by
  by_cases several : 1 < keys.length
  · rw [gotten_of_lt _ several, gotten_of_lt _ (length ▸ several)] at equal
    have items {u : Nat} {ks : List Nat} : ks.map ((reading x).item u) = ks := List.map_id ks
    rw [items, items, reading_tuple_eq_two_iff.2 zero, reading_tuple_eq_two_iff] at equal
    exact equal
  · cases keys with
    | nil => simp
    | cons key rest =>
      obtain rfl : rest = [] := by simpa using several
      obtain ⟨other, rfl⟩ := List.length_eq_one_iff.1 length.symm
      have same : key = other := equal
      simp_all

end Interpretation

/-- What a report moves out of a construct. -/
inductive Hoisting where
  /-- The keys of the items that a function of one parameter returns. -/
  | lookups (param : String) (value : Node) (keys : List Node)
  /-- The set that a loop changes. -/
  | rounds (index : Ref) (set : Node)

namespace Hoisting

/-- The keys of a value that looks up items of a variable: one index, or a tuple of several. -/
inductive LooksUp (x : String) : Node → List Node → Prop
  | one {value base key : Node} (index : indexInto? (some x) value = some (base, key)) :
    LooksUp x value [key]
  | several {i : Info} {items keys : List Node} (length : 1 < items.length)
    (each : List.Forall₂ (fun item key => ∃ base, indexInto? (some x) item = some (base, key))
      items keys) : LooksUp x ⟨i, .tuple items⟩ keys

def suggestion (n : Node) (function : String) : Finding :=
  ofNode n ("Replace " ++ functionLabel n ++ " with `" ++ function ++ "`")

def elementTexts (index source : Node) : List String :=
  [source.sourceText, "... for " ++ index.sourceText ++ " in " ++ source.sourceText]

inductive ReportedAt (n : Node) (f : Finding) : Hoisting → Prop
  | lookups {p : Param Node} {body value : Node} {keys : List Node}
    (parts : paramsAndBody? n = some ([p], body)) (kind : p.kind = .pos)
    (returns : returned? body = some value) (looksUp : LooksUp p.name value keys)
    (text : f = suggestion n (itemGetter keys)) : ReportedAt n f (.lookups p.name value keys)
  | rounds {h i j k l m : Info} {index method : Ref} {binding : Option Binding} {source set : Node}
    {arg : CallArg Node} {analyzed : Option Node} {old function elements : String}
    (loop : n = ⟨h, .forLoop ⟨i, .name index binding⟩ source ⟨j, .block [⟨k, .expression
      ⟨l, .call ⟨m, .member set method⟩ [arg] analyzed⟩⟩]⟩ none false⟩)
    (changes : (method.name, function) ∈ [("add", "update"), ("discard", "difference_update")])
    (shown : elements ∈ elementTexts ⟨i, .name index binding⟩ source)
    (text : f = replace n old (set.sourceText ++ "." ++ function ++ "(" ++ elements ++ ")")) :
    ReportedAt n f (.rounds index set)

def variableName : Hoisting → String
  | .lookups param _ _ => param
  | .rounds index _ => index.name

def moved : Hoisting → List Node
  | .lookups _ _ keys => keys
  | .rounds _ set => [set]

/-- A set that is a name does not depend on the variable, if names that are spelled alike are the
same. -/
def Guarded : Hoisting → Prop
  | .lookups _ _ _ => True
  | .rounds index set => ∀ i ref binding, set = ⟨i, .name ref binding⟩ →
    (ref.name = index.name → ref.fullname = index.fullname) → ¬set.DependsOn index.name

/-- The function returns what getting the items returns; every round changes the set that the call
changes. -/
def Same : Hoisting → Prop
  | .lookups param value keys => ∀ (Val : Type) (M : Interpretation Val) (env : String → Val) (v : Val),
    M.items? (bound env [(param, v)]) value = some (M.gotten v (keys.map (M.value env)))
  | .rounds index set => ∀ (Val : Type) (M : Interpretation Val) (env : String → Val) (vals : List Val),
    vals.map (fun v => M.value (bound env [(index.name, v)]) set) =
      List.replicate vals.length (M.value env set)

section

variable {x : String} {value : Node} {keys : List Node}

theorem indexInto?_eq_some {param : Option String} {base key : Node}
    (h : indexInto? param value = some (base, key)) : nameOf? base = param ∧ param.isSome ∧
      ∃ i method analyzed, value = ⟨i, .index base key method analyzed⟩ := by
  unfold indexInto? at h
  split at h
  case h_1 i base key method analyzed =>
    split at h
    case isTrue named =>
      cases h
      obtain ⟨isSome, same⟩ := Bool.and_eq_true_iff.1 named
      have name : nameOf? base = param := eq_of_beq same
      exact ⟨name, name ▸ isSome, i, method, analyzed, rfl⟩
    case isFalse => cases h
  case h_2 => cases h

theorem itemOf?_of_indexInto? {Val : Type} (M : Interpretation Val) (env : String → Val)
    {base key : Node} (h : indexInto? (some x) value = some (base, key)) :
    M.itemOf? env value = some (M.item (env x) (M.value env key)) := by
  obtain ⟨name, -, i, method, analyzed, rfl⟩ := indexInto?_eq_some h
  rw [Interpretation.itemOf?, M.value_of_nameOf? env name]

theorem mapM_itemOf? {Val : Type} (M : Interpretation Val) (env : String → Val) {items : List Node}
    (h : List.Forall₂ (fun item key => ∃ base, indexInto? (some x) item = some (base, key)) items keys) :
    items.mapM (M.itemOf? env) = some ((keys.map (M.value env)).map (M.item (env x))) := by
  induction h with
  | nil => rfl
  | cons first rest ih =>
    obtain ⟨base, index⟩ := first
    rw [List.mapM_cons, itemOf?_of_indexInto? M env index, ih]
    rfl

/-- What is returned are the items at the keys, which are evaluated inside of the function. -/
theorem LooksUp.items? {Val : Type} (h : LooksUp x value keys) (M : Interpretation Val)
    (env : String → Val) :
    M.items? env value = some (M.gotten (env x) (keys.map (M.value env))) := by
  cases h with
  | one index =>
    have single : M.items? env value = M.itemOf? env value := by
      obtain ⟨i, shape⟩ := value
      cases shape with
      | tuple items => cases index
      | _ => rfl
    exact single.trans (itemOf?_of_indexInto? M env index)
  | several length each =>
    rw [Interpretation.items?, mapM_itemOf? M env each, Option.map_some,
      M.gotten_of_lt (by simpa [← each.length_eq] using length)]

theorem LooksUp.same_iff (h : LooksUp x value keys) :
    Same (.lookups x value keys) ↔ ∀ key ∈ keys, ¬key.DependsOn x := by
  constructor
  · intro same key mem depends
    -- the parameter is 1 and all other names are 0, so the key is 1 inside and 0 outside
    have equal := same Nat (Interpretation.reading x) (fun _ => 0) 1
    rw [h.items?, Option.some.injEq] at equal
    have inside : (Interpretation.reading x).value (bound (fun _ => 0) [(x, 1)]) key = 1 :=
      Interpretation.reading_bound (List.mem_singleton_self x) depends
    have zero := Interpretation.forall_eq_zero_of_gotten_reading equal (by simp)
      (by simp [Interpretation.reading_zero]) _ (List.mem_map_of_mem mem)
    rw [inside] at zero
    cases zero
  · intro free Val M env v
    have outside (key : Node) (mem : key ∈ keys) :
        M.value (bound env [(x, v)]) key = M.value env key :=
      M.value_bound (by simpa using free key mem)
    have variableValue : bound env [(x, v)] x = v := bound_of_mem (by simp) List.mem_cons_self
    rw [h.items?, variableValue, List.map_congr_left outside]

theorem same_set_iff {index : Ref} {set : Node} :
    Same (.rounds index set) ↔ ¬set.DependsOn index.name := by
  rw [← Interpretation.forall_value_bound_iff]
  constructor
  · intro same Val M env v
    simpa using same Val M env [v]
  · intro same Val M env vals
    simp [same]

end

def wholeFunctions : List String :=
  "list.copy" :: (binaryOperators ++ unaryOperators).map ("operator." ++ ·.2)

theorem mem_wholeFunctions {op f : String}
    (h : binaryOperators.lookup op = some f ∨ unaryOperators.lookup op = some f) :
    "operator." ++ f ∈ wholeFunctions := by
  have mem : (op, f) ∈ binaryOperators ++ unaryOperators := by
    rw [List.mem_append]
    refine h.imp (fun h => ?_) fun h => ?_ <;>
      obtain ⟨before, after, shape, -⟩ := List.lookup_eq_some_iff.1 h <;> simp [shape]
  exact List.mem_cons_of_mem _ (List.mem_map_of_mem mem)

theorem mem_wholeFunctions_of_binaryFunction? {first second : Option String} {value : Node}
    {new : String} (h : binaryFunction? first second value = some new) : new ∈ wholeFunctions := by
  unfold binaryFunction? at h
  split at h
  case h_1 op a b operation =>
    split at h
    case h_1 f known =>
      obtain ⟨-, h⟩ := Option.ite_none_right_eq_some.1 h
      cases h
      exact mem_wholeFunctions (.inl known)
    case h_2 => cases h
  case h_2 => cases h

theorem forall₂_of_mapM {param : Option String} {items keys : List Node}
    (h : items.mapM (fun item => (indexInto? param item).map (·.2)) = some keys) :
    List.Forall₂ (fun item key => ∃ base, indexInto? param item = some (base, key)) items keys := by
  induction items generalizing keys with
  | nil =>
    cases h
    exact .nil
  | cons item items ih =>
    rw [List.mapM_cons] at h
    obtain ⟨key, first, h⟩ := Option.bind_eq_some_iff.1 h
    obtain ⟨rest, others, h⟩ := Option.bind_eq_some_iff.1 h
    cases h
    obtain ⟨⟨base, key⟩, index, rfl⟩ := Option.map_eq_some_iff.1 first
    exact .cons ⟨base, index⟩ (ih others)

theorem unaryFunction?_cases {env : Env} {param : Option String} {value : Node} {new : String}
    (h : unaryFunction? env param value = some new) :
    new ∈ wholeFunctions ∨ ∃ x keys, param = some x ∧ LooksUp x value keys ∧ new = itemGetter keys := by
  have isSome {item base key : Node} (index : indexInto? param item = some (base, key)) :
      ∃ x, param = some x := Option.isSome_iff_exists.1 (indexInto?_eq_some index).2.1
  unfold unaryFunction? at h
  split at h
  case h_1 i op j ref binding method =>
    obtain ⟨-, h⟩ := Option.ite_none_right_eq_some.1 h
    obtain ⟨f, known, rfl⟩ := Option.map_eq_some_iff.1 h
    exact .inl (mem_wholeFunctions (.inr known))
  case h_2 i items =>
    obtain ⟨length, h⟩ := Option.ite_none_right_eq_some.1 h
    obtain ⟨keys, each, rfl⟩ := Option.map_eq_some_iff.1 h
    have looksUp := forall₂_of_mapM each
    cases looksUp with
    | nil => cases length
    | cons first rest =>
      obtain ⟨base, index⟩ := first
      obtain ⟨x, rfl⟩ := isSome index
      exact .inr ⟨x, _, rfl, .several length (.cons ⟨base, index⟩ rest), rfl⟩
  case h_3 =>
    split at h
    case h_1 base i index =>
      split at h
      case isTrue =>
        cases h
        exact .inl List.mem_cons_self
      case isFalse =>
        cases h
        obtain ⟨x, rfl⟩ := isSome index
        exact .inr ⟨x, _, rfl, .one index, rfl⟩
    case h_2 base key _ index =>
      cases h
      obtain ⟨x, rfl⟩ := isSome index
      exact .inr ⟨x, _, rfl, .one index, rfl⟩
    case h_3 => cases h

theorem operatorFunction_cases {env : Env} {n : Node} {f : Finding}
    (h : f ∈ operatorFunction env n) :
    (∃ g ∈ wholeFunctions, f = suggestion n g) ∨
      ∃ x value keys, LooksUp x value keys ∧ ReportedAt n f (.lookups x value keys) := by
  unfold operatorFunction at h
  split at h
  case h_1 => cases h
  case h_2 params body parts =>
    split at h
    case h_1 => cases h
    case h_2 value returns =>
      dsimp only at h
      split at h
      case h_1 new suggested =>
        obtain rfl : f = suggestion n new := List.mem_singleton.1 h
        split at suggested
        case isTrue => cases suggested
        case isFalse kinds =>
          split at suggested
          case h_1 p q => exact .inl ⟨new, mem_wholeFunctions_of_binaryFunction? suggested, rfl⟩
          case h_2 p =>
            rcases unaryFunction?_cases suggested with whole | ⟨x, keys, name, looksUp, rfl⟩
            · exact .inl ⟨new, whole, rfl⟩
            · have kind : p.kind = .pos := by simpa using kinds
              obtain rfl : p.name = x := by
                unfold Param.callName at name
                exact Option.some.inj (Option.ite_none_left_eq_some.1 name).2
              exact .inr ⟨_, value, keys, looksUp, .lookups parts kind returns looksUp rfl⟩
          case h_3 => cases suggested
      case h_2 => cases h

theorem append_generator (call index source : String) :
    call ++ "(... for " ++ index ++ " in " ++ source ++ ")" =
      call ++ "(" ++ ("... for " ++ index ++ " in " ++ source) ++ ")" := by
  have opened : "(... for " = "(" ++ "... for " := rfl
  rw [opened]
  simp only [String.append_assoc]

theorem equivalent_name {i j : Info} {ref other : Ref} {binding binding' : Option Binding}
    (same : ref.fullname = other.fullname) :
    Node.equivalent ⟨i, .name ref binding⟩ ⟨j, .name other binding'⟩ = true := by
  have names : Node.equivalent ⟨i, .name ref binding⟩ ⟨j, .name other binding'⟩ =
      Equivalence.sameName ref.fullname other.fullname := rfl
  rw [names, same]
  exact beq_self_eq_true _

theorem setLoop_cases {env : Env} {n : Node} {f : Finding} (h : f ∈ setLoop env n) :
    ∃ index set, Guarded (.rounds index set) ∧ ReportedAt n f (.rounds index set) := by
  unfold setLoop at h
  split at h
  case h_1 i j index binding source k l m o set method arg kind name analyzed =>
    split at h
    case isTrue reportable =>
      simp only [Bool.and_eq_true, Bool.or_eq_true, Bool.not_eq_true', beq_iff_eq] at reportable
      obtain ⟨⟨named, -⟩, other⟩ := reportable
      have guarded : Guarded (.rounds index set) := by
        intro place ref binding' shape same depends
        rw [shape, Node.dependsOn_name] at depends
        rw [shape, equivalent_name (same depends)] at other
        cases other
      have changes : (method.name, if method.name == "add" then "update" else "difference_update") ∈
          [("add", "update"), ("discard", "difference_update")] := by
        rcases named with named | named <;> simp [named]
      refine ⟨index, set, guarded, ?_⟩
      dsimp only at h
      split at h
      case isTrue =>
        split at h
        case isTrue => exact .rounds rfl changes List.mem_cons_self (List.mem_singleton.1 h)
        case isFalse => cases h
      case isFalse =>
        rw [append_generator] at h
        exact .rounds rfl changes (List.mem_cons_of_mem _ List.mem_cons_self) (List.mem_singleton.1 h)
    case isFalse => cases h
  case h_2 => cases h

/-- A report on a function or on a loop either suggests a function as a whole, or moves something out
of the scope of a variable. What it suggests then does the same, whatever expressions mean, exactly if
nothing that is moved depends on the variable. -/
theorem hoisted_same_iff {env : Env} {n : Node} {f : Finding}
    (reported : f ∈ operatorFunction env n ∨ f ∈ setLoop env n) :
    (∃ g ∈ wholeFunctions, f = suggestion n g) ∨ ∃ h : Hoisting, h.ReportedAt n f ∧ h.Guarded ∧
      (h.Same ↔ ∀ e ∈ h.moved, ¬e.DependsOn h.variableName) := by
  rcases reported with reported | reported
  · refine (operatorFunction_cases reported).imp_right ?_
    rintro ⟨x, value, keys, looksUp, reported⟩
    exact ⟨_, reported, trivial, looksUp.same_iff⟩
  · obtain ⟨index, set, guarded, reported⟩ := setLoop_cases reported
    refine .inr ⟨_, reported, guarded, same_set_iff.trans ?_⟩
    simp [moved, variableName]

def itemNode (base key : String) (method : Option Ty) : Node :=
  ⟨default, .index (nameNode base) (nameNode key) method none⟩

def lambdaNode (param : String) (value : Node) : Node :=
  ⟨default, .lambda [⟨default, param, param, .pos, none, false, false⟩]
    ⟨default, .block [⟨default, .returnStmt (some value)⟩]⟩ false⟩

def addingLoop (index source : String) (set : Node) : Node :=
  ⟨default, .forLoop (nameNode index) (nameNode source) ⟨default, .block [⟨default, .expression
    ⟨default, .call ⟨default, .member set ⟨"add", "", none, false⟩⟩ [⟨nameNode index, .pos, none⟩]
      none⟩⟩]⟩ none false⟩

def itemPair (base key key' : String) : Node :=
  ⟨default, .tuple [itemNode base key none, itemNode base key' none]⟩

/-- Two items at keys that are other variables. -/
theorem hoisted_same_iff_pair :
    let env : Env := ⟨.empty, ⟨3, 10⟩, []⟩
    ∃ f, f ∈ operatorFunction env (lambdaNode "x" (itemPair "x" "j" "k")) ∧
      f.message = "Replace `lambda x: (x[j], x[k])` with `operator.itemgetter(j, k)`" ∧
      Same (.lookups "x" (itemPair "x" "j" "k") [nameNode "j", nameNode "k"]) := by
  intro env
  let n := lambdaNode "x" (itemPair "x" "j" "k")
  obtain ⟨f, reported, text⟩ : ∃ f, operatorFunction env n = [f] ∧
      f.message = "Replace `lambda x: (x[j], x[k])` with `operator.itemgetter(j, k)`" :=
    ⟨_, rfl, by decide +kernel⟩
  have others : ∀ g ∈ wholeFunctions, (suggestion n g).message ≠
      "Replace `lambda x: (x[j], x[k])` with `operator.itemgetter(j, k)`" := by decide +kernel
  have mem : f ∈ operatorFunction env n := reported ▸ List.mem_singleton.2 rfl
  refine ⟨f, mem, text, ?_⟩
  rcases hoisted_same_iff (.inl mem) with ⟨g, whole, rfl⟩ | ⟨h, place, -, same⟩
  · exact absurd text (others g whole)
  · cases place with
    | lookups parts _ returns looksUp =>
      cases parts
      cases returns
      cases looksUp with
      | one index => cases index
      | several _ each =>
        obtain _ | ⟨⟨_, first⟩, _ | ⟨⟨_, second⟩, _ | _⟩⟩ := each
        cases first
        cases second
        exact same.2 (by simp [moved, variableName, Node.dependsOn_nameNode])
    | rounds loop => simp [n, lambdaNode] at loop

/-- A key that is the parameter, and a set that is looked up by the variable. -/
theorem dependent_expression_hoisted :
    let env : Env := ⟨.empty, ⟨3, 10⟩, []⟩
    let item := itemNode "x" "x" none
    let sets := itemNode "d" "x" (some (.callable (some (.inst ⟨"builtins.set", "builtins.set"⟩ []))))
    (∃ f, f ∈ operatorFunction env (lambdaNode "x" item) ∧
      f.message = "Replace `lambda x: x[x]` with `operator.itemgetter(x)`" ∧
      f = suggestion (lambdaNode "x" item) (itemGetter [nameNode "x"])) ∧
    (nameNode "x").DependsOn "x" ∧ ¬Same (.lookups "x" item [nameNode "x"]) ∧
    (∃ f, f ∈ setLoop env (addingLoop "x" "xs" sets) ∧
      f.message = "Replace `for x in xs: d[x].add(x)` with `d[x].update(xs)`") ∧
    sets.DependsOn "x" ∧ ¬Same (.rounds ⟨"x", "", none, false⟩ sets) := by
  intro env item sets
  have key : (nameNode "x").DependsOn "x" := Node.dependsOn_nameNode.2 rfl
  have set : sets.DependsOn "x" := .outer (by simp [sets, itemNode, Node.outerParts, Node.children]) key
  have added : replace (addingLoop "x" "xs" sets) "for x in xs: d[x].add(x)" "d[x].update(xs)" ∈
      setLoop env (addingLoop "x" "xs" sets) := by decide +kernel
  refine ⟨⟨_, List.mem_singleton.2 rfl, by decide +kernel, rfl⟩, key, ?_,
    ⟨_, added, by decide +kernel⟩, set, ?_⟩
  · have index : indexInto? (some "x") item = some (nameNode "x", nameNode "x") := rfl
    rw [LooksUp.same_iff (.one index)]
    simp [key]
  · rw [same_set_iff]
    exact fun free => free set

end Hoisting

end IdiomLint
