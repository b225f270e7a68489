import IdiomLint.Proofs.WellFormed
import IdiomLint.Syntax.Equivalence

/-! What expressions evaluate to. Literals, operators and the functions and methods that suggestions
put in each other's place have a fixed meaning; all other expressions mean what a valuation says. An
expression without a value raises an error. -/
namespace IdiomLint

theorem Node.Within.child {m n c : Node} (h : m.Within n) (hc : c ∈ m.children .calleeFirst) :
    c.Within n :=
  Node.within_trans (Node.within_of_mem hc) h

namespace Evaluation

inductive Builtin where
  | len | list | tuple | set | frozenset | dict | sorted | min | max
deriving DecidableEq

namespace Builtin

def fullname : Builtin → String
  | len => "builtins.len" | list => "builtins.list" | tuple => "builtins.tuple"
  | set => "builtins.set" | frozenset => "builtins.frozenset" | dict => "builtins.dict"
  | sorted => "builtins.sorted" | min => "builtins.min" | max => "builtins.max"

def known : List Builtin := [len, list, tuple, set, frozenset, dict, sorted, min, max]

def ofFullname? (name : String) : Option Builtin := known.find? (·.fullname == name)

end Builtin

inductive Ends where
  | start | finish | both
deriving DecidableEq

inductive TextMethod where
  | startsWith | endsWith | removePrefix | removeSuffix
  | strip (ends : Ends)
deriving DecidableEq

namespace TextMethod

def name : TextMethod → String
  | startsWith => "startswith" | endsWith => "endswith"
  | removePrefix => "removeprefix" | removeSuffix => "removesuffix"
  | strip .start => "lstrip" | strip .finish => "rstrip" | strip .both => "strip"

def known : List TextMethod :=
  [startsWith, endsWith, removePrefix, removeSuffix, strip .start, strip .finish, strip .both]

def ofName? (name : String) : Option TextMethod := known.find? (·.name == name)

end TextMethod

inductive View where
  | keys | values
deriving DecidableEq

def View.ofName? (name : String) : Option View :=
  if name = "keys" then some keys else if name = "values" then some values else none

inductive ContainerKind where
  | list | tuple | set | frozenset | other
deriving DecidableEq

/-- Values. Items are what containers hold. An iterator can be gone through and has no length; an
unbound method is one of a class, not of a value; an object is a value of no other kind. -/
inductive Value (Item : Type) where
  | object (x : Item)
  | truth (holds : Bool)
  | number (n : Int)
  | text (chars : List Char)
  | container (kind : ContainerKind) (items : List Item)
  | mapping (entries : List (Item × Item))
  | iterator (items : List Item)
  | slice (start stop : Option Int)
  | function (f : Builtin)
  | textMethod (chars : List Char) (m : TextMethod)
  | viewMethod (entries : List (Item × Item)) (v : View)
  | unboundMethod
deriving DecidableEq

section

variable {α : Type}

/-- Where a bound of a slice cuts a list of this length: negative ones count from the end. -/
def cutAt (length : Nat) (bound : Int) : Nat :=
  if bound < 0 then (length + bound).toNat else Nat.min bound.toNat length

def sliced (start stop : Option Int) (xs : List α) : List α :=
  (xs.take ((stop.map (cutAt xs.length)).getD xs.length)).drop
    ((start.map (cutAt xs.length)).getD 0)

def itemAt? (xs : List α) (place : Int) : Option α :=
  if 0 ≤ place then xs[place.toNat]?
  else if 0 ≤ xs.length + place then xs[(xs.length + place).toNat]?
  else none

/-- A stable sort, also backwards: items that are equal in the order stay as they stood. -/
def sortedBy (atMost : α → α → Bool) (backwards : Bool) (xs : List α) : List α :=
  xs.mergeSort (if backwards then fun x y => atMost y x else atMost)

def firstLeast? (atMost : α → α → Bool) : List α → Option α
  | [] => none
  | x :: xs => some (xs.foldl (fun best y => if atMost best y then best else y) x)

end

/-- What a strip takes away: the characters it is given, or blanks. -/
def isStripped : Option (List Char) → Char → Bool
  | none, c => Text.isBlank c
  | some chars, c => chars.contains c

def stripAt : Ends → (Char → Bool) → List Char → List Char
  | .start => Text.trimStartBy
  | .finish => Text.trimEndBy
  | .both => Text.trimBy

def removePrefix (affix chars : List Char) : List Char :=
  if affix.isPrefixOf chars then chars.drop affix.length else chars

def removeSuffix (affix chars : List Char) : List Char :=
  if affix.isSuffixOf chars then chars.take (chars.length - affix.length) else chars

variable {Item : Type}

namespace Value

/-- What a method of a text gives; nothing if it does not take the arguments. -/
def ofTextMethod? (chars : List Char) :
    TextMethod → List (Option String × Value Item) → Option (Value Item)
  | .strip ends, [] => some (text (stripAt ends (isStripped none) chars))
  | .strip ends, [(none, text unwanted)] =>
    some (text (stripAt ends (isStripped (some unwanted)) chars))
  | .startsWith, [(none, text affix)] => some (truth (affix.isPrefixOf chars))
  | .endsWith, [(none, text affix)] => some (truth (affix.isSuffixOf chars))
  | .removePrefix, [(none, text affix)] => some (text (Evaluation.removePrefix affix chars))
  | .removeSuffix, [(none, text affix)] => some (text (Evaluation.removeSuffix affix chars))
  | _, _ => none

def method? : Value Item → String → Option (Value Item)
  | text chars, name => (TextMethod.ofName? name).map (textMethod chars)
  | mapping entries, name => (View.ofName? name).map (viewMethod entries)
  | function _, name => (View.ofName? name).map fun _ => unboundMethod
  | _, _ => none

def length? : Value Item → Option Nat
  | text chars => some chars.length
  | container _ items => some items.length
  | mapping entries => some entries.length
  | _ => none

/-- What a name stands for that is resolved to a constant or a function of the language. -/
def ofFullname? (fullname : String) : Option (Value Item) :=
  if fullname = "builtins.True" then some (truth true)
  else if fullname = "builtins.False" then some (truth false)
  else (Builtin.ofFullname? fullname).map function

/-- Whether a function takes arguments as they are passed: by position, and all but the first by
name if it sorts. Nothing is said of functions that take them in several ways. -/
def takes : Value Item → List (CallArg Node) → Bool
  | function .sorted, first :: rest => first.kind == .pos && rest.all (·.kind == .named)
  | function .len, args | function .list, args | function .set, args | function .frozenset, args
  | textMethod _ _, args | viewMethod _ _, args => args.all (·.kind == .pos)
  | _, _ => true

end Value

/-- Sets are compared with sets by what they hold, and so are lists with lists and tuples with
tuples; nothing is said of other containers. -/
def ContainerKind.comparesWith : ContainerKind → ContainerKind → Option Bool
  | .other, _ => none
  | _, .other => none
  | .list, l => some (l == .list)
  | .tuple, l => some (l == .tuple)
  | _, l => some (l == .set || l == .frozenset)

/-- Of two lists, one of which is empty, whether they are equal. -/
def emptiesEqual? {α β : Type} (xs : List α) (ys : List β) : Option Bool :=
  if xs.isEmpty || ys.isEmpty then some (xs.isEmpty && ys.isEmpty) else none

/-- Whether two values are equal, as far as their kinds and lengths tell. -/
def Value.equal? : Value Item → Value Item → Option Bool
  | number m, number n => some (m == n)
  | container k xs, container l ys =>
    (k.comparesWith l).bind fun related => if related then emptiesEqual? xs ys else some false
  | mapping xs, mapping ys => emptiesEqual? xs ys
  | function _, container _ _ => some false
  | function _, mapping _ => some false
  | _, _ => none

def Value.compared? : CompareOp → Value Item → Value Item → Option Bool
  | .eq, v, w => v.equal? w
  | .ne, v, w => (v.equal? w).map (!·)
  | .lt, number m, number n => some (m < n)
  | .le, number m, number n => some (m ≤ n)
  | .gt, number m, number n => some (m > n)
  | .ge, number m, number n => some (m ≥ n)
  | _, _, _ => none

/-- What is left open by the meaning of expressions. -/
structure Valuation (Item : Type) where
  /-- The value of what has no fixed meaning; none if it raises an error. -/
  value : Node → Option (Value Item)
  /-- The value that an item is. -/
  ofItem : Item → Value Item
  /-- Whether an object counts as true. -/
  objectHolds : Item → Bool
  /-- Whether an item is at most another, in their own order or in that of a key. -/
  atMost : Option (Value Item) → Item → Item → Bool
  /-- The character of a text as an item of a list. -/
  letter : Char → Item

namespace Valuation

variable (V : Valuation Item)

/-- Whether a value counts as true. What has a length does if it is not empty. -/
def holds : Value Item → Bool
  | .object x => V.objectHolds x
  | .truth b => b
  | .number n => n != 0
  | .text chars => !chars.isEmpty
  | .container _ items => !items.isEmpty
  | .mapping entries => !entries.isEmpty
  | _ => true

def items? : Value Item → Option (List Item)
  | .text chars => some (chars.map V.letter)
  | .container _ items => some items
  | .mapping entries => some (entries.map (·.1))
  | .iterator items => some items
  | _ => none

/-- Takes an option of a sort over: the key, or whether the sort goes backwards. -/
def withSortOption? (state : Option (Value Item) × Bool) :
    Option String × Value Item → Option (Option (Value Item) × Bool)
  | (some "key", v) => some (some v, state.2)
  | (some "reverse", v) => some (state.1, V.holds v)
  | _ => none

def sortOptions? (options : List (Option String × Value Item)) :
    Option (Option (Value Item) × Bool) :=
  options.foldlM V.withSortOption? (none, false)

def keyOption? : List (Option String × Value Item) → Option (Option (Value Item))
  | [] => some none
  | [(some "key", v)] => some (some v)
  | _ => none

def apply (n : Node) : Value Item → List (Option String × Value Item) → Option (Value Item)
  | .textMethod chars m, args => Value.ofTextMethod? chars m args
  | .unboundMethod, [] => none
  | .viewMethod entries .keys, [] => some (.container .other (entries.map (·.1)))
  | .viewMethod entries .values, [] => some (.container .other (entries.map (·.2)))
  | .function .len, [(none, v)] => v.length?.map fun (k : Nat) => .number k
  | .function .list, [(none, v)] => (V.items? v).map (.container .list)
  | .function .set, [] => some (.container .set [])
  | .function .frozenset, [] => some (.container .frozenset [])
  | .function .sorted, (none, v) :: options =>
    match V.items? v, V.sortOptions? options with
    | some xs, some (key, backwards) =>
      some (.container .list (sortedBy (V.atMost key) backwards xs))
    | _, _ => V.value n
  | .function .min, (none, v) :: options =>
    match V.items? v, keyOption? options with
    | some xs, some key => (firstLeast? (V.atMost key) xs).map V.ofItem
    | _, _ => V.value n
  | .function .max, (none, v) :: options =>
    match V.items? v, keyOption? options with
    | some xs, some key => (firstLeast? (fun x y => V.atMost key y x) xs).map V.ofItem
    | _, _ => V.value n
  | _, _ => V.value n

section

variable {V} {v : Value Item} {xs : List Item} {options : List (Option String × Value Item)}
  {key : Option (Value Item)} (hv : V.items? v = some xs)
include hv

theorem apply_sorted {backwards : Bool} (h : V.sortOptions? options = some (key, backwards))
    (n : Node) : V.apply n (.function .sorted) ((none, v) :: options) =
      some (.container .list (sortedBy (V.atMost key) backwards xs)) := by
  simp only [apply, hv, h]

theorem apply_min (h : keyOption? options = some key) (n : Node) :
    V.apply n (.function .min) ((none, v) :: options) =
      (firstLeast? (V.atMost key) xs).map V.ofItem := by
  simp only [apply, hv, h]

theorem apply_max (h : keyOption? options = some key) (n : Node) :
    V.apply n (.function .max) ((none, v) :: options) =
      (firstLeast? (fun x y => V.atMost key y x) xs).map V.ofItem := by
  simp only [apply, hv, h]

end

def subscript (n : Node) : Value Item → Value Item → Option (Value Item)
  | .text chars, .slice start stop => some (.text (sliced start stop chars))
  | .text chars, .number place => (itemAt? chars place).map fun c => .text [c]
  | .container .list items, .number place => (itemAt? items place).map V.ofItem
  | .container .list items, .slice start stop => some (.container .list (sliced start stop items))
  | _, _ => V.value n

def unary (n : Node) : UnaryOp → Value Item → Option (Value Item)
  | .not, v => some (.truth (!V.holds v))
  | .neg, .number k => some (.number (-k))
  | _, _ => V.value n

def compare (n : Node) : List CompareOp → List (Value Item) → Option (Value Item)
  | [op], [v, w] =>
    match v.compared? op w with
    | some b => some (.truth b)
    | none => V.value n
  | _, _ => V.value n

theorem compare_of_compared? {op : CompareOp} {v w : Value Item} {b : Bool}
    (h : v.compared? op w = some b) (n : Node) : V.compare n [op] [v, w] = some (.truth b) := by
  simp only [compare, h]

end Valuation

/-- An argument that is passed by position or by name; others are spread. -/
def isSingle (a : CallArg Node) : Bool := a.kind == .pos || (a.kind == .named && a.name.isSome)

namespace Valuation

variable (V : Valuation Item)

mutual

def eval : Node → Option (Value Item)
  | ⟨_, .str s⟩ => some (.text s.toList)
  | ⟨_, .int k⟩ => some (.number k)
  | n@⟨_, .name ref _⟩ => (Value.ofFullname? ref.fullname).or (V.value n)
  | n@⟨_, .member base ref⟩ =>
    match Builtin.ofFullname? ref.fullname with
    | some f => some (.function f)
    | none => (eval base).bind fun v => (v.method? ref.name).or (V.value n)
  | n@⟨_, .call callee args _⟩ =>
    if args.all isSingle then
      (eval callee).bind fun f => (evalArgs args).bind fun vs => V.apply n f vs
    else V.value n
  | n@⟨_, .index base key _ _⟩ =>
    (eval base).bind fun v => (eval key).bind fun k => V.subscript n v k
  | n@⟨_, .unary op operand _⟩ => (eval operand).bind (V.unary n op)
  | n@⟨_, .binary op left right _ _⟩ =>
    match op with
    | .and => (eval left).bind fun v => if V.holds v then eval right else some v
    | .or => (eval left).bind fun v => if V.holds v then some v else eval right
    | _ => V.value n
  | n@⟨_, .comparison operators operands⟩ => (evalEach operands).bind (V.compare n operators)
  | ⟨_, .conditional condition ifTrue ifFalse⟩ =>
    (eval condition).bind fun v => if V.holds v then eval ifTrue else eval ifFalse
  | n@⟨_, .slice start stop step⟩ =>
    match step with
    | none => (evalBound start).bind fun a => (evalBound stop).map fun b => .slice a b
    | some _ => V.value n
  | n@⟨_, .list items⟩ => if items.isEmpty then some (.container .list []) else V.value n
  | n@⟨_, .tuple items⟩ => if items.isEmpty then some (.container .tuple []) else V.value n
  | n@⟨_, .dict items⟩ => if items.isEmpty then some (.mapping []) else V.value n
  | n => V.value n

def evalArgs : List (CallArg Node) → Option (List (Option String × Value Item))
  | [] => some []
  | ⟨value, kind, name⟩ :: rest =>
    (eval value).bind fun v => (evalArgs rest).map fun vs =>
      (if kind = .pos then none else name, v) :: vs

def evalEach : List Node → Option (List (Value Item))
  | [] => some []
  | n :: rest => (eval n).bind fun v => (evalEach rest).map (v :: ·)

def evalBound : Option Node → Option (Option Int)
  | none => some none
  | some n => (eval n).bind fun v =>
    match v with
    | .number k => some (some k)
    | _ => none

end

section

variable (i : Info)

@[simp] theorem eval_str (s : String) : V.eval ⟨i, .str s⟩ = some (.text s.toList) := rfl

@[simp] theorem eval_int (k : Int) : V.eval ⟨i, .int k⟩ = some (.number k) := rfl

theorem eval_conditional (condition ifTrue ifFalse : Node) :
    V.eval ⟨i, .conditional condition ifTrue ifFalse⟩ =
      (V.eval condition).bind fun v => if V.holds v then V.eval ifTrue else V.eval ifFalse := rfl

theorem eval_comparison (op : CompareOp) (l r : Node) :
    V.eval ⟨i, .comparison [op] [l, r]⟩ = (V.eval l).bind fun v => (V.eval r).bind fun w =>
      V.compare ⟨i, .comparison [op] [l, r]⟩ [op] [v, w] := by
  change ((V.eval l).bind fun v => ((V.eval r).bind _).map _).bind _ = _
  cases V.eval l <;> cases V.eval r <;> rfl

theorem eval_index (base key : Node) (method : Option Ty) (analyzed : Option Node) :
    V.eval ⟨i, .index base key method analyzed⟩ =
      (V.eval base).bind fun v => (V.eval key).bind fun k =>
        V.subscript ⟨i, .index base key method analyzed⟩ v k := rfl

theorem eval_slice (start stop : Option Node) :
    V.eval ⟨i, .slice start stop none⟩ =
      (V.evalBound start).bind fun a => (V.evalBound stop).map fun b => .slice a b := rfl

theorem evalBound_some {n : Node} {k : Int} (h : V.eval n = some (.number k)) :
    V.evalBound (some n) = some (some k) := by
  change (V.eval n).bind _ = _
  rw [h]
  rfl

theorem eval_member {base : Node} {ref : Ref} (free : Builtin.ofFullname? ref.fullname = none) :
    V.eval ⟨i, .member base ref⟩ =
      (V.eval base).bind fun v => (v.method? ref.name).or (V.value ⟨i, .member base ref⟩) := by
  have shown : V.eval ⟨i, .member base ref⟩ =
      match Builtin.ofFullname? ref.fullname with
      | some f => some (.function f)
      | none => (V.eval base).bind fun v =>
        (v.method? ref.name).or (V.value ⟨i, .member base ref⟩) := rfl
  rw [shown, free]

theorem eval_call {callee : Node} {args : List (CallArg Node)} {f : Value Item}
    {vs : List (Option String × Value Item)} (single : args.all isSingle)
    (hf : V.eval callee = some f) (hvs : V.evalArgs args = some vs) (analyzed : Option Node) :
    V.eval ⟨i, .call callee args analyzed⟩ = V.apply ⟨i, .call callee args analyzed⟩ f vs := by
  have shown : V.eval ⟨i, .call callee args analyzed⟩ =
      if args.all isSingle then
        (V.eval callee).bind fun f => (V.evalArgs args).bind fun vs =>
          V.apply ⟨i, .call callee args analyzed⟩ f vs
      else V.value ⟨i, .call callee args analyzed⟩ := rfl
  rw [shown, if_pos single, hf, hvs]
  rfl

theorem evalArgs_cons {value : Node} {v : Value Item} {rest : List (CallArg Node)}
    {vs : List (Option String × Value Item)} (hv : V.eval value = some v)
    (hvs : V.evalArgs rest = some vs) (kind : ArgKind) (name : Option String) :
    V.evalArgs (⟨value, kind, name⟩ :: rest) =
      some ((if kind = .pos then none else name, v) :: vs) := by
  change (V.eval value).bind (fun v => (V.evalArgs rest).map fun vs => _ :: vs) = _
  rw [hv, hvs]
  rfl

theorem eval_call_nil {callee : Node} {f : Value Item} (hf : V.eval callee = some f)
    (analyzed : Option Node) :
    V.eval ⟨i, .call callee [] analyzed⟩ = V.apply ⟨i, .call callee [] analyzed⟩ f [] :=
  V.eval_call i rfl hf rfl analyzed

theorem eval_call_single {callee arg : Node} {f v : Value Item} (hf : V.eval callee = some f)
    (hv : V.eval arg = some v) (name : Option String) (analyzed : Option Node) :
    V.eval ⟨i, .call callee [⟨arg, .pos, name⟩] analyzed⟩ =
      V.apply ⟨i, .call callee [⟨arg, .pos, name⟩] analyzed⟩ f [(none, v)] :=
  V.eval_call i rfl hf (V.evalArgs_cons hv rfl .pos name) analyzed

/-- A call that has a value has got an argument with a value. -/
theorem exists_of_eval_call_single {i : Info} {callee arg : Node} {f v : Value Item}
    (hf : V.eval callee = some f) {name : Option String} {analyzed : Option Node}
    (h : V.eval ⟨i, .call callee [⟨arg, .pos, name⟩] analyzed⟩ = some v) :
    ∃ w, V.eval arg = some w ∧
      V.apply ⟨i, .call callee [⟨arg, .pos, name⟩] analyzed⟩ f [(none, w)] = some v := by
  cases hw : V.eval arg with
  | none =>
    change (V.eval callee).bind (fun f => ((V.eval arg).bind _).bind _) = _ at h
    rw [hf, hw] at h
    cases h
  | some w => exact ⟨w, rfl, V.eval_call_single i hf hw name analyzed ▸ h⟩

end

theorem eval_of_isNameOf {fullname : String} {v : Value Item} {m : Node}
    (known : Value.ofFullname? fullname = some v) (h : m.isNameOf fullname) :
    V.eval m = some v := by
  obtain ⟨i, shape⟩ := m
  cases shape with
  | name ref binding =>
    change (Value.ofFullname? ref.fullname).or _ = _
    rw [eq_of_beq h, known]
    rfl
  | _ => cases h

/-- A name that is resolved to a function of the language means that function. -/
theorem eval_of_refersTo {f : Builtin} {n : Node} (h : n.refersTo f.fullname) :
    V.eval n = some (.function f) := by
  have known : Builtin.ofFullname? f.fullname = some f := by cases f <;> decide
  have named : Value.ofFullname? f.fullname = some (.function f : Value Item) := by
    cases f <;> rfl
  obtain ⟨i, shape⟩ := n
  cases shape with
  | name ref binding =>
    have same : ref.fullname = f.fullname := by simpa [Node.refersTo, Node.ref?] using h
    change (Value.ofFullname? ref.fullname).or _ = _
    rw [same, named]
    rfl
  | member base ref =>
    have same : ref.fullname = f.fullname := by simpa [Node.refersTo, Node.ref?] using h
    have shown : V.eval ⟨i, .member base ref⟩ =
        match Builtin.ofFullname? ref.fullname with
        | some f => some (.function f)
        | none => (V.eval base).bind fun v =>
          (v.method? ref.name).or (V.value ⟨i, .member base ref⟩) := rfl
    rw [shown, same, known]
  | _ => cases h

def isMethodName (name : String) : Bool :=
  (TextMethod.ofName? name).isSome || (View.ofName? name).isSome

/-- Whether a node calls what has a fixed meaning as it is declared, and no method is resolved to a
function. -/
def plainAt : Node → Bool
  | ⟨_, .call callee args _⟩ => ((V.eval callee).map (·.takes args)).getD true
  | ⟨_, .member _ ref⟩ => !isMethodName ref.name || (Builtin.ofFullname? ref.fullname).isNone
  | _ => true

/-- No call in the node is written in a way that the function does not take. -/
def Plain (n : Node) : Prop := ∀ m : Node, m.Within n → V.plainAt m

/-- What is taken for the same expression within the node has the same value. -/
def Uniform (n : Node) : Prop :=
  ∀ a b : Node, a.Within n → b.Within n → a.equivalent b → V.eval a = V.eval b

variable {V} {n : Node}

namespace Plain

theorem within (plain : V.Plain n) {m : Node} (within : m.Within n) : V.Plain m :=
  fun _ inside => plain _ (Node.within_trans inside within)

theorem child (plain : V.Plain n) {c : Node} (hc : c ∈ n.children .calleeFirst) : V.Plain c :=
  plain.within (Node.within_of_mem hc)

variable {i : Info} {m : Node} {args : List (CallArg Node)} {analyzed : Option Node} {ref : Ref}

theorem callee (plain : V.Plain ⟨i, .call m args analyzed⟩) : V.Plain m :=
  plain.child List.mem_cons_self

theorem arg (plain : V.Plain ⟨i, .call m args analyzed⟩) {a : CallArg Node} (ha : a ∈ args) :
    V.Plain a.value :=
  plain.child (List.mem_cons_of_mem _ (List.mem_append_left _ (List.mem_map_of_mem ha)))

theorem base (plain : V.Plain ⟨i, .member m ref⟩) : V.Plain m :=
  plain.child List.mem_cons_self

theorem takes (plain : V.Plain ⟨i, .call m args analyzed⟩) {f : Value Item}
    (hf : V.eval m = some f) : f.takes args := by
  simpa [plainAt, hf] using plain _ (.refl _)

theorem free (plain : V.Plain ⟨i, .member m ref⟩) (method : isMethodName ref.name) :
    Builtin.ofFullname? ref.fullname = none := by
  simpa [plainAt, method] using plain _ (.refl _)

theorem eval_method (plain : V.Plain ⟨i, .member m ref⟩) {chars : List Char} {f : TextMethod}
    (hm : V.eval m = some (.text chars)) (known : TextMethod.ofName? ref.name = some f) :
    V.eval ⟨i, .member m ref⟩ = some (.textMethod chars f) := by
  rw [V.eval_member i (plain.free (by simp [isMethodName, known])), hm]
  simp [Value.method?, known]

theorem eval_view (plain : V.Plain ⟨i, .member m ref⟩) {entries : List (Item × Item)} {v : View}
    (hm : V.eval m = some (.mapping entries)) (known : View.ofName? ref.name = some v) :
    V.eval ⟨i, .member m ref⟩ = some (.viewMethod entries v) := by
  rw [V.eval_member i (plain.free (by simp [isMethodName, known])), hm]
  simp [Value.method?, known]

end Plain

end Valuation

/-- Whether a property holds of a node and of all nodes within it, which go down `k` levels at
most. -/
def allDownTo (p : Node → Bool) : Nat → Node → Bool
  | 0, _ => false
  | k + 1, n => p n && (n.children .calleeFirst).all (allDownTo p k)

theorem of_allDownTo {p : Node → Bool} {k : Nat} {n m : Node} (h : allDownTo p k n)
    (within : m.Within n) : p m := by
  induction within generalizing k with
  | refl =>
    cases k with
    | zero => cases h
    | succ k => exact (Bool.and_eq_true_iff.1 h).1
  | deeper child _ ih =>
    cases k with
    | zero => cases h
    | succ k => exact ih (List.all_eq_true.1 (Bool.and_eq_true_iff.1 h).2 _ child)

namespace Valuation

theorem plain_of_allDownTo {V : Valuation Item} {n : Node} (k : Nat)
    (h : allDownTo V.plainAt k n) : V.Plain n :=
  fun _ within => of_allDownTo h within

/-- Whether two nodes, if they are taken for the same expression, have the same value. -/
def agreeOn [DecidableEq Item] (V : Valuation Item) (a b : Node) : Bool :=
  !a.equivalent b || V.eval a == V.eval b

theorem uniform_of_allDownTo [DecidableEq Item] {V : Valuation Item} {n : Node} (k : Nat)
    (h : allDownTo (fun a => allDownTo (V.agreeOn a) k n) k n) : V.Uniform n := by
  intro a b inA inB same
  have others := of_allDownTo (p := fun a => allDownTo (V.agreeOn a) k n) h inA
  simpa [agreeOn, same] using of_allDownTo others inB

/-- Names stand for what a table says; items are whole numbers in their own order. -/
def ofTable (table : List (String × Value Int)) : Valuation Int where
  value n := n.ref?.bind fun ref => table.lookup ref.name
  ofItem := .number
  objectHolds _ := true
  atMost _ x y := decide (x ≤ y)
  letter c := c.toNat

end Valuation

end Evaluation

end IdiomLint
