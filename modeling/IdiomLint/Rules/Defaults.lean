import IdiomLint.Check.Basic
import IdiomLint.Syntax.Equivalence

/-! Arguments that equal the default of their parameter. -/
namespace IdiomLint.Rules.Defaults

open Finding

def noneNode : Node :=
  ⟨default, .name ⟨"None", "builtins.None", none, false⟩ none⟩

def intNode (n : Int) : Node := ⟨default, .int n⟩

def emptyTextNode : Node := ⟨default, .str ""⟩

/-- The defaults of the parameters in order; none leaves a parameter as it is. -/
def knownDefaults : List (String × List (Option Node)) :=
  [("builtins.dict.fromkeys", [none, some noneNode]),
    ("builtins.dict.get", [none, some noneNode]),
    ("builtins.dict.setdefault", [none, some noneNode]),
    ("builtins.round", [none, some (intNode 0)]),
    ("builtins.input", [some emptyTextNode]),
    ("builtins.int", [none, some (intNode 10)])]

/-- The class that a name stands for or has a value of. -/
def classBehind? (env : Env) : Node → Option ClassInfo
  | ⟨_, .name _ (some binding)⟩ =>
    match env.table.get binding.symbol with
    | .cls info => some info
    | .value (some (.inst cls _)) => env.table.classInfo? cls.id
    | _ => none
  | _ => none

/-- The full name of what a call calls, as far as it shows. -/
def calledName (env : Env) : Node → String
  | ⟨_, .name ref _⟩ => ref.fullname
  | ⟨_, .member base ref⟩ =>
    match classBehind? env base with
    | some cls => cls.ref.fullname ++ "." ++ ref.name
    | none => ""
  | _ => ""

/-- A function that a call may bind its arguments to. -/
structure Target where
  symbol : SymbolId
  variant : Option Nat
  params : List (Param Node)

/-- A parameter and its place in the declaration. -/
abbrev Slot := Param Node × Nat

/-- The parameters that a call fills: without the receiver if it is called as a member. -/
def Target.slots (t : Target) (callee : Node) : List Slot :=
  let slots := t.params.zipIdx
  let receiver := (t.params.head?.bind Param.callName).getD ""
  if callee.isMember && (receiver == "self" || receiver == "cls") then slots.drop 1 else slots

def Target.key (t : Target) (slot : Slot) : ParamKey := ⟨t.symbol, t.variant, slot.2⟩

/-- Remembers the defaults that are known for what a call calls. -/
def Target.learn (t : Target) (called : String) (slots : List Slot) (notes : Notes) : Notes :=
  let learned := (slots.zip ((knownDefaults.lookup called).getD [])).filterMap fun (slot, d) =>
    d.map fun value => (t.key slot, value)
  { notes with defaults := learned ++ notes.defaults }

def Target.default? (t : Target) (notes : Notes) (slot : Slot) : Option Node :=
  (notes.defaults.lookup (t.key slot)).or slot.1.initial

/-- The slot that a name fills; of several with that name the last. -/
def slotNamed? (slots : List Slot) (name : Option String) : Option Slot :=
  slots.reverse.find? fun s => s.1.callName == name

/-- What remains of the arguments where a parameter gathers the rest from place `i` on: the named
ones behind it. -/
def behindGathering (args : List (CallArg Node)) (i : Nat) : List (CallArg Node) :=
  (args.drop i).filter (·.kind == .named)

def suppliedArgs (slots : List Slot) (args : List (CallArg Node)) : List (CallArg Node) :=
  slots.zipIdx.foldl (fun args (slot, i) =>
    if slot.1.kind == .star then behindGathering args i else args) args

def message : String := "Don't pass an argument if it is the same as the default value"

/-- Goes through arguments from place `i` on. `found` holds the arguments that can be left out as
far as no later one needs its place. -/
def redundantArgs (default? : Slot → Option Node) (slots : List Slot) :
    Nat → List Finding → List (CallArg Node) → List Finding
  | _, found, [] => found
  | i, found, ⟨value, kind, name⟩ :: rest =>
    match slots[i]? with
    | none => found
    | some slot =>
      let isDefault := fun s => (default? s).any value.equivalent
      match kind with
      | .named =>
        match slotNamed? slots name with
        | none => redundantArgs default? slots (i + 1) found rest
        | some s =>
          redundantArgs default? slots (i + 1)
            (if isDefault s then found ++ [ofNode value message] else found) rest
      | .pos =>
        redundantArgs default? slots (i + 1)
          (if isDefault slot then found ++ [ofNode value message] else []) rest
      | _ => []

/-- The arguments of a call that equal defaults of one function. -/
def Target.judge (t : Target) (env : Env) (callee : Node) (args : List (CallArg Node))
    (notes : Notes) : List Finding × Notes :=
  let slots := t.slots callee
  let notes := t.learn (calledName env callee) slots notes
  (redundantArgs (t.default? notes) slots 0 [] (suppliedArgs slots args), notes)

/-- Tries the decorated overloads one after the other up to the first with findings. -/
def judgeOverloads (env : Env) (callee : Node) (args : List (CallArg Node)) (symbol : SymbolId) :
    Nat → List Overload → Notes → List Finding × Notes
  | _, [], notes => ([], notes)
  | i, item :: rest, notes =>
    if item.decorated then
      let (found, notes) := Target.judge ⟨symbol, some i, item.params⟩ env callee args notes
      if found.isEmpty then judgeOverloads env callee args symbol (i + 1) rest notes
      else (found, notes)
    else judgeOverloads env callee args symbol (i + 1) rest notes

/-- The methods that make an object. -/
def makers : List String := ["__new__", "__init__"]

/-- What a symbol is called with. A class is followed to its makers; an entry for one that leads
nowhere is a fault. -/
def judgeSymbol (env : Env) (callee : Node) (args : List (CallArg Node)) :
    Nat → SymbolId → Notes → Except Fault (List Finding × Notes)
  | 0, _, notes => .ok ([], notes)
  | fuel + 1, symbol, notes =>
    match env.table.get symbol with
    | .function _ params => .ok (Target.judge ⟨symbol, none, params⟩ env callee args notes)
    | .decorated params => .ok (Target.judge ⟨symbol, none, params⟩ env callee args notes)
    | .overloaded items implementation =>
      let (found, notes) := judgeOverloads env callee args symbol 0 items notes
      match implementation with
      | none => .ok (found, notes)
      | some f =>
        let (more, notes) := Target.judge ⟨symbol, none, f.params⟩ env callee args notes
        .ok (found ++ more, notes)
    | .cls info =>
      makers.foldlM (fun (found, notes) maker =>
        match info.members.lookup maker with
        | none => .ok (found, notes)
        | some none => .error .broken
        | some (some id) => do
          let (more, notes) ← judgeSymbol env callee args fuel id notes
          return (found ++ more, notes)) ([], notes)
    | _ => .ok ([], notes)

/-- The symbol that a call calls. -/
def calledSymbol? (env : Env) : Node → Option SymbolId
  | ⟨_, .name _ binding⟩ => binding.map (·.symbol)
  | ⟨_, .member ⟨_, .call base _ _⟩ ref⟩ =>
    (classBehind? env base).bind fun cls => (cls.members.lookup ref.name).join
  | ⟨_, .member base ref⟩ =>
    (classBehind? env base).bind fun cls => (cls.members.lookup ref.name).join
  | _ => none

def implicitDefault (env : Env) (notes : Notes) : Node → Except Fault (List Finding × Notes)
  | ⟨_, .call callee args _⟩ =>
    match calledSymbol? env callee with
    | some symbol => judgeSymbol env callee args (env.table.symbols.size + 1) symbol notes
    | none => .ok ([], notes)
  | _ => .ok ([], notes)

end IdiomLint.Rules.Defaults
