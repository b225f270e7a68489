import IdiomLint.Check.Basic
import IdiomLint.Syntax.Walk
import IdiomLint.Syntax.SourceText

/-! Comprehensions and generators, and loops that could be one. -/
namespace IdiomLint.Rules.Comprehensions

open Finding

/-- Containers that a comprehension can be turned into, and how that is shown. -/
def collectors : List (String × String) :=
  [("builtins.list", "[...]"), ("builtins.set", "\x7b...\x7d"),
    ("builtins.frozenset", "frozenset(...)"), ("builtins.tuple", "tuple(...)")]

/-- How a comprehension inside a collector is shown, unless the collector needs it. -/
def superfluous? (collector : String) : Node → Option String
  | ⟨_, .generator _ _⟩ =>
    if collector == "list" || collector == "set" then some "..." else none
  | ⟨_, .listComp _⟩ => some "[...]"
  | ⟨_, .setComp _⟩ =>
    if collector == "frozenset" || collector == "set" then some "\x7b...\x7d" else none
  | _ => none

def collected (_ : Env) : Node → List Finding
  | n@⟨_, .call ⟨_, .name f _⟩ [⟨arg, _, _⟩] _⟩ =>
    match collectors.lookup f.fullname, superfluous? f.name arg with
    | some new, some old => [replace n (f.name ++ "(" ++ old ++ ")") new]
    | _, _ => []
  | _ => []

/-- The list that a statement appends to. -/
def appendTarget? : Node → Option Ref
  | ⟨_, .expression ⟨_, .call ⟨_, .member ⟨_, .name ref _⟩ method⟩ _ _⟩⟩ =>
    if method.name == "append" then some ref else none
  | _ => none

/-- A new empty list and its name. -/
def emptyList? : Node → Option Node
  | ⟨_, .assignment [target@⟨_, .name _ _⟩] ⟨_, .list []⟩⟩ => some target
  | _ => none

/-- The only statement of a loop, and whether it is an `if` with one statement, which is given
too unless its condition binds a name. -/
structure LoopBody where
  stmt : Node
  guarded : Option Node

def isWalrus : Node → Bool
  | ⟨_, .walrus _ _⟩ => true
  | _ => false

def loopBody? : Node → Option LoopBody
  | ⟨_, .forLoop _ _ ⟨_, .block [stmt]⟩ _ _⟩ =>
    match stmt with
    | ⟨_, .ifElse [(condition, ⟨_, .block [inner]⟩)] none⟩ =>
      some ⟨stmt, if isWalrus condition then none else some inner⟩
    | _ => some ⟨stmt, none⟩
  | _ => none

/-- Whether a statement appends to the list of the given name. -/
def appendsTo (fullname : String) (stmt : Node) : Bool :=
  match appendTarget? stmt with
  | some ref => ref.fullname == fullname
  | none => false

/-- The statement of a loop that appends to the list of the given name. -/
def fillingStmt? (fullname : String) (body : LoopBody) : Option Node :=
  match body.guarded.filter (appendsTo fullname) with
  | some inner => some inner
  | none => if appendsTo fullname body.stmt then some body.stmt else none

/-- Finds loops that fill the list made right before them. What a loop's only statement is counts
as the statement before the next one; `made` is the list that was made there. -/
def filledLists : Option Node → List Node → Except Fault (List Finding)
  | _, [] => .ok []
  | made, stmt :: rest =>
    match made with
    | none => filledLists (emptyList? stmt) rest
    | some target => do
      let fullname := (target.ref?.map (·.fullname)).getD ""
      match loopBody? stmt with
      | none => filledLists (emptyList? stmt) rest
      | some body =>
        match fillingStmt? fullname body with
        | some filling => do
          let reads ← filling.readCount fullname
          let more ← filledLists (emptyList? filling) rest
          return if reads == 1 then ofNode target "Consider using list comprehension" :: more
            else more
        | none => filledLists (emptyList? body.stmt) rest

def listLoop (_ : Env) (n : Node) : Except Fault (List Finding) :=
  filledLists none (n.statementList?.getD [])

/-- Whether a call passes exactly the names of a tuple, in order and by position. -/
def passesNames (args : List (CallArg Node)) (names : List Node) : Bool :=
  !names.isEmpty && names.length == args.length && args.all (·.kind == .pos)
    && (args.zip names).all fun (a, b) =>
      match a.value, b with
      | ⟨_, .name r _⟩, ⟨_, .name s _⟩ => r.name == s.name
      | _, _ => false

def isSpreadCall : Node → Bool
  | ⟨_, .generator ⟨_, .call _ args _⟩ [⟨⟨_, .tuple names⟩, _, _, _⟩]⟩ => passesNames args names
  | _ => false

/-- A report about a generator, with brackets around what is shown. -/
def starmapOf (notes : Notes) (generator : Node) (oldOpen oldClose newOpen newClose : String) :
    List Finding × Notes :=
  if isSpreadCall generator then
    ([replace generator (oldOpen ++ "f(...) for ... in x" ++ oldClose)
      (newOpen ++ "starmap(f, x)" ++ newClose)],
      { notes with seen := generator.id :: notes.seen })
  else ([], notes)

def starmap (_ : Env) (notes : Notes) (n : Node) : Except Fault (List Finding × Notes) :=
  if notes.seen.contains n.id then .ok ([], notes)
  else
    match n with
    | ⟨_, .generator _ _⟩ => .ok (starmapOf notes n "" "" "" "")
    | ⟨_, .listComp g⟩ => .ok (starmapOf notes g "[" "]" "list(" ")")
    | ⟨_, .setComp g⟩ => .ok (starmapOf notes g "\x7b" "\x7d" "set(" ")")
    | _ => .ok ([], notes)

def refFullname? (n : Node) : Option String := n.ref?.map (·.fullname)

/-- A generator of the items of the items of something. -/
def isFlattening : Node → Bool
  | ⟨_, .generator element [⟨outer, _, [], false⟩, ⟨inner, source, [], false⟩]⟩ =>
    match refFullname? element, refFullname? outer, refFullname? inner, refFullname? source with
    | some e, some o, some i, some s => e == i && s == o
    | _, _, _, _ => false
  | _ => false

/-- Functions that join two lists. -/
def isConcatenation (n : Node) : Bool :=
  n.refersTo "_operator.add" || n.refersTo "_operator.concat"

def isEmptyListLiteral : Node → Bool
  | ⟨_, .list []⟩ => true
  | _ => false

/-- A call that joins the items of something one after the other: what to call instead. -/
def joiningCall? (callee : Node) (args : List (CallArg Node)) : Option String :=
  if callee.refersTo "builtins.sum" then
    match args with
    | [⟨x, _, _⟩, ⟨start, _, _⟩] =>
      if isEmptyListLiteral start then some ("chain.from_iterable(" ++ x.sourceText ++ ")")
      else none
    | _ => none
  else if callee.refersTo "functools.reduce" then
    match args with
    | [⟨f, _, _⟩, ⟨x, _, _⟩] =>
      if isConcatenation f then some ("chain.from_iterable(" ++ x.sourceText ++ ")") else none
    | [⟨f, _, _⟩, ⟨x, _, _⟩, ⟨start, _, _⟩] =>
      if isEmptyListLiteral start && isConcatenation f then
        some ("chain.from_iterable(" ++ x.sourceText ++ ")")
      else none
    | _ => none
  else if callee.refersTo "itertools.chain" then
    match args with
    | [⟨x, .star, _⟩] => some (callee.sourceText ++ ".from_iterable(" ++ x.sourceText ++ ")")
    | _ => none
  else none

def flattening (_ : Env) (notes : Notes) (n : Node) : Except Fault (List Finding × Notes) :=
  if notes.seen.contains n.id then .ok ([], notes)
  else
    match n with
    | ⟨_, .listComp g⟩ =>
      if isFlattening g then
        .ok ([replace n "[... for ... in x for ... in ...]" "list(chain.from_iterable(x))"],
          { notes with seen := g.id :: notes.seen })
      else .ok ([], notes)
    | ⟨_, .setComp g⟩ =>
      if isFlattening g then
        .ok ([replace n "\x7b... for ... in x for ... in ...\x7d" "set(chain.from_iterable(x))"],
          { notes with seen := g.id :: notes.seen })
      else .ok ([], notes)
    | ⟨_, .generator _ _⟩ =>
      if isFlattening n then
        .ok ([replace n "... for ... in x for ... in ..." "chain.from_iterable(x)"], notes)
      else .ok ([], notes)
    | ⟨_, .call callee args _⟩ =>
      match joiningCall? callee args with
      | some new => .ok ([replace n n.sourceText new], notes)
      | none => .ok ([], notes)
    | _ => .ok ([], notes)

end IdiomLint.Rules.Comprehensions
