import Std.Data.HashMap
import IdiomLint.Session.Lint

/-! Trees, symbols and types as a type checker hands them over: JSON objects with a member `k`, `s`
or `t` that names the kind, a missing member being empty. Every object is a node of its own, so
reading numbers the nodes. Then what the type checker came to: the sources with their trees, or what
it ended with instead. -/
namespace IdiomLint

mutual

/-- How deep a document is nested. -/
def Json.depth : Json → Nat
  | .array xs => 1 + depthAll xs
  | .object ms => 1 + depthMembers ms
  | _ => 1

def Json.depthAll : List Json → Nat
  | [] => 0
  | j :: rest => max (Json.depth j) (Json.depthAll rest)

def Json.depthMembers : List (String × Json) → Nat
  | [] => 0
  | (_, j) :: rest => max (Json.depth j) (Json.depthMembers rest)

end

namespace Exchange

/-- The symbols of the document, by id. -/
structure Context where
  symbols : Std.HashMap String Json

/-- Reads with the symbols at hand, and hands out node numbers. -/
abbrev Reader := ReaderT Context (StateM NodeId)

def Context.classRef (c : Context) (id : SymbolId) : ClassRef :=
  ⟨id, ((c.symbols[id]?).bind fun j => (j.field "fullname").text?).getD id⟩

def Context.isPackage (c : Context) (id : SymbolId) : Bool :=
  match c.symbols[id]? with
  | some j => (j.field "s").text == "MypyFile"
  | none => false

/-- A type; the fuel bounds how deep types are nested. -/
def typeOf (c : Context) : Nat → Json → Option Ty
  | _, .string id => some (.inst (c.classRef id) [])
  | _, .null => none
  | 0, _ => some .other
  | fuel + 1, j =>
    match (j.field "t").text with
    | "Instance" =>
      some (.inst (c.classRef (j.field "type").text)
        ((j.field "args").items.map fun a => (typeOf c fuel a).getD .other))
    | "Any" => some .any
    | "Tuple" => some .tuple
    | "Callable" => some (.callable (typeOf c fuel (j.field "ret")))
    | "Alias" => some (.aliased (j.field "alias").text?)
    | _ => some .other

def typeAt (c : Context) (j : Json) : Option Ty := typeOf c j.depth j

def span (j : Json) : Span :=
  match j.items with
  | [l, c, el, ec] => ⟨l.intOr 0, c.intOr 0, el.int?, ec.int?⟩
  | _ => .nowhere

def newInfo (j : Json) : Reader Info := do
  let id ← getModify (· + 1)
  return ⟨id, span (j.field "p")⟩

def argKind (j : Json) : ArgKind :=
  match j.intOr 0 with
  | 1 => .opt
  | 2 => .star
  | 3 => .named
  | 4 => .starStar
  | 5 => .namedOpt
  | _ => .pos

def level (j : Json) : Option Level :=
  match j.int? with
  | some 0 => some .inFunction
  | some 1 => some .inModule
  | some 2 => some .inClass
  | _ => none

def ref (j : Json) : Ref :=
  ⟨(j.field "name").text, (j.field "fullname").text, level (j.field "kind"),
    (j.field "inferred").flag⟩

def importNames (j : Json) : List (String × Option String) :=
  j.items.map fun p => match p.items with
    | [n, a] => (n.text, a.text?)
    | _ => ("", none)

def leafKinds : List (String × LeafKind) :=
  [("TypeVarExpr", .typeVar), ("ParamSpecExpr", .paramSpec), ("TypeVarTupleExpr", .typeVarTuple),
    ("TypeAliasExpr", .typeAliasExpr), ("NamedTupleExpr", .namedTuple),
    ("TypedDictExpr", .typedDict), ("EnumCallExpr", .enumCall), ("PromoteExpr", .promotion),
    ("NewTypeExpr", .newType), ("TempNode", .temporary), ("PlaceholderNode", .placeholder),
    ("TypeAlias", .typeAlias), ("Var", .variable)]

def binaryOp (j : Json) : BinaryOp := .ofSymbol j.text

def compareOp (j : Json) : CompareOp := .ofSymbol j.text

def unaryOp (j : Json) : UnaryOp := .ofSymbol j.text

/-- A list filled up with missing entries. -/
def padded (n : Nat) (l : List Json) : List Json := l ++ List.replicate (n - l.length) .null

def optional (node : Json → Reader Node) (j : Json) : Reader (Option Node) := do
  if j.isNull then return none else return some (← node j)

def param (node : Json → Reader Node) (j : Json) : Reader (Param Node) := do
  let info ← newInfo j
  let initial ← optional node (j.field "init")
  return ⟨info, (j.field "name").text, (j.field "fullname").text, argKind (j.field "kind"),
    initial, (j.field "ann").flag, (j.field "pos_only").flag⟩

def clauses (node : Json → Reader Node) (j : Json) : Reader (List (Clause Node)) := do
  let indices := (j.field "indices").items
  let k := indices.length
  let sources := (j.field "sequences").items
  let conditions := padded k (j.field "condlists").items
  let asyncs := padded k (j.field "is_async").items
  (indices.zip (sources.zip (conditions.zip asyncs))).mapM fun (i, s, cs, a) =>
    return Clause.mk (← node i) (← node s) (← cs.items.mapM node) a.flag

/-- A node; the fuel bounds how deep nodes are nested. -/
def node : Nat → Json → Reader Node
  | 0, _ => return ⟨⟨0, .nowhere⟩, .required none⟩
  | fuel + 1, j => do
    let info ← newInfo j
    let c ← read
    let f := fun (name : String) => j.field name
    let rd := node fuel
    let n := fun (name : String) => rd (f name)
    let o := fun (name : String) => optional rd (f name)
    let l := fun (name : String) => (f name).items.mapM rd
    let shape : Shape Node ← match (f "k").text with
      | "MypyFile" => return Node.mk info (.file (f "path").text (← l "defs"))
      | "Import" => pure (.importNames (importNames (f "ids")) (← l "assignments"))
      | "ImportFrom" =>
        pure (.importFrom (f "id").text ((f "relative").intOr 0).toNat (importNames (f "names"))
          (← l "assignments"))
      | "ImportAll" => pure (.importAll (f "id").text ((f "relative").intOr 0).toNat)
      | "FuncDef" =>
        let ps ← (f "arguments").items.mapM (param rd)
        let b ← n "body"
        pure (.function (f "name").text ps b
          ⟨(f "is_static").flag, (f "is_class").flag, (f "is_property").flag,
            (f "is_generator").flag⟩)
      | "Argument" => pure (.argument (← param rd j))
      | "Decorator" => pure (.decorated (← n "func") (← l "decorators") (f "var").text)
      | "OverloadedFuncDef" => pure (.overloads (← l "items") (← o "impl"))
      | "ClassDef" =>
        let keywords ← (f "keywords").items.mapM fun p => match p.items with
          | [k, v] => return (k.text, ← rd v)
          | _ => return ("", ← rd .null)
        pure (.classDef (f "name").text (← l "decorators") (← l "base_type_exprs")
          (← o "metaclass") keywords (← n "defs") (← o "analyzed"))
      | "Block" => pure (.block (← l "body"))
      | "GlobalDecl" => pure (.globalDecl ((f "names").items.map Json.text))
      | "NonlocalDecl" => pure (.nonlocalDecl ((f "names").items.map Json.text))
      | "ExpressionStmt" => pure (.expression (← n "expr"))
      | "ReturnStmt" => pure (.returnStmt (← o "expr"))
      | "DelStmt" => pure (.deletion (← n "expr"))
      | "AssignmentStmt" => pure (.assignment (← l "lvalues") (← n "rvalue"))
      | "OperatorAssignmentStmt" =>
        pure (.augmented (binaryOp (f "op")) (← n "lvalue") (← n "rvalue"))
      | "WhileStmt" => pure (.whileLoop (← n "expr") (← n "body") (← o "else_body"))
      | "ForStmt" =>
        pure (.forLoop (← n "index") (← n "expr") (← n "body") (← o "else_body")
          (f "is_async").flag)
      | "AssertStmt" => pure (.assertion (← n "expr") (← o "msg"))
      | "IfStmt" =>
        let conditions := (f "expr").items
        let bodies := (f "body").items
        let branches ← (conditions.zip bodies).mapM fun (a, b) => return (← rd a, ← rd b)
        pure (.ifElse branches (← o "else_body"))
      | "RaiseStmt" => pure (.raising (← o "expr") (← o "from_expr"))
      | "TryStmt" =>
        let body ← n "body"
        let handlers := (f "handlers").items
        let types := padded handlers.length (f "types").items
        let vars := padded handlers.length (f "vars").items
        let hs ← (handlers.zip (types.zip vars)).mapM fun (h, t, v) =>
          return Handler.mk (← optional rd t) (← optional rd v) (← rd h)
        pure (.tryBlock body hs (← o "else_body") (← o "finally_body") (f "is_star").flag)
      | "WithStmt" =>
        let exprs := (f "expr").items
        let targets := padded exprs.length (f "target").items
        let ws ← (exprs.zip targets).mapM fun (e, t) =>
          return WithItem.mk (← rd e) (← optional rd t)
        pure (.withBlock ws (← n "body") (f "is_async").flag)
      | "MatchStmt" =>
        let subject ← n "subject"
        let patterns := (f "patterns").items
        let guards := padded patterns.length (f "guards").items
        let cs ← (patterns.zip (guards.zip (f "bodies").items)).mapM fun (p, g, b) =>
          return MatchCase.mk (← rd p) (← optional rd g) (← rd b)
        pure (.matching subject cs)
      | "BreakStmt" => pure .breakStmt
      | "ContinueStmt" => pure .continueStmt
      | "PassStmt" => pure .passStmt
      | "IntExpr" => pure (.int ((f "value").intOr 0))
      | "StrExpr" => pure (.str (f "value").text)
      | "BytesExpr" => pure (.bytes (f "value").text)
      | "FloatExpr" => pure (.float (f "value").text)
      | "ComplexExpr" => pure (.complex (f "value").text)
      | "EllipsisExpr" => pure .ellipsis
      | "NameExpr" =>
        pure (.name (ref j) ((f "node").text?.map fun id => ⟨id, c.isPackage id⟩))
      | "MemberExpr" => pure (.member (← n "expr") (ref j))
      | "CallExpr" =>
        let callee ← n "callee"
        let args := (f "args").items
        let kinds := padded args.length (f "arg_kinds").items
        let names := padded args.length (f "arg_names").items
        let as ← (args.zip (kinds.zip names)).mapM fun (a, k, nm) =>
          return CallArg.mk (← rd a) (argKind k) nm.text?
        pure (.call callee as (← o "analyzed"))
      | "IndexExpr" =>
        pure (.index (← n "base") (← n "index") (typeAt c (f "method_type")) (← o "analyzed"))
      | "UnaryExpr" => pure (.unary (unaryOp (f "op")) (← n "expr") (typeAt c (f "method_type")))
      | "OpExpr" =>
        pure (.binary (binaryOp (f "op")) (← n "left") (← n "right")
          (typeAt c (f "method_type")) (← o "analyzed"))
      | "ComparisonExpr" =>
        pure (.comparison ((f "operators").items.map compareOp) (← l "operands"))
      | "SliceExpr" => pure (.slice (← o "begin_index") (← o "end_index") (← o "stride"))
      | "AssignmentExpr" => pure (.walrus (← n "target") (← n "value"))
      | "ConditionalExpr" => pure (.conditional (← n "cond") (← n "if_expr") (← n "else_expr"))
      | "ListExpr" => pure (.list (← l "items"))
      | "TupleExpr" => pure (.tuple (← l "items"))
      | "SetExpr" => pure (.set (← l "items"))
      | "DictExpr" =>
        let kvs ← (f "items").items.mapM fun p => match p.items with
          | [k, v] => return (← optional rd k, ← rd v)
          | _ => return (none, ← rd .null)
        pure (.dict kvs)
      | "StarExpr" => pure (.star (← n "expr"))
      | "AwaitExpr" => pure (.await (← n "expr"))
      | "YieldExpr" => pure (.yield (← o "expr"))
      | "YieldFromExpr" => pure (.yieldFrom (← n "expr"))
      | "GeneratorExpr" => pure (.generator (← n "left_expr") (← clauses rd j))
      | "DictionaryComprehension" => pure (.dictComp (← n "key") (← n "value") (← clauses rd j))
      | "ListComprehension" => pure (.listComp (← n "generator"))
      | "SetComprehension" => pure (.setComp (← n "generator"))
      | "LambdaExpr" =>
        let ps ← (f "arguments").items.mapM (param rd)
        pure (.lambda ps (← n "body") (f "is_generator").flag)
      | "CastExpr" => pure (.cast (← n "expr") (typeAt c (f "type")))
      | "AssertTypeExpr" => pure (.assertType (← n "expr") (typeAt c (f "type")))
      | "RevealExpr" =>
        pure (.reveal (if (f "kind").intOr 0 == 1 then .locals else .type) (← o "expr"))
      | "SuperExpr" => pure (.superCall (f "name").text (← n "call"))
      | "TypeApplication" => pure (.typeApplication (← n "expr"))
      | "AsPattern" => pure (.asPattern (← o "pattern") (← o "name"))
      | "OrPattern" => pure (.orPattern (← l "patterns"))
      | "ValuePattern" => pure (.valuePattern (← n "expr"))
      | "SingletonPattern" =>
        pure (.singletonPattern (match f "value" with
          | .bool b => some b
          | _ => none))
      | "SequencePattern" => pure (.sequencePattern (← l "patterns"))
      | "StarredPattern" => pure (.starredPattern (← o "capture"))
      | "MappingPattern" =>
        let es ← ((f "keys").items.zip (f "values").items).mapM fun (k, v) =>
          return (← rd k, ← rd v)
        pure (.mappingPattern es (← o "rest"))
      | "ClassPattern" =>
        let cls ← n "class_ref"
        let ps ← l "positionals"
        let ks ← (((f "keyword_keys").items.map Json.text).zip (f "keyword_values").items).mapM
          fun (k, v) => return (k, ← rd v)
        pure (.classPattern cls ps ks)
      | "RequiredType" => pure (.required (typeAt c (f "item")))
      | other =>
        match leafKinds.lookup other with
        | some .variable => pure (.leaf .variable (f "name").text)
        | some k => pure (.leaf k ((f "name").textOr "X"))
        | none => pure (.required none)
    return ⟨info, shape⟩

def methods (j : Json) : List Method :=
  j.items.filterMap fun m =>
    if m.isNull then none
    else some ⟨(m.field "name").text, (m.field "is_class").flag, (m.field "is_static").flag⟩

def memberIds (j : Json) : Members := j.members.map fun (k, v) => (k, v.text?)

def params (j : Json) : Reader (List (Param Node)) :=
  (j.field "arguments").items.mapM fun p => param (node p.depth) p

def overload (j : Json) : Reader Overload := do
  if (j.field "s").text == "Decorator" then return ⟨true, ← params (j.field "func")⟩
  else return ⟨false, ← params j⟩

def symbol (id : SymbolId) (j : Json) : Reader Symbol := do
  let c ← read
  match (j.field "s").text with
  | "MypyFile" => return .package (j.field "fullname").text (memberIds (j.field "names"))
  | "Var" => return .value (typeAt c (j.field "type"))
  | "TypeAlias" => return .typeAlias (typeAt c (j.field "target"))
  | "FuncDef" => return .function (typeAt c (j.field "type")) (← params j)
  | "Decorator" => return .decorated (← params (j.field "func"))
  | "Overloaded" =>
    let variants ← (j.field "items").items.mapM overload
    let impl := j.field "impl"
    let implementation ← if impl.isNull then pure none else some <$> overload impl
    return .overloaded variants implementation
  | _ =>
    let cls := c.classRef id
    let mro := match j.field "mro" with
      | .null => [cls]
      | m => m.items.map fun i => c.classRef i.text
    return .cls ⟨cls, mro, memberIds (j.field "names"), methods (j.field "methods"),
      (j.field "defn_name").textOr (ClassInfo.bare cls.fullname).shortName⟩

/-- The symbols of a document and the names of the language's own. -/
def symbolTable (document : Json) : Reader SymbolTable := do
  let entries ← (document.field "syms").members.mapM fun (id, s) => return (id, ← symbol id s)
  return ⟨Std.HashMap.ofList entries,
    Std.HashMap.ofList ((document.field "builtins").members.map fun (k, v) => (k, v.text))⟩

def tree (j : Json) : Reader Node := node j.depth j

def tree? (j : Json) : Reader (Option Node) := optional (node j.depth) j

/-- Runs a reader over a document. -/
def read {α : Type} (document : Json) (reader : Reader α) : α :=
  (reader.run ⟨Std.HashMap.ofList (document.field "syms").members⟩ |>.run 0).1

def source (j : Json) : Reader Source := do
  return ⟨(j.field "path").text, (j.field "module").text, ← tree (j.field "tree")⟩

/-- One member tells how the type checker ended: it holds `exit` if that was at once, and
`compile_error` if the sources were refused. -/
def outcome (j : Json) : Reader TypeCheck := do
  let ended := j.field "mypy"
  match ended.field "exit", ended.field "compile_error" with
  | .object texts, _ =>
    let exit := Json.object texts
    return .quits (exit.field "stdout").text (exit.field "stderr").text
  | _, .array messages => return .rejects (messages.map Json.text)
  | _, _ => do
    let table ← symbolTable j
    let sources ← (j.field "files").items.mapM source
    return .accepts sources table (ended.field "timing").text

end Exchange

end IdiomLint
