import IdiomLint.Syntax.Tree

/-! The outline of a tree: every node on lines of its own, its parts indented below it. Nodes of
different shape are compared by their outlines, so the outline of a shape is part of what two
expressions being the same means. -/
namespace IdiomLint

namespace Outline

def isHexDigit (c : Char) : Bool :=
  ('0' ≤ c && c ≤ '9') || ('a' ≤ c && c ≤ 'f') || ('A' ≤ c && c ≤ 'F')

/-- Doubles the backslash of every four-digit character escape in a text. -/
def markEscapes : List Char → List Char
  | '\\' :: 'u' :: a :: b :: c :: d :: rest =>
    if isHexDigit a && isHexDigit b && isHexDigit c && isHexDigit d then
      '\\' :: '\\' :: 'u' :: a :: b :: c :: d :: markEscapes rest
    else '\\' :: markEscapes ('u' :: a :: b :: c :: d :: rest)
  | c :: rest => c :: markEscapes rest
  | [] => []

/-- Hexadecimal digits of a code point, four at least. -/
def codePoint (n : Nat) : List Char :=
  let ds := Nat.toDigits 16 n
  List.replicate (4 - ds.length) '0' ++ ds

def escapeOutside (c : Char) : List Char :=
  if 32 ≤ c.toNat && c.toNat ≤ 126 then [c] else '\\' :: 'u' :: codePoint c.toNat

/-- A literal's text in printable ASCII. -/
def literal (s : String) : String :=
  String.ofList ((markEscapes s.toList).flatMap escapeOutside)

/-- A name with a mark if its type was inferred, and where it resolves to. -/
def refText (ref : Ref) (toModule : Bool) : String :=
  let base := if ref.inferred then ref.name ++ "*" else ref.name
  if toModule && ref.name == ref.fullname then base
  else if ref.level == some .inModule || (ref.fullname != ref.name && ref.fullname != "") then
    s!"{base} [{ref.fullname}]"
  else match ref.level with
    | some .inFunction => base ++ " [l]"
    | some .inClass => base ++ " [m]"
    | _ => base

/-- How the parts behind a tag are laid out. -/
inductive Layout where
  | below | beside

/-- What an outline shows: a text, a name, a declared variable, or a tag with its parts, each on
lines of its own below the tag or all beside it. A tag can give the line on which a node starts. -/
inductive Item where
  | text (s : String)
  | name (ref : Ref) (toModule : Bool)
  | declared (info : Info) (name : String)
  | tag (label : String) (node : Option Info) (layout : Layout) (parts : List Item)

/-- A new line at some depth. -/
def newLine (depth : Nat) : List Char := '\n' :: List.replicate (2 * depth) ' '

/-- A text at some depth, all its lines but the first indented. -/
def indented (depth : Nat) (s : String) : List Char :=
  s.toList.flatMap fun c => if c = '\n' then newLine depth else [c]

/-- The line on which a node starts. -/
def lineOf : Option Info → List Char
  | some i => ':' :: i.span.line.repr.toList
  | none => []

/-- A variable that stands nowhere is marked. -/
def mark (i : Info) : List Char := if i.span.line < 0 then [':', 'n', 'i', 'l'] else []

namespace Layout

/-- The depth of the parts behind a tag. -/
def inner : Layout → Nat → Nat
  | below, depth => depth + 1
  | beside, depth => depth

/-- What stands before every part. -/
def before : Layout → Nat → List Char
  | below, depth => newLine depth
  | beside, _ => []

end Layout

mutual

def Item.chars (depth : Nat) : Item → List Char
  | .text s => indented depth s
  | .name ref toModule =>
    "NameExpr".toList ++ '(' :: indented depth (refText ref toModule) ++ [')']
  | .declared i name => "Var".toList ++ mark i ++ '(' :: indented depth name ++ [')']
  | .tag label node layout parts =>
    label.toList ++ lineOf node ++ '(' :: charsAll layout (layout.inner depth) parts ++ [')']

def charsAll (layout : Layout) (depth : Nat) : List Item → List Char
  | [] => []
  | part :: rest => layout.before depth ++ part.chars depth ++ charsAll layout depth rest

end

/-- A tag that gives the line of its node, with its parts below. -/
def dump (label : String) (i : Info) (parts : List Item) : Item := .tag label (some i) .below parts

/-- A tag with its parts below. -/
def tagged (label : String) (parts : List Item) : Item := .tag label none .below parts

/-- A tag that gives the line of its node, with a text beside it. -/
def onLine (label : String) (i : Info) (content : String) : Item :=
  .tag label (some i) .beside [.text content]

def importList (names : List (String × Option String)) : String :=
  ", ".intercalate <| names.map fun n => match n.2 with
    | some own => s!"{n.1} : {own}"
    | none => n.1

def dots (n : Nat) : String := String.ofList (List.replicate n '.')

mutual

def type : Ty → String
  | .inst cls [] => cls.fullname
  | .inst cls args => cls.fullname ++ "[" ++ ", ".intercalate (types args) ++ "]"
  | .any => "Any"
  | .tuple => "tuple[()]"
  | .callable none => "def ()"
  | .callable (some .other) => "def ()"
  | .callable (some r) => s!"def () -> {type r}"
  | .aliased _ => "<alias (unfixed)>"
  | .other => "None"

def types : List Ty → List String
  | [] => []
  | t :: rest => type t :: types rest

end

def leaf (i : Info) (name : String) : LeafKind → Item
  | .typeVar => dump "TypeVarExpr" i []
  | .paramSpec => dump "ParamSpecExpr" i []
  | .typeVarTuple => dump "TypeVarTupleExpr" i []
  | .typeAliasExpr => .tag "TypeAliasExpr" none .beside [.text "Any"]
  | .namedTuple => onLine "NamedTupleExpr" i (name ++ ", None")
  | .typedDict => onLine "TypedDictExpr" i name
  | .enumCall => onLine "EnumCallExpr" i (name ++ ", []")
  | .promotion => onLine "PromoteExpr" i "Any"
  | .newType =>
    .tag "NewTypeExpr" (some i) .beside [.text (name ++ ", "), dump "NewTypeExpr" i [.text "Any"]]
  | .temporary => dump "TempNode" i [.text "Any"]
  | .placeholder => dump "PlaceholderNode" i [.text name]
  | .typeAlias => dump "TypeAlias" i [.text name, .text "Any", .text "False"]
  | .variable => .declared i name

def functionFlags (t : FunctionTraits) : List Item :=
  (if t.isStatic then [.text "Static"] else []) ++ (if t.isClass then [.text "Class"] else [])
    ++ (if t.isProperty then [.text "Property"] else [])

/-- Shown for a function that has parameters which can only be given by name. -/
def positionLimit (params : List (Param Node)) : List Item :=
  if params.any fun p => p.kind == .named || p.kind == .namedOpt then
    let n := (params.filter fun p => p.kind == .pos || p.kind == .opt).length
    [.tag "MaxPos" none .beside [.text (toString n)]]
  else []

/-- Parameters that gather what is left over. -/
def gathered : List (Param Node) → List Item
  | [] => []
  | ⟨i, name, _, kind, _, _, _⟩ :: rest =>
    match kind with
    | .star => tagged "VarArg" [.declared i name] :: gathered rest
    | .starStar => tagged "DictVarArg" [.declared i name] :: gathered rest
    | _ => gathered rest

/-- Left out when no part is given. -/
def group (tag : String) (parts : List Item) : List Item :=
  if parts.isEmpty then [] else [tagged tag parts]

mutual

def item : Node → Item
  | ⟨i, .file path body⟩ =>
    dump "MypyFile" i ((if path == "main" then [] else [.text path]) ++ each body)
  | ⟨i, .importNames names _⟩ => onLine "Import" i (importList names)
  | ⟨i, .importFrom source level names _⟩ =>
    onLine "ImportFrom" i (dots level ++ source ++ ", [" ++ importList names ++ "]")
  | ⟨i, .importAll source level⟩ => onLine "ImportAll" i (dots level ++ source)
  | ⟨i, .function name params body traits⟩ =>
    dump "FuncDef" i (.text name :: positionLimit params ++ group "Args" (namedParams params)
      ++ (if traits.isGenerator then [.text "Generator"] else []) ++ gathered params
      ++ functionFlags traits ++ [item body])
  | ⟨i, .decorated function decorators boundName⟩ =>
    dump "Decorator" i (.declared i boundName :: each decorators ++ [item function])
  | ⟨i, .overloads items implementation⟩ =>
    dump "OverloadedFuncDef" i (optional implementation ++ each items)
  | ⟨i, .classDef name decorators bases metaclass _ body _⟩ =>
    dump "ClassDef" i (.text name
      :: group "Decorators" (each decorators)
      ++ (optional metaclass).map (fun part => .tag "Metaclass" none .beside [part])
      ++ group "BaseTypeExpr" (each bases)
      ++ statements body)
  | ⟨i, .block body⟩ => dump "Block" i (each body)
  | ⟨i, .globalDecl names⟩ => dump "GlobalDecl" i (names.map .text)
  | ⟨i, .nonlocalDecl names⟩ => dump "NonlocalDecl" i (names.map .text)
  | ⟨i, .expression value⟩ => dump "ExpressionStmt" i [item value]
  | ⟨i, .returnStmt value⟩ => dump "ReturnStmt" i (optional value)
  | ⟨i, .deletion target⟩ => dump "DelStmt" i [item target]
  | ⟨i, .assignment [target] value⟩ => dump "AssignmentStmt" i [item target, item value]
  | ⟨i, .assignment targets value⟩ =>
    dump "AssignmentStmt" i [tagged "Lvalues" (each targets), item value]
  | ⟨i, .augmented op target value⟩ =>
    dump "OperatorAssignmentStmt" i [.text op.symbol, item target, item value]
  | ⟨i, .whileLoop condition body orElse⟩ =>
    dump "WhileStmt" i ([item condition, item body] ++ branch "Else" orElse)
  | ⟨i, .forLoop index source body orElse isAsync⟩ =>
    dump "ForStmt" i ((if isAsync then [tagged "Async" []] else [])
      ++ [item index, item source, item body] ++ branch "Else" orElse)
  | ⟨i, .assertion condition message⟩ =>
    dump "AssertStmt" i (item condition :: optional message)
  | ⟨i, .ifElse branches orElse⟩ =>
    dump "IfStmt" i (conditionals branches ++ branch "Else" orElse)
  | ⟨i, .raising error cause⟩ => dump "RaiseStmt" i (optional error ++ optional cause)
  | ⟨i, .tryBlock body handlers orElse finalBody isStar⟩ =>
    dump "TryStmt" i (item body :: (if isStar then [.text "*"] else []) ++ handlerParts handlers
      ++ branch "Else" orElse ++ branch "Finally" finalBody)
  | ⟨i, .withBlock items body isAsync⟩ =>
    dump "WithStmt" i ((if isAsync then [tagged "Async" []] else []) ++ withParts items
      ++ [item body])
  | ⟨i, .matching subject cases⟩ => dump "MatchStmt" i (item subject :: caseParts cases)
  | ⟨i, .breakStmt⟩ => dump "BreakStmt" i []
  | ⟨i, .continueStmt⟩ => dump "ContinueStmt" i []
  | ⟨i, .passStmt⟩ => dump "PassStmt" i []
  | ⟨_, .int value⟩ => .tag "IntExpr" none .beside [.text value.repr]
  | ⟨_, .str value⟩ => .tag "StrExpr" none .beside [.text (literal value)]
  | ⟨_, .bytes value⟩ => .tag "BytesExpr" none .beside [.text (literal value)]
  | ⟨_, .float value⟩ => .tag "FloatExpr" none .beside [.text value]
  | ⟨_, .complex value⟩ => .tag "ComplexExpr" none .beside [.text value]
  | ⟨_, .ellipsis⟩ => .text "Ellipsis"
  | ⟨_, .name ref binding⟩ => .name ref ((binding.map (·.toModule)).getD false)
  | ⟨i, .member base ref⟩ => dump "MemberExpr" i [item base, .text (refText ref false)]
  | ⟨_, .call _ _ (some analyzed)⟩ => item analyzed
  | ⟨i, .call callee args none⟩ =>
    dump "CallExpr" i (item callee :: tagged "Args" (positionals args) :: others args)
  | ⟨_, .index _ _ _ (some analyzed)⟩ => item analyzed
  | ⟨i, .index base key _ none⟩ => dump "IndexExpr" i [item base, item key]
  | ⟨i, .unary op operand _⟩ => dump "UnaryExpr" i [.text op.symbol, item operand]
  | ⟨_, .binary _ _ _ _ (some analyzed)⟩ => item analyzed
  | ⟨i, .binary op left right _ none⟩ =>
    dump "OpExpr" i [.text op.symbol, item left, item right]
  | ⟨i, .comparison operators operands⟩ =>
    dump "ComparisonExpr" i (operators.map (fun op => .text op.symbol) ++ each operands)
  | ⟨i, .slice start stop step⟩ =>
    dump "SliceExpr" i (orEmpty start ++ orEmpty stop ++ optional step)
  | ⟨i, .walrus target value⟩ => dump "AssignmentExpr" i [item target, item value]
  | ⟨i, .conditional condition ifTrue ifFalse⟩ =>
    dump "ConditionalExpr" i
      [tagged "Condition" [item condition], item ifTrue, item ifFalse]
  | ⟨i, .list items⟩ => dump "ListExpr" i (each items)
  | ⟨i, .tuple items⟩ => dump "TupleExpr" i (each items)
  | ⟨i, .set items⟩ => dump "SetExpr" i (each items)
  | ⟨i, .dict items⟩ => dump "DictExpr" i (entries items)
  | ⟨i, .star value⟩ => dump "StarExpr" i [item value]
  | ⟨i, .await value⟩ => dump "AwaitExpr" i [item value]
  | ⟨i, .yield value⟩ => dump "YieldExpr" i (optional value)
  | ⟨i, .yieldFrom value⟩ => dump "YieldFromExpr" i [item value]
  | ⟨i, .generator element clauses⟩ =>
    dump "GeneratorExpr" i (item element :: indices clauses ++ sources clauses
      ++ conditions clauses)
  | ⟨i, .listComp generator⟩ => dump "ListComprehension" i [item generator]
  | ⟨i, .setComp generator⟩ => dump "SetComprehension" i [item generator]
  | ⟨i, .dictComp key value clauses⟩ =>
    dump "DictionaryComprehension" i ([item key, item value] ++ indices clauses
      ++ sources clauses ++ conditions clauses)
  | ⟨i, .lambda params body isGenerator⟩ =>
    dump "LambdaExpr" i (group "Args" (namedParams params)
      ++ (if isGenerator then [.text "Generator"] else []) ++ gathered params ++ [item body])
  | ⟨i, .cast value target⟩ =>
    dump "CastExpr" i (item value :: target.toList.map fun t => .text (type t))
  | ⟨i, .assertType value target⟩ =>
    dump "AssertTypeExpr" i (item value :: target.toList.map fun t => .text (type t))
  | ⟨i, .reveal .type value⟩ => dump "RevealExpr" i (optional value)
  | ⟨i, .reveal .locals _⟩ => dump "RevealExpr" i []
  | ⟨i, .superCall name call⟩ => dump "SuperExpr" i [.text name, item call]
  | ⟨i, .typeApplication value⟩ => dump "TypeApplication" i [item value, tagged "Types" []]
  | ⟨i, .leaf kind name⟩ => leaf i name kind
  | ⟨i, .asPattern pattern name⟩ => dump "AsPattern" i (optional pattern ++ optional name)
  | ⟨i, .orPattern alternatives⟩ => dump "OrPattern" i (each alternatives)
  | ⟨i, .valuePattern value⟩ => dump "ValuePattern" i [item value]
  | ⟨i, .singletonPattern value⟩ =>
    dump "SingletonPattern" i (value.toList.map fun b => .text (if b then "True" else "False"))
  | ⟨i, .sequencePattern items⟩ => dump "SequencePattern" i (each items)
  | ⟨i, .starredPattern capture⟩ => dump "StarredPattern" i (optional capture)
  | ⟨i, .mappingPattern items rest⟩ =>
    dump "MappingPattern" i (keyedParts items
      ++ (optional rest).map fun part => tagged "Rest" [part])
  | ⟨i, .classPattern cls positionals keywords⟩ =>
    dump "ClassPattern" i (item cls
      :: group "Positionals" (each positionals)
      ++ keywordParts keywords)
  | ⟨_, .argument _⟩ => .text "Argument"
  | ⟨_, .required type?⟩ => .text ((type?.map type).getD "None")

def each : List Node → List Item
  | [] => []
  | n :: rest => item n :: each rest

def optional : Option Node → List Item
  | none => []
  | some n => [item n]

def orEmpty : Option Node → List Item
  | none => [.text "<empty>"]
  | some n => [item n]

/-- The statements of a block. -/
def statements : Node → List Item
  | ⟨_, .block body⟩ => each body
  | _ => []

def branch (tag : String) : Option Node → List Item
  | none => []
  | some b => [tagged tag (statements b)]

def conditionals : List (Node × Node) → List Item
  | [] => []
  | (c, b) :: rest => tagged "If" [item c] :: tagged "Then" (statements b) :: conditionals rest

def handlerParts : List (Handler Node) → List Item
  | [] => []
  | ⟨type, target, body⟩ :: rest =>
    optional type ++ optional target ++ item body :: handlerParts rest

def withParts : List (WithItem Node) → List Item
  | [] => []
  | ⟨resource, target⟩ :: rest =>
    tagged "Expr" [item resource] :: (optional target).map (fun part => tagged "Target" [part])
      ++ withParts rest

def caseParts : List (MatchCase Node) → List Item
  | [] => []
  | ⟨pattern, guard, body⟩ :: rest =>
    tagged "Pattern" [item pattern] :: (optional guard).map (fun part => tagged "Guard" [part])
      ++ tagged "Body" (statements body) :: caseParts rest

def positionals : List (CallArg Node) → List Item
  | [] => []
  | ⟨value, kind, _⟩ :: rest =>
    if kind == .pos || kind == .star then item value :: positionals rest else positionals rest

def others : List (CallArg Node) → List Item
  | [] => []
  | ⟨value, kind, name⟩ :: rest =>
    match kind with
    | .star => .text "VarArg" :: others rest
    | .named => tagged "KwArgs" (name.toList.map .text ++ [item value]) :: others rest
    | .starStar => tagged "DictVarArg" [item value] :: others rest
    | _ => others rest

def entries : List (Option Node × Node) → List Item
  | [] => []
  | (key, value) :: rest => optional key ++ item value :: entries rest

def indices : List (Clause Node) → List Item
  | [] => []
  | ⟨index, _, _, _⟩ :: rest => item index :: indices rest

def sources : List (Clause Node) → List Item
  | [] => []
  | ⟨_, source, _, _⟩ :: rest => item source :: sources rest

def conditions : List (Clause Node) → List Item
  | [] => []
  | ⟨_, _, conds, _⟩ :: rest => each conds ++ conditions rest

/-- Parameters that are not gathered, with their defaults. -/
def namedParams : List (Param Node) → List Item
  | [] => []
  | ⟨i, name, _, kind, initial, _, _⟩ :: rest =>
    match kind with
    | .pos | .named => .declared i name :: namedParams rest
    | .opt | .namedOpt =>
      tagged "default" (.declared i name :: optional initial) :: namedParams rest
    | .star | .starStar => namedParams rest

def keyedParts : List (Node × Node) → List Item
  | [] => []
  | (key, value) :: rest =>
    tagged "Key" [item key] :: tagged "Value" [item value] :: keyedParts rest

def keywordParts : List (String × Node) → List Item
  | [] => []
  | (key, value) :: rest => tagged "Keyword" [.text key, item value] :: keywordParts rest

end

end Outline

/-- The outline of a tree as one text. -/
def Node.outline (n : Node) : String := String.ofList ((Outline.item n).chars 0)

end IdiomLint
