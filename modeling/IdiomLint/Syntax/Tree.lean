import IdiomLint.Syntax.Operator

/-! Typed syntax trees. A `Node` is an identity, a position and a `Shape`; the shape is
parametrised by its children, so that a view of the children is one plain function. -/
namespace IdiomLint

/-- Start and, where known, end of a node. Lines count from one and columns from zero. -/
structure Span where
  line : Int
  column : Int
  endLine : Option Int
  endColumn : Option Int
deriving DecidableEq, Inhabited

/-- The span of a node that stands nowhere in a source file. -/
def Span.nowhere : Span := ⟨-1, -1, none, none⟩

/-- Tells the nodes of one run apart. -/
abbrev NodeId := Nat

/-- Key of a symbol. -/
abbrev SymbolId := String

structure Info where
  id : NodeId
  span : Span
deriving DecidableEq, Inhabited

structure ClassRef where
  id : SymbolId
  fullname : String
deriving DecidableEq, Inhabited

/-- Types as the type checker reports them; `other` stands for the kinds no check looks at. -/
inductive Ty where
  | inst (cls : ClassRef) (args : List Ty)
  | any
  | tuple
  | callable (result : Option Ty)
  | aliased (symbol : Option SymbolId)
  | other
deriving Inhabited

/-- What a name refers to. -/
structure Binding where
  symbol : SymbolId
  toModule : Bool
deriving DecidableEq, Inhabited

/-- A name as written and as resolved; an empty `fullname` is an unresolved name. -/
structure Ref where
  name : String
  fullname : String
  level : Option Level
  inferred : Bool
deriving DecidableEq, Inhabited

structure Param (α : Type) where
  info : Info
  name : String
  fullname : String
  kind : ArgKind
  initial : Option α
  annotated : Bool
  positionOnly : Bool

structure CallArg (α : Type) where
  value : α
  kind : ArgKind
  name : Option String

/-- One `for index in source if …` part of a comprehension. -/
structure Clause (α : Type) where
  index : α
  source : α
  conditions : List α
  isAsync : Bool

structure Handler (α : Type) where
  type : Option α
  target : Option α
  body : α

structure WithItem (α : Type) where
  resource : α
  target : Option α

structure MatchCase (α : Type) where
  pattern : α
  guard : Option α
  body : α

structure FunctionTraits where
  isStatic : Bool
  isClass : Bool
  isProperty : Bool
  isGenerator : Bool
deriving DecidableEq, Inhabited

/-- Kinds of nodes that have a name and no children. -/
inductive LeafKind where
  | typeVar | paramSpec | typeVarTuple | typeAliasExpr | namedTuple | typedDict | enumCall
  | promotion | newType | temporary | placeholder | typeAlias | variable
deriving DecidableEq, Inhabited

inductive RevealKind where
  | type | locals
deriving DecidableEq, Inhabited

inductive Shape (α : Type) where
  | file (path : String) (body : List α)
  | importNames (names : List (String × Option String)) (assignments : List α)
  | importFrom (source : String) (dots : Nat) (names : List (String × Option String))
      (assignments : List α)
  | importAll (source : String) (dots : Nat)
  | function (name : String) (params : List (Param α)) (body : α) (traits : FunctionTraits)
  | decorated (function : α) (decorators : List α) (boundName : String)
  | overloads (items : List α) (implementation : Option α)
  | classDef (name : String) (decorators : List α) (bases : List α) (metaclass : Option α)
      (keywords : List (String × α)) (body : α) (analyzed : Option α)
  | block (body : List α)
  | globalDecl (names : List String)
  | nonlocalDecl (names : List String)
  | expression (value : α)
  | returnStmt (value : Option α)
  | deletion (target : α)
  | assignment (targets : List α) (value : α)
  | augmented (op : BinaryOp) (target : α) (value : α)
  | whileLoop (condition : α) (body : α) (orElse : Option α)
  | forLoop (index : α) (source : α) (body : α) (orElse : Option α) (isAsync : Bool)
  | assertion (condition : α) (message : Option α)
  | ifElse (branches : List (α × α)) (orElse : Option α)
  | raising (error : Option α) (cause : Option α)
  | tryBlock (body : α) (handlers : List (Handler α)) (orElse : Option α) (finalBody : Option α)
      (isStar : Bool)
  | withBlock (items : List (WithItem α)) (body : α) (isAsync : Bool)
  | matching (subject : α) (cases : List (MatchCase α))
  | breakStmt
  | continueStmt
  | passStmt
  | int (value : Int)
  | str (value : String)
  | bytes (value : String)
  | float (text : String)
  | complex (text : String)
  | ellipsis
  | name (ref : Ref) (binding : Option Binding)
  | member (base : α) (ref : Ref)
  | call (callee : α) (args : List (CallArg α)) (analyzed : Option α)
  | index (base : α) (key : α) (method : Option Ty) (analyzed : Option α)
  | unary (op : UnaryOp) (operand : α) (method : Option Ty)
  | binary (op : BinaryOp) (left : α) (right : α) (method : Option Ty) (analyzed : Option α)
  | comparison (operators : List CompareOp) (operands : List α)
  | slice (start : Option α) (stop : Option α) (step : Option α)
  | walrus (target : α) (value : α)
  | conditional (condition : α) (ifTrue : α) (ifFalse : α)
  | list (items : List α)
  | tuple (items : List α)
  | set (items : List α)
  | dict (items : List (Option α × α))
  | star (value : α)
  | await (value : α)
  | yield (value : Option α)
  | yieldFrom (value : α)
  | generator (element : α) (clauses : List (Clause α))
  | listComp (generator : α)
  | setComp (generator : α)
  | dictComp (key : α) (value : α) (clauses : List (Clause α))
  | lambda (params : List (Param α)) (body : α) (isGenerator : Bool)
  | cast (value : α) (type : Option Ty)
  | assertType (value : α) (type : Option Ty)
  | reveal (kind : RevealKind) (value : Option α)
  | superCall (name : String) (call : α)
  | typeApplication (value : α)
  | leaf (kind : LeafKind) (name : String)
  | asPattern (pattern : Option α) (name : Option α)
  | orPattern (alternatives : List α)
  | valuePattern (value : α)
  | singletonPattern (value : Option Bool)
  | sequencePattern (items : List α)
  | starredPattern (capture : Option α)
  | mappingPattern (entries : List (α × α)) (rest : Option α)
  | classPattern (cls : α) (positionals : List α) (keywords : List (String × α))
  | argument (param : Param α)
  | required (item : Option Ty)

inductive Node where
  | mk (info : Info) (shape : Shape Node)

namespace Node

def info : Node → Info
  | ⟨i, _⟩ => i

def shape : Node → Shape Node
  | ⟨_, s⟩ => s

def id (n : Node) : NodeId := n.info.id

def span (n : Node) : Span := n.info.span

def line (n : Node) : Int := n.span.line

instance : Inhabited Node := ⟨⟨default, .passStmt⟩⟩

end Node

end IdiomLint
