import IdiomLint.Syntax.Tree

/-! Classes of nodes: what a check can ask to be run on. A function definition and a lambda are
also function items. -/
namespace IdiomLint

inductive NodeClass where
  | asPattern | assertion | assertType | walrus | assignment | await | block | breakStmt | bytes
  | call | cast | classDef | classPattern | comparison | complex | conditional | continueStmt
  | decorated | deletion | dict | dictComp | ellipsis | enumCall | expression | float | forLoop
  | function | functionItem | generator | globalDecl | ifElse | importAll | importFrom
  | importNames | index | int | lambda | listComp | list | mappingPattern | matching | member
  | file | namedTuple | name | newType | nonlocalDecl | augmented | binary | orPattern | overloads
  | paramSpec | passStmt | placeholder | promotion | raising | returnStmt | reveal
  | sequencePattern | setComp | set | singletonPattern | slice | star | starredPattern | str
  | superCall | temporary | tryBlock | tuple | typeAliasExpr | typeAlias | typeApplication
  | typedDict | typeVar | typeVarTuple | unary | valuePattern | variable | whileLoop | withBlock
  | yield | yieldFrom
deriving DecidableEq, Inhabited

namespace NodeClass

/-- The classes in the order in which they are offered for choice. -/
def all : List NodeClass :=
  [
    .asPattern, .assertion, .assertType, .walrus, .assignment, .await, .block, .breakStmt, .bytes,
    .call, .cast, .classDef, .classPattern, .comparison, .complex, .conditional, .continueStmt,
    .decorated, .deletion, .dict, .dictComp, .ellipsis, .enumCall, .expression, .float, .forLoop,
    .function, .functionItem, .generator, .globalDecl, .ifElse, .importAll, .importFrom,
    .importNames, .index, .int, .lambda, .listComp, .list, .mappingPattern, .matching, .member,
    .file, .namedTuple, .name, .newType, .nonlocalDecl, .augmented, .binary, .orPattern,
    .overloads, .paramSpec, .passStmt, .placeholder, .promotion, .raising, .returnStmt, .reveal,
    .sequencePattern, .setComp, .set, .singletonPattern, .slice, .star, .starredPattern, .str,
    .superCall, .temporary, .tryBlock, .tuple, .typeAliasExpr, .typeAlias, .typeApplication,
    .typedDict, .typeVar, .typeVarTuple, .unary, .valuePattern, .variable, .whileLoop, .withBlock,
    .yield, .yieldFrom
  ]

/-- The name under which a class is known to the type checker. -/
def label : NodeClass → String
  | .asPattern => "AsPattern"
  | .assertion => "AssertStmt"
  | .assertType => "AssertTypeExpr"
  | .walrus => "AssignmentExpr"
  | .assignment => "AssignmentStmt"
  | .await => "AwaitExpr"
  | .block => "Block"
  | .breakStmt => "BreakStmt"
  | .bytes => "BytesExpr"
  | .call => "CallExpr"
  | .cast => "CastExpr"
  | .classDef => "ClassDef"
  | .classPattern => "ClassPattern"
  | .comparison => "ComparisonExpr"
  | .complex => "ComplexExpr"
  | .conditional => "ConditionalExpr"
  | .continueStmt => "ContinueStmt"
  | .decorated => "Decorator"
  | .deletion => "DelStmt"
  | .dict => "DictExpr"
  | .dictComp => "DictionaryComprehension"
  | .ellipsis => "EllipsisExpr"
  | .enumCall => "EnumCallExpr"
  | .expression => "ExpressionStmt"
  | .float => "FloatExpr"
  | .forLoop => "ForStmt"
  | .function => "FuncDef"
  | .functionItem => "FuncItem"
  | .generator => "GeneratorExpr"
  | .globalDecl => "GlobalDecl"
  | .ifElse => "IfStmt"
  | .importAll => "ImportAll"
  | .importFrom => "ImportFrom"
  | .importNames => "Import"
  | .index => "IndexExpr"
  | .int => "IntExpr"
  | .lambda => "LambdaExpr"
  | .listComp => "ListComprehension"
  | .list => "ListExpr"
  | .mappingPattern => "MappingPattern"
  | .matching => "MatchStmt"
  | .member => "MemberExpr"
  | .file => "MypyFile"
  | .namedTuple => "NamedTupleExpr"
  | .name => "NameExpr"
  | .newType => "NewTypeExpr"
  | .nonlocalDecl => "NonlocalDecl"
  | .augmented => "OperatorAssignmentStmt"
  | .binary => "OpExpr"
  | .orPattern => "OrPattern"
  | .overloads => "OverloadedFuncDef"
  | .paramSpec => "ParamSpecExpr"
  | .passStmt => "PassStmt"
  | .placeholder => "PlaceholderNode"
  | .promotion => "PromoteExpr"
  | .raising => "RaiseStmt"
  | .returnStmt => "ReturnStmt"
  | .reveal => "RevealExpr"
  | .sequencePattern => "SequencePattern"
  | .setComp => "SetComprehension"
  | .set => "SetExpr"
  | .singletonPattern => "SingletonPattern"
  | .slice => "SliceExpr"
  | .star => "StarExpr"
  | .starredPattern => "StarredPattern"
  | .str => "StrExpr"
  | .superCall => "SuperExpr"
  | .temporary => "TempNode"
  | .tryBlock => "TryStmt"
  | .tuple => "TupleExpr"
  | .typeAliasExpr => "TypeAliasExpr"
  | .typeAlias => "TypeAlias"
  | .typeApplication => "TypeApplication"
  | .typedDict => "TypedDictExpr"
  | .typeVar => "TypeVarExpr"
  | .typeVarTuple => "TypeVarTupleExpr"
  | .unary => "UnaryExpr"
  | .valuePattern => "ValuePattern"
  | .variable => "Var"
  | .whileLoop => "WhileStmt"
  | .withBlock => "WithStmt"
  | .yield => "YieldExpr"
  | .yieldFrom => "YieldFromExpr"

def ofLabel? (s : String) : Option NodeClass := all.find? (·.label == s)

def isPattern : NodeClass → Bool
  | .asPattern | .classPattern | .mappingPattern | .orPattern | .sequencePattern
  | .singletonPattern | .starredPattern | .valuePattern => true
  | _ => false

end NodeClass

def LeafKind.nodeClass : LeafKind → NodeClass
  | .typeVar => .typeVar
  | .paramSpec => .paramSpec
  | .typeVarTuple => .typeVarTuple
  | .typeAliasExpr => .typeAliasExpr
  | .namedTuple => .namedTuple
  | .typedDict => .typedDict
  | .enumCall => .enumCall
  | .promotion => .promotion
  | .newType => .newType
  | .temporary => .temporary
  | .placeholder => .placeholder
  | .typeAlias => .typeAlias
  | .variable => .variable

namespace Node

/-- The classes a node belongs to, in the order in which their checks run. -/
def classes : Node → List NodeClass
  | ⟨_, .function ..⟩ => [.function, .functionItem]
  | ⟨_, .lambda ..⟩ => [.lambda, .functionItem]
  | ⟨_, .file ..⟩ => [.file]
  | ⟨_, .importNames ..⟩ => [.importNames]
  | ⟨_, .importFrom ..⟩ => [.importFrom]
  | ⟨_, .importAll ..⟩ => [.importAll]
  | ⟨_, .decorated ..⟩ => [.decorated]
  | ⟨_, .overloads ..⟩ => [.overloads]
  | ⟨_, .classDef ..⟩ => [.classDef]
  | ⟨_, .block ..⟩ => [.block]
  | ⟨_, .globalDecl ..⟩ => [.globalDecl]
  | ⟨_, .nonlocalDecl ..⟩ => [.nonlocalDecl]
  | ⟨_, .expression ..⟩ => [.expression]
  | ⟨_, .returnStmt ..⟩ => [.returnStmt]
  | ⟨_, .deletion ..⟩ => [.deletion]
  | ⟨_, .assignment ..⟩ => [.assignment]
  | ⟨_, .augmented ..⟩ => [.augmented]
  | ⟨_, .whileLoop ..⟩ => [.whileLoop]
  | ⟨_, .forLoop ..⟩ => [.forLoop]
  | ⟨_, .assertion ..⟩ => [.assertion]
  | ⟨_, .ifElse ..⟩ => [.ifElse]
  | ⟨_, .raising ..⟩ => [.raising]
  | ⟨_, .tryBlock ..⟩ => [.tryBlock]
  | ⟨_, .withBlock ..⟩ => [.withBlock]
  | ⟨_, .matching ..⟩ => [.matching]
  | ⟨_, .breakStmt⟩ => [.breakStmt]
  | ⟨_, .continueStmt⟩ => [.continueStmt]
  | ⟨_, .passStmt⟩ => [.passStmt]
  | ⟨_, .int ..⟩ => [.int]
  | ⟨_, .str ..⟩ => [.str]
  | ⟨_, .bytes ..⟩ => [.bytes]
  | ⟨_, .float ..⟩ => [.float]
  | ⟨_, .complex ..⟩ => [.complex]
  | ⟨_, .ellipsis⟩ => [.ellipsis]
  | ⟨_, .name ..⟩ => [.name]
  | ⟨_, .member ..⟩ => [.member]
  | ⟨_, .call ..⟩ => [.call]
  | ⟨_, .index ..⟩ => [.index]
  | ⟨_, .unary ..⟩ => [.unary]
  | ⟨_, .binary ..⟩ => [.binary]
  | ⟨_, .comparison ..⟩ => [.comparison]
  | ⟨_, .slice ..⟩ => [.slice]
  | ⟨_, .walrus ..⟩ => [.walrus]
  | ⟨_, .conditional ..⟩ => [.conditional]
  | ⟨_, .list ..⟩ => [.list]
  | ⟨_, .tuple ..⟩ => [.tuple]
  | ⟨_, .set ..⟩ => [.set]
  | ⟨_, .dict ..⟩ => [.dict]
  | ⟨_, .star ..⟩ => [.star]
  | ⟨_, .await ..⟩ => [.await]
  | ⟨_, .yield ..⟩ => [.yield]
  | ⟨_, .yieldFrom ..⟩ => [.yieldFrom]
  | ⟨_, .generator ..⟩ => [.generator]
  | ⟨_, .listComp ..⟩ => [.listComp]
  | ⟨_, .setComp ..⟩ => [.setComp]
  | ⟨_, .dictComp ..⟩ => [.dictComp]
  | ⟨_, .cast ..⟩ => [.cast]
  | ⟨_, .assertType ..⟩ => [.assertType]
  | ⟨_, .reveal ..⟩ => [.reveal]
  | ⟨_, .superCall ..⟩ => [.superCall]
  | ⟨_, .typeApplication ..⟩ => [.typeApplication]
  | ⟨_, .asPattern ..⟩ => [.asPattern]
  | ⟨_, .orPattern ..⟩ => [.orPattern]
  | ⟨_, .valuePattern ..⟩ => [.valuePattern]
  | ⟨_, .singletonPattern ..⟩ => [.singletonPattern]
  | ⟨_, .sequencePattern ..⟩ => [.sequencePattern]
  | ⟨_, .starredPattern ..⟩ => [.starredPattern]
  | ⟨_, .mappingPattern ..⟩ => [.mappingPattern]
  | ⟨_, .classPattern ..⟩ => [.classPattern]
  | ⟨_, .leaf kind _⟩ => [kind.nodeClass]
  | ⟨_, .argument ..⟩ => []
  | ⟨_, .required ..⟩ => []

/-- The name of the class a node was made from. -/
def className : Node → String
  | ⟨_, .argument ..⟩ => "Argument"
  | ⟨_, .required ..⟩ => "RequiredType"
  | n => (n.classes.head?.map NodeClass.label).getD ""

end Node

end IdiomLint
