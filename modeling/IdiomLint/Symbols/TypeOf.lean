import IdiomLint.Symbols.Table
import IdiomLint.Syntax.Children
import IdiomLint.Syntax.Names

/-! The type of an expression, as far as the tree and the symbol table tell it. -/
namespace IdiomLint

/-- What an expression denotes: a value of a type, or a class, alias or package itself. -/
inductive Entity where
  | type (t : Ty)
  | cls (info : ClassInfo)
  | typeAlias (target : Option Ty)
  | package (fullname : String) (members : Members)

/-- A type to compare with: the type of anything, no type, a class of the language, or a class by
its full name. -/
inductive Expected where
  | anything
  | nothing
  | builtin (name : String)
  | named (fullname : String)
deriving DecidableEq

namespace SymbolTable

def entity (table : SymbolTable) (id : SymbolId) : Option Entity :=
  match table.get id with
  | .cls info => some (.cls info)
  | .package fullname members => some (.package fullname members)
  | .value type => type.map .type
  | .typeAlias target => some (.typeAlias target)
  | .function type _ => type.map .type
  | .decorated _ => none
  | .overloaded _ _ => none

def builtinType (table : SymbolTable) (name : String) : Option Entity :=
  (table.builtinClass? name).map fun info => .type (.inst info.ref [])

/-- What the member `name` of an entity denotes. -/
def memberEntity (table : SymbolTable) (name : String) : Entity → Option Entity
  | .cls info => (info.members.lookup name).join.bind table.entity
  | .package _ members => (members.lookup name).join.bind table.entity
  | .type (.inst cls _) =>
    ((table.classInfo? cls.id).bind fun info => table.inherited info name).bind table.entity
  | _ => none

end SymbolTable

/-- What calling an entity gives. -/
def Entity.called : Entity → Option Entity
  | .type (.callable result) => result.map .type
  | .typeAlias target => target.map .type
  | .cls info => some (.type (.inst info.ref []))
  | _ => none

/-- What waiting for a value of an entity gives. -/
def Entity.awaited : Entity → Option Entity
  | .type (.inst c [_, _, result]) =>
    if c.fullname == "typing.Coroutine" then some (.type result) else none
  | .type (.inst c [result]) =>
    if c.fullname == "asyncio.tasks.Task" then some (.type result) else none
  | _ => none

/-- The result of the method behind an operator. -/
def operatorResult : Option Ty → Option Entity
  | some (.callable result) => result.map .type
  | _ => none

/-- A callable is only built where the language's function class is known. -/
def SymbolTable.callableTo (table : SymbolTable) : Option Entity → Option Entity
  | some (.type t) => (table.builtinType "function").map fun _ => .type (.callable (some t))
  | _ => none

namespace Node

def entity (table : SymbolTable) : Node → Option Entity
  | ⟨_, .str _⟩ => table.builtinType "str"
  | ⟨_, .bytes _⟩ => table.builtinType "bytes"
  | ⟨_, .int _⟩ => table.builtinType "int"
  | ⟨_, .float _⟩ => table.builtinType "float"
  | ⟨_, .complex _⟩ => table.builtinType "complex"
  | ⟨_, .name ref binding⟩ =>
    if ref.fullname == "builtins.True" || ref.fullname == "builtins.False" then
      table.builtinType "bool"
    else binding.bind fun b => table.entity b.symbol
  | ⟨_, .dict _⟩ => table.builtinType "dict"
  | ⟨_, .list _⟩ => table.builtinType "list"
  | ⟨_, .tuple _⟩ => table.builtinType "tuple"
  | ⟨_, .set _⟩ => table.builtinType "set"
  | ⟨_, .file _ _⟩ => some (.package "" [])
  | ⟨_, .leaf .typeAlias _⟩ => some (.typeAlias (some .any))
  | ⟨_, .member base ref⟩ => (entity table base).bind (table.memberEntity ref.name)
  | ⟨_, .call _ _ (some ⟨_, .cast _ type⟩)⟩ => type.map .type
  | ⟨_, .call callee _ _⟩ => (entity table callee).bind Entity.called
  | ⟨_, .unary .not _ _⟩ => table.builtinType "bool"
  | ⟨_, .unary _ _ method⟩ => operatorResult method
  | ⟨_, .binary _ _ _ method _⟩ => operatorResult method
  | ⟨_, .index _ _ method _⟩ => operatorResult method
  | ⟨_, .await value⟩ => (entity table value).bind Entity.awaited
  | ⟨_, .lambda _ ⟨_, .block [⟨_, .returnStmt (some value)⟩]⟩ _⟩ =>
    table.callableTo (entity table value)
  | ⟨_, .walrus target _⟩ => entity table target
  | _ => none

end Node

/-- The classes that `Expected.builtin` can name. -/
def simpleClasses : List String :=
  ["bool", "bytearray", "bytes", "complex", "dict", "float", "frozenset", "int", "list", "set",
    "str", "tuple"]

/-- The expected type that a class name stands for, if it is one of the simple ones. -/
def Expected.ofFullname? (fullname : String) : Option Expected :=
  if fullname == "Any" then some .anything
  else if fullname == "None" then some .nothing
  else (simpleClasses.find? fun c => "builtins." ++ c == fullname).map .builtin

namespace SymbolTable

def classMatches (fullname : String) (expected : Expected) : Bool :=
  Expected.ofFullname? fullname == some expected || expected == .named fullname

/-- Follows a chain of aliases to the type it ends in; none if an alias is not resolved. -/
def resolveAlias (table : SymbolTable) : Nat → Ty → Option (Option Ty)
  | 0, _ => none
  | fuel + 1, .aliased (some id) =>
    match table.get id with
    | .typeAlias (some target) => table.resolveAlias fuel target
    | .typeAlias none => some none
    | _ => none
  | _ + 1, .aliased none => none
  | _ + 1, t => some (some t)

def typeMatches (expected : Expected) : Ty → Bool
  | .inst cls _ => classMatches cls.fullname expected
  | .tuple => expected == .builtin "tuple"
  | .any => expected == .anything
  | _ => false

/-- Whether an entity is of the expected type. A missing entity is what `nothing` expects. -/
def hasType (table : SymbolTable) (entity : Option Entity) (expected : Expected) : Bool :=
  match entity with
  | none => expected == .nothing
  | some (.cls info) => classMatches info.ref.fullname expected
  | some (.type t) =>
    match table.resolveAlias (table.symbols.size + 1) t with
    | some (some t) => typeMatches expected t
    | some none => expected == .nothing
    | none => false
  | some _ => false

def hasAnyType (table : SymbolTable) (entity : Option Entity) (expected : List Expected) : Bool :=
  expected.any (table.hasType entity)

/-- The simple type that an entity is an instance of. -/
def simpleType? : Option Entity → Option Expected
  | some (.type (.inst cls _)) =>
    match Expected.ofFullname? cls.fullname with
    | some .nothing => none
    | e => e
  | _ => none

/-- The class behind an entity. Tuple types need the language's tuple class to be known. -/
def classOf (table : SymbolTable) : Option Entity → Except Fault (Option ClassInfo)
  | some (.cls info) => .ok (some info)
  | some (.type (.inst cls _)) => .ok (table.classInfo? cls.id)
  | some (.type .tuple) =>
    match table.builtinClass? "tuple" with
    | some info => .ok (some info)
    | none => .error .broken
  | _ => .ok none

def isSubclass (table : SymbolTable) (entity : Option Entity) (expected : List Expected) :
    Except Fault Bool := do
  match ← table.classOf entity with
  | none => return false
  | some info => return info.mro.any fun c => expected.any (classMatches c.fullname)

def isMapping (table : SymbolTable) (entity : Option Entity) : Except Fault Bool :=
  table.isSubclass entity [.named "typing.Mapping"]

def isSized (table : SymbolTable) (entity : Option Entity) : Except Fault Bool :=
  table.isSubclass entity [.named "typing.Sized", .named "typing.Collection"]

end SymbolTable

end IdiomLint
