import Std.Data.HashMap
import IdiomLint.Syntax.Tree

/-! Symbols: what the names of a program refer to. A class that the table does not list is one
without members that has only itself as an ancestor. -/
namespace IdiomLint

/-- A function of a class body. -/
structure Method where
  name : String
  isClass : Bool
  isStatic : Bool
deriving DecidableEq, Inhabited

abbrev Members := List (String × Option SymbolId)

structure ClassInfo where
  ref : ClassRef
  /-- The class and its ancestors in the order in which members are looked up. -/
  mro : List ClassRef
  members : Members
  methods : List Method
  shortName : String
deriving DecidableEq, Inhabited

/-- One variant of an overloaded function. -/
structure Overload where
  decorated : Bool
  params : List (Param Node)

inductive Symbol where
  | cls (info : ClassInfo)
  | package (fullname : String) (members : Members)
  | value (type : Option Ty)
  | typeAlias (target : Option Ty)
  | function (type : Option Ty) (params : List (Param Node))
  | decorated (params : List (Param Node))
  | overloaded (items : List Overload) (implementation : Option Overload)

namespace ClassInfo

def bare (id : SymbolId) : ClassInfo :=
  ⟨⟨id, id⟩, [⟨id, id⟩], [], [], (id.splitOn ".").getLastD ""⟩

end ClassInfo

structure SymbolTable where
  symbols : Std.HashMap SymbolId Symbol
  builtins : Std.HashMap String SymbolId

namespace SymbolTable

def empty : SymbolTable := ⟨∅, ∅⟩

def get (table : SymbolTable) (id : SymbolId) : Symbol :=
  table.symbols.getD id (.cls (ClassInfo.bare id))

def classInfo? (table : SymbolTable) (id : SymbolId) : Option ClassInfo :=
  match table.get id with
  | .cls info => some info
  | _ => none

/-- A class of the language itself, by its name. -/
def builtinClass? (table : SymbolTable) (name : String) : Option ClassInfo :=
  (table.builtins[name]?).bind table.classInfo?

/-- The first entry for a name among a class and its ancestors. -/
def inherited (table : SymbolTable) (info : ClassInfo) (name : String) : Option SymbolId :=
  ((info.mro.findSome? fun c =>
    (table.classInfo? c.id).bind fun i => i.members.lookup name)).join

end SymbolTable

end IdiomLint
