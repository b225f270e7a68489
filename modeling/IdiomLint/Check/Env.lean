import IdiomLint.Settings.Basic
import IdiomLint.Symbols.TypeOf

/-! What a check knows besides the node it looks at. -/
namespace IdiomLint

structure Env where
  table : SymbolTable
  version : Version
  /-- The files and directories that the run was asked to check. -/
  files : List String

namespace Env

def typeOf (env : Env) (n : Node) : Option Entity := n.entity env.table

/-- Whether a node is of one of the expected types. -/
def hasType (env : Env) (n : Node) (expected : List Expected) : Bool :=
  env.table.hasAnyType (env.typeOf n) expected

/-- Whether a node is an instance of a class or of one that inherits from it. -/
def inherits (env : Env) (n : Node) (fullname : String) : Except Fault Bool :=
  env.table.isSubclass (env.typeOf n) [.named fullname]

def isMapping (env : Env) (n : Node) : Except Fault Bool := env.table.isMapping (env.typeOf n)

def isSized (env : Env) (n : Node) : Except Fault Bool := env.table.isSized (env.typeOf n)

def isList (env : Env) (n : Node) : Bool := env.hasType n [.builtin "list"]

def isSet (env : Env) (n : Node) : Bool := env.hasType n [.builtin "set"]

def isText (env : Env) (n : Node) : Bool := env.hasType n [.builtin "str"]

def isPath (env : Env) (n : Node) : Bool := env.hasType n [.named "pathlib.Path"]

end Env

end IdiomLint
