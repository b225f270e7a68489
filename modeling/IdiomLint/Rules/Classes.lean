import IdiomLint.Check.Env
import IdiomLint.Check.Finding

/-! Class definitions, objects made for one method call, and class patterns. -/
namespace IdiomLint.Rules.Classes

open Finding

/-- Classes to inherit from instead of the language's own. -/
def substitutes : List (String × String) :=
  [("builtins.dict", "UserDict"), ("builtins.list", "UserList"), ("builtins.str", "UserStr")]

def builtinBase (_ : Env) : Node → List Finding
  | n@⟨_, .classDef name _ [⟨_, .name base _⟩] _ _ _ _⟩ =>
    match substitutes.lookup base.fullname with
    | some new =>
      let header := fun b => "class " ++ name ++ "(" ++ b ++ "):"
      [replace n (header base.name) (header new)]
    | none => []
  | _ => []

/-- The keyword before the class stands this many columns further left. -/
def metaclassWidth : Int := 10

def abstractMetaclass (_ : Env) : Node → List Finding
  | ⟨_, .classDef _ _ _ (some metaclass) _ _ _⟩ =>
    if metaclass.refersTo "abc.ABCMeta" then
      let span := metaclass.span
      let scope := if metaclass.isName then "" else "abc."
      [⟨span.line, span.column - metaclassWidth, span.endLine,
        (span.endColumn.filter (· != 0)).map (· - metaclassWidth),
        replacement ("metaclass=" ++ scope ++ "ABCMeta") (scope ++ "ABC")⟩]
    else []
  | _ => []

/-- The class that a name is bound to. -/
def boundClass? (env : Env) : Node → Option ClassInfo
  | ⟨_, .name _ (some binding)⟩ => env.table.classInfo? binding.symbol
  | _ => none

def dotsFor {α : Type} (args : List α) : String := if args.isEmpty then "" else "..."

def temporaryObject (env : Env) : Node → List Finding
  | n@⟨_, .call ⟨_, .member ⟨_, .call callee classArgs _⟩ ref⟩ args _⟩ =>
    match boundClass? env callee with
    | none => []
    | some cls =>
      let fits := cls.methods.filter fun m => m.name == ref.name && (m.isClass || m.isStatic)
      fits.map fun _ =>
        replace n
          (cls.shortName ++ "(" ++ dotsFor classArgs ++ ")." ++ ref.name ++ "(" ++ dotsFor args
            ++ ")")
          (cls.shortName ++ "." ++ ref.name ++ "(" ++ dotsFor args ++ ")")
  | _ => []

/-- Classes whose pattern binds the whole value by position. -/
def selfMatching : List String :=
  ["builtins.bool", "builtins.bytearray", "builtins.bytes", "builtins.dict", "builtins.float",
    "builtins.frozenset", "builtins.int", "builtins.list", "builtins.set", "builtins.str",
    "builtins.tuple"]

def asPattern (_ : Env) : Node → List Finding
  | n@⟨_, .asPattern (some ⟨_, .classPattern ⟨_, .name cls _⟩ [] []⟩) (some target)⟩ =>
    if selfMatching.contains cls.fullname then
      let x := (target.ref?.map (·.name)).getD ""
      [replace n (cls.name ++ "() as " ++ x) (cls.name ++ "(" ++ x ++ ")")]
    else []
  | _ => []

end IdiomLint.Rules.Classes
