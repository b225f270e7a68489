import IdiomLint.Syntax.NodeClass

/-! The parameters of a check function: the node, the list that findings are put in and, if it
wants them, the settings. -/
namespace IdiomLint

/-- What a parameter is declared to be. -/
inductive ParamType where
  | missing
  /-- A class by its name. -/
  | named (name : String)
  /-- One of several classes. -/
  | union (names : List String)
  /-- A container class applied to the class of its items. -/
  | container (name item : String)
deriving DecidableEq, Inhabited

namespace ParamType

/-- Naming one class several times is naming it once, and a union of one class is that class. -/
def simplified : ParamType → ParamType
  | union names =>
    match names.eraseDups with
    | [name] => named name
    | distinct => union distinct
  | a => a

/-- The name that messages show; a union has none. -/
def label? : ParamType → Option String
  | missing => some "_empty"
  | named name => some name
  | container name _ => some name
  | union _ => none

end ParamType

structure Signature where
  params : List (String × ParamType)
  /-- Whether the result is declared. -/
  returns : Bool := true
deriving DecidableEq, Inhabited

inductive SignatureError where
  | notCallable
  | wrongArity
  | notFindings
  | unknownService (name label : String)
  /-- A further parameter is declared to be something that has no name. -/
  | namelessService
  | unknownNode (label : String)
deriving DecidableEq

def SignatureError.message : SignatureError → String
  | notCallable => "Check function must be callable"
  | wrongArity => "Check function must take 2-3 parameters"
  | notFindings => "\"error\" param must be of type list[Error]"
  | unknownService name label =>
    "\"" ++ name ++ ": " ++ label ++ "\" is not a valid service"
  | namelessService => ""
  | unknownNode label => "\"" ++ label ++ "\" is not a valid Mypy node type"

namespace Signature

/-- The classes of nodes among names, up to the first name that is none, and that name. -/
def knownClasses : List String → List NodeClass × Option SignatureError
  | [] => ([], none)
  | name :: rest =>
    match NodeClass.ofLabel? name with
    | some c =>
      let r := knownClasses rest
      (c :: r.1, r.2)
    | none => ([], some (.unknownNode name))

def findingsType : ParamType := .container "list" "Error"

/-- The only further thing a check function can ask for. -/
def settingsParam : String × ParamType := ("settings", .named "Settings")

/-- The first further parameter that is not known. -/
def strangeService? (params : List (String × ParamType)) : Option SignatureError :=
  (params.find? fun p => p != settingsParam).map fun p =>
    match p.2.label? with
    | some label => .unknownService p.1 label
    | none => .namelessService

/-- The classes of nodes that a check function is run on, and what is wrong with it. -/
def nodeClasses (s : Signature) : List NodeClass × Option SignatureError :=
  match s.params with
  | (_, node) :: (_, findings) :: services =>
    if services.length > 1 then ([], some .wrongArity)
    else if findings != findingsType then ([], some .notFindings)
    else
      match strangeService? services, node.simplified with
      | some e, _ => ([], some e)
      | none, .union names => knownClasses names
      | none, .named name => knownClasses [name]
      | none, a => ([], some (.unknownNode (a.label?.getD "")))
  | _ => ([], some .wrongArity)

def accepts (s : Signature) : Bool := s.nodeClasses.2.isNone

/-- The number of parameters that are declared, the result counted with them. -/
def typedCount (s : Signature) : Nat :=
  (s.params.filter fun p => p.2 != .missing).length + (if s.returns then 1 else 0)

/-- A check function with four declarations is taken to want the settings. -/
def passesSettings (s : Signature) : Bool := s.typedCount == 4

/-- How many arguments a check function is called with. -/
def argumentCount (s : Signature) : Nat := if s.passesSettings then 3 else 2

end Signature

end IdiomLint
