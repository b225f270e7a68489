import IdiomLint.Syntax.Tree
import IdiomLint.Text.Blank

/-! Names as the type checker mangles them, and the questions checks ask about single nodes. -/
namespace IdiomLint

def isMangling (c : Char) : Bool := c == '\x27' || c == '*'

/-- A redefined variable gets marks after its name; this takes them off. -/
def unmangle (name : String) : String :=
  String.ofList (Text.trimEndBy isMangling name.toList)

/-- The platform modules behind `os.path` are shown under that name. -/
def normalizeOsPath (fullname : String) : String :=
  match fullname.splitOn "." with
  | [] => ""
  | first :: rest =>
    if first.startsWith "genericpath" || first.startsWith "ntpath"
        || first.startsWith "posixpath" then
      ".".intercalate ("os" :: "path" :: rest)
    else fullname

namespace Node

/-- The name a node refers by, if it is a name or a member. -/
def ref? : Node → Option Ref
  | ⟨_, .name ref _⟩ => some ref
  | ⟨_, .member _ ref⟩ => some ref
  | _ => none

def isMember : Node → Bool
  | ⟨_, .member _ _⟩ => true
  | _ => false

def isName : Node → Bool
  | ⟨_, .name _ _⟩ => true
  | _ => false

/-- Whether a node is a plain name that resolves to `fullname`. -/
def isNameOf (fullname : String) : Node → Bool
  | ⟨_, .name ref _⟩ => ref.fullname == fullname
  | _ => false

/-- Whether a node is a name or member that resolves to `fullname`. -/
def refersTo (fullname : String) (n : Node) : Bool :=
  match n.ref? with
  | some ref => ref.fullname == fullname
  | none => false

def isNoneLiteral : Node → Bool := isNameOf "builtins.None"

def isTrueLiteral : Node → Bool := isNameOf "builtins.True"

def isFalseLiteral : Node → Bool := isNameOf "builtins.False"

def isBoolLiteral (n : Node) : Bool := n.isTrueLiteral || n.isFalseLiteral

/-- Whether a node is the call `type(None)`. -/
def isTypeOfNone : Node → Bool
  | ⟨_, .call callee [arg] _⟩ => callee.isNameOf "builtins.type" && arg.value.isNoneLiteral
  | _ => false

/-- Whether a node is an expression, as opposed to a statement, a pattern or a declaration. -/
def isExpression : Node → Bool
  | ⟨_, shape⟩ => match shape with
    | .int _ | .str _ | .bytes _ | .float _ | .complex _ | .ellipsis | .name .. | .member ..
    | .call .. | .index .. | .unary .. | .binary .. | .comparison .. | .slice .. | .walrus ..
    | .conditional .. | .list _ | .tuple _ | .set _ | .dict _ | .star _ | .await _ | .yield _
    | .yieldFrom _ | .generator .. | .listComp _ | .setComp _ | .dictComp .. | .lambda ..
    | .cast .. | .assertType .. | .reveal .. | .superCall .. | .typeApplication _ => true
    | .leaf kind _ => kind != .typeAlias && kind != .placeholder && kind != .variable
    | _ => false

/-- The statements of a block. -/
def blockBody? : Node → Option (List Node)
  | ⟨_, .block body⟩ => some body
  | _ => none

/-- The statements of a block or a whole file. -/
def statementList? : Node → Option (List Node)
  | ⟨_, .block body⟩ => some body
  | ⟨_, .file _ body⟩ => some body
  | _ => none

end Node

/-- The name of a parameter as callers may use it. -/
def Param.callName {α : Type} (p : Param α) : Option String :=
  if p.positionOnly then none else some p.name

end IdiomLint
