import IdiomLint.Check.Env
import IdiomLint.Check.Finding
import IdiomLint.Syntax.Operands
import IdiomLint.Syntax.SourceText

/-! Conditional expressions and logical operators. -/
namespace IdiomLint.Rules.Conditions

open Finding

def orOperator (_ : Env) : Node → List Finding
  | n@⟨_, .conditional condition ifTrue ifFalse⟩ =>
    if ifTrue.equivalent condition then
      let x := ifTrue.sourceText
      let y := ifFalse.sourceText
      [replace n (x ++ " if " ++ x ++ " else " ++ y) (x ++ " or " ++ y)]
    else []
  | _ => []

/-- The function that picks the left side of a comparison that holds. -/
def picker? : CompareOp → Option String
  | .lt => some "min"
  | .le => some "min"
  | .gt => some "max"
  | .ge => some "max"
  | _ => none

def flipped : CompareOp → CompareOp
  | .lt => .gt
  | .le => .ge
  | .gt => .lt
  | .ge => .le
  | op => op

def minMax (_ : Env) : Node → List Finding
  | n@⟨_, .conditional ⟨_, .comparison [op] [left, right]⟩ ifTrue ifFalse⟩ =>
    let straight := match picker? op with
      | some f =>
        if ifTrue.equivalent left && right.equivalent ifFalse then
          [replace n ("x if x " ++ op.symbol ++ " y else y") (f ++ "(x, y)")]
        else []
      | none => []
    let crossed := match picker? (flipped op) with
      | some f =>
        if ifTrue.equivalent right && left.equivalent ifFalse then
          [replace n ("x if y " ++ op.symbol ++ " x else y") (f ++ "(y, x)")]
        else []
      | none => []
    straight ++ crossed
  | _ => []

def doubleNegation (_ : Env) : Node → List Finding
  | n@⟨_, .unary .not ⟨_, .unary .not _ _⟩ _⟩ => [replace n "not not x" "bool(x)"]
  | _ => []

/-- A zero, whatever its sign. -/
def isZeroFloat (text : String) : Bool := text == "0.0" || text == "-0.0"

def isEmptySetCall : Node → Bool
  | ⟨_, .call callee [] _⟩ =>
    callee.isNameOf "builtins.set" || callee.isNameOf "builtins.frozenset"
  | _ => false

/-- The value that its type has when nothing is in it. -/
def isEmptyValue : Node → Bool
  | ⟨_, .list []⟩ => true
  | ⟨_, .dict []⟩ => true
  | ⟨_, .tuple []⟩ => true
  | ⟨_, .str s⟩ => s == ""
  | ⟨_, .bytes s⟩ => s == ""
  | ⟨_, .int k⟩ => k == 0
  | ⟨_, .float text⟩ => isZeroFloat text
  | n => n.isFalseLiteral || isEmptySetCall n

def redundantDefault (env : Env) (n : Node) : List Finding :=
  match n.operands? .or with
  | some (left, right) =>
    if isEmptyValue right then
      match SymbolTable.simpleType? (env.typeOf right) with
      | some type =>
        if env.hasType left [type] then
          let x := left.sourceText
          [replace n (x ++ " or " ++ right.sourceText) x]
        else []
      | none => []
    else []
  | none => []

def setDiscard (env : Env) : Node → List Finding
  | n@⟨_, .ifElse [(⟨_, .comparison [.isIn] [item, container]⟩,
      ⟨_, .block [⟨_, .expression ⟨_, .call ⟨_, .member base ref⟩ [⟨arg, _, _⟩] _⟩⟩]⟩)] none⟩ =>
    if ref.name == "remove" && item.equivalent arg && container.equivalent base
        && env.isSet base then
      [replace n n.sourceText (base.sourceText ++ ".discard(" ++ arg.sourceText ++ ")")]
    else []
  | _ => []

end IdiomLint.Rules.Conditions
