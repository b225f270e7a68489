import IdiomLint.Syntax.Names
import IdiomLint.Text.Integer
import IdiomLint.Text.Search

/-! Source text of expressions and of simple statements, as suggestions show it. -/
namespace IdiomLint

/-- A formatted string is a call: `"{:{}}".format(value, spec)` for one field, and `"".join([…])`
for several parts. -/
inductive Template where
  | field | join
deriving DecidableEq

def Node.template? : Node → Option Template
  | ⟨_, .member ⟨_, .str pattern⟩ ref⟩ =>
    if pattern == "\x7b:\x7b\x7d\x7d" && ref.name == "format" then some .field
    else if pattern == "" && ref.name == "join" then some .join
    else none
  | _ => none

/-- A part of a formatted string: literal text, or a value with its format. -/
inductive FormatPart where
  | literal (text : Node)
  | field (value : Node) (spec : String)

namespace FormatPart

mutual

/-- The parts of a formatted string; none if the node is something else. -/
def ofNode : Node → List FormatPart
  | ⟨_, .call callee args _⟩ => ofCall callee args
  | _ => []

def ofCall (callee : Node) : List (CallArg Node) → List FormatPart
  | [⟨value, .pos, _⟩, ⟨⟨_, .str spec⟩, .pos, _⟩] =>
    if callee.template? = some .field then [.field value spec] else []
  | [⟨⟨_, .list items⟩, .pos, _⟩] =>
    if callee.template? = some .join then
      match ofItems items with
      | some (true, parts) => parts
      | _ => []
    else []
  | _ => []

/-- The parts of the items of a join, and whether a field is among them. -/
def ofItems : List Node → Option (Bool × List FormatPart)
  | [] => some (false, [])
  | ⟨i, .str text⟩ :: rest =>
    (ofItems rest).map fun r => (r.1, .literal ⟨i, .str text⟩ :: r.2)
  | item :: rest =>
    match ofNode item with
    | [] => none
    | parts => (ofItems rest).map fun r => (true, parts ++ r.2)

end

end FormatPart

namespace SourceText

/-- All texts, if each of them is there. -/
def sequence : List (Option String) → Option (List String)
  | [] => some []
  | none :: _ => none
  | some s :: rest => (sequence rest).map (s :: ·)

def literalBody (s : String) : String :=
  String.ofList (Text.escapeDoubleQuotes (Text.quotedBody s.toList))

def bytesLiteral (s : String) : String :=
  "b\"" ++ String.ofList (Text.escapeDoubleQuotes s.toList) ++ "\""

def fieldText (value spec : String) : String :=
  if spec == "" then "\x7b" ++ value ++ "\x7d" else "\x7b" ++ value ++ ":" ++ spec ++ "\x7d"

/-- The operators that stand right before their operand. -/
def signs : String := "+-~"

def unaryText (op : UnaryOp) (operand : String) : String :=
  if Text.occursIn op.symbol.toList signs.toList then op.symbol ++ operand
  else op.symbol ++ " " ++ operand

/-- A parameter list that source text can show: plain positions, all with a name. -/
def plainParams (params : List (Param Node)) : Option (List String) :=
  if params.all fun p => p.kind == .pos && !p.positionOnly && p.name != "" then
    some (params.map (·.name))
  else none

/-- Operands and operators in turn. -/
def interleave : List String → List CompareOp → List String
  | a :: as, op :: ops => a :: op.symbol :: interleave as ops
  | _, _ => []

def lambdaText (names : List String) (body : String) : String :=
  if names.isEmpty then "lambda: " ++ body
  else "lambda " ++ ", ".intercalate names ++ ": " ++ body

def tupleText : List String → String
  | [x] => "(" ++ x ++ ",)"
  | xs => "(" ++ ", ".intercalate xs ++ ")"

/-- What has no short text is shown as `x`. -/
def orX (text : Option String) : String := text.getD "x"

mutual

/-- The source text of a node; none for what has no short text. -/
def strict? : Node → Option String
  | ⟨_, .member base ref⟩ => (strict? base).map fun b => b ++ "." ++ ref.name
  | ⟨_, .name ref _⟩ => some (unmangle ref.name)
  | ⟨_, .bytes value⟩ => some (bytesLiteral value)
  | ⟨_, .int value⟩ => if Text.isWritable value then some (toString value) else none
  | ⟨_, .complex value⟩ => some value
  | ⟨_, .float value⟩ => some value
  | ⟨_, .str value⟩ => some (Text.doubleQuoted value)
  | ⟨_, .dict items⟩ => some ("\x7b" ++ ", ".intercalate (entries items) ++ "\x7d")
  | ⟨_, .tuple items⟩ => some (tupleText (lenientEach items))
  | ⟨_, .call callee args _⟩ =>
    match formatPieces callee args with
    | [] => do
      let as ← arguments args
      let f ← strict? callee
      return f ++ "(" ++ ", ".intercalate as ++ ")"
    | pieces => (sequence pieces).map fun ps => "f\"" ++ String.join ps ++ "\""
  | ⟨_, .index base key _ _⟩ => some (orX (strict? base) ++ "[" ++ orX (strict? key) ++ "]")
  | ⟨_, .slice start stop step⟩ =>
    some (lenientOr "" start ++ ":" ++ lenientOr "" stop
      ++ (match step with
        | some s => ":" ++ orX (strict? s)
        | none => ""))
  | ⟨_, .binary op left right _ _⟩ => do
    let l ← strict? left
    let r ← strict? right
    return l ++ " " ++ op.symbol ++ " " ++ r
  | ⟨_, .comparison operators operands⟩ => do
    let os ← strictEach operands
    let last ← os.getLast?
    return " ".intercalate (interleave os operators ++ [last])
  | ⟨_, .unary op operand _⟩ => (strict? operand).map (unaryText op)
  | ⟨_, .lambda params ⟨_, .block [⟨_, .returnStmt (some value)⟩]⟩ _⟩ =>
    if value.isExpression then do
      let names ← plainParams params
      let body ← strict? value
      return lambdaText names body
    else none
  | ⟨_, .list items⟩ => some ("[" ++ ", ".intercalate (lenientEach items) ++ "]")
  | ⟨_, .set items⟩ => some ("\x7b" ++ ", ".intercalate (lenientEach items) ++ "\x7d")
  | ⟨_, .assignment [target] value⟩ => some (orX (strict? target) ++ " = " ++ orX (strict? value))
  | ⟨_, .ifElse [(condition, ⟨_, .block [stmt]⟩)] none⟩ => do
    let c ← strict? condition
    let s ← strict? stmt
    return "if " ++ c ++ ": " ++ s
  | ⟨_, .forLoop index source ⟨_, .block [stmt]⟩ none false⟩ => do
    let i ← strict? index
    let xs ← strict? source
    let s ← strict? stmt
    return "for " ++ i ++ " in " ++ xs ++ ": " ++ s
  | ⟨_, .conditional condition ifTrue ifFalse⟩ => do
    let t ← strict? ifTrue
    let c ← strict? condition
    let f ← strict? ifFalse
    return t ++ " if " ++ c ++ " else " ++ f
  | ⟨_, .deletion target⟩ => (strict? target).map ("del " ++ ·)
  | ⟨_, .expression value⟩ => strict? value
  | ⟨_, .await value⟩ => (strict? value).map ("await " ++ ·)
  | ⟨_, .walrus target value⟩ => do
    let t ← strict? target
    let v ← strict? value
    return t ++ " := " ++ v
  | _ => none

def lenientOr (missing : String) : Option Node → String
  | none => missing
  | some n => orX (strict? n)

def lenientEach : List Node → List String
  | [] => []
  | n :: rest => orX (strict? n) :: lenientEach rest

def strictEach : List Node → Option (List String)
  | [] => some []
  | n :: rest => do
    let t ← strict? n
    let ts ← strictEach rest
    return t :: ts

def entries : List (Option Node × Node) → List String
  | [] => []
  | (none, value) :: rest => ("**" ++ orX (strict? value)) :: entries rest
  | (some key, value) :: rest => (orX (strict? key) ++ ": " ++ orX (strict? value)) :: entries rest

def arguments : List (CallArg Node) → Option (List String)
  | [] => some []
  | ⟨value, kind, name⟩ :: rest => do
    let v ← strict? value
    let text := match kind with
      | .named => name.getD "None" ++ "=" ++ v
      | .star => "*" ++ v
      | .starStar => "**" ++ v
      | _ => v
    let ts ← arguments rest
    return text :: ts

/-- The printed parts of a formatted string; none if the call is no such string. -/
def formatPieces (callee : Node) : List (CallArg Node) → List (Option String)
  | [⟨value, .pos, _⟩, ⟨⟨_, .str spec⟩, .pos, _⟩] =>
    if callee.template? = some .field then [(strict? value).map (fieldText · spec)] else []
  | [⟨⟨_, .list items⟩, .pos, _⟩] =>
    if callee.template? = some .join then
      match itemPieces items with
      | some (true, pieces) => pieces
      | _ => []
    else []
  | _ => []

def itemPieces : List Node → Option (Bool × List (Option String))
  | [] => some (false, [])
  | ⟨_, .str text⟩ :: rest =>
    (itemPieces rest).map fun r => (r.1, some (literalBody text) :: r.2)
  | ⟨_, .call callee args _⟩ :: rest =>
    match formatPieces callee args with
    | [] => none
    | pieces => (itemPieces rest).map fun r => (true, pieces ++ r.2)
  | _ => none

end

/-- A call that is no formatted string. -/
theorem strict?_call {i : Info} {callee : Node} {args : List (CallArg Node)} {analyzed : Option Node}
    (plain : formatPieces callee args = []) :
    strict? ⟨i, .call callee args analyzed⟩ = (arguments args).bind fun as =>
      (strict? callee).bind fun f => some (f ++ "(" ++ ", ".intercalate as ++ ")") := by
  have shown : strict? ⟨i, .call callee args analyzed⟩ =
      match formatPieces callee args with
      | [] => (arguments args).bind fun as =>
        (strict? callee).bind fun f => some (f ++ "(" ++ ", ".intercalate as ++ ")")
      | pieces => (sequence pieces).map fun ps => "f\"" ++ String.join ps ++ "\"" := rfl
  rw [shown, plain]

/-- A call that is a formatted string. -/
theorem strict?_formatted {i : Info} {callee : Node} {args : List (CallArg Node)}
    {analyzed : Option Node} (given : formatPieces callee args ≠ []) :
    strict? ⟨i, .call callee args analyzed⟩ =
      (sequence (formatPieces callee args)).map fun ps => "f\"" ++ String.join ps ++ "\"" := by
  have shown : strict? ⟨i, .call callee args analyzed⟩ =
      match formatPieces callee args with
      | [] => (arguments args).bind fun as =>
        (strict? callee).bind fun f => some (f ++ "(" ++ ", ".intercalate as ++ ")")
      | pieces => (sequence pieces).map fun ps => "f\"" ++ String.join ps ++ "\"" := rfl
  rw [shown]
  cases known : formatPieces callee args with
  | nil => exact absurd known given
  | cons piece pieces => rfl

end SourceText

namespace Node

/-- Source text of a node, if it has one. -/
def sourceText? (n : Node) : Option String := SourceText.strict? n

/-- Source text of a node; `x` stands for what has no short text. -/
def sourceText (n : Node) : String := SourceText.orX n.sourceText?

/-- A slice `a:b:c` written as the call that makes it. -/
def sliceCall (start stop step : Option Node) : String :=
  let part : Option Node → String := fun o => (o.map sourceText).getD "None"
  let args := [part start, part stop] ++ step.toList.map sourceText
  "slice(" ++ ", ".intercalate args ++ ")"

end Node

end IdiomLint
