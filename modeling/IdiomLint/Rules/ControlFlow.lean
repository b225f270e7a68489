import IdiomLint.Check.Env
import IdiomLint.Check.Finding

/-! Jumps that change nothing, and exceptions that are dropped. -/
namespace IdiomLint.Rules.ControlFlow

open Finding

/-- Whether a pattern takes everything and binds nothing. -/
def isWildcard : Node → Bool
  | ⟨_, .asPattern none none⟩ => true
  | _ => false

def isReturn : Node → Bool
  | ⟨_, .returnStmt _⟩ => true
  | _ => false

def isContinue : Node → Bool
  | ⟨_, .continueStmt⟩ => true
  | _ => false

/-- A jump that can be redundant at the end of a body: whether a statement is such a jump, and
whether it is one that a case may consist of. -/
structure Jump where
  isRedundant : Node → Bool
  standsAlone : Node → Bool

def isBareReturn : Node → Bool
  | ⟨_, .returnStmt none⟩ => true
  | _ => false

def returning : Jump := ⟨isBareReturn, isReturn⟩

def continuing : Jump := ⟨isContinue, isContinue⟩

namespace Jump

/-- Whether the statements of a case are nothing but the jump, and the pattern says something. -/
def isWholeCase (jump : Jump) (pattern : Node) : List Node → Bool
  | [stmt] => !isWildcard pattern && jump.standsAlone stmt
  | _ => false

mutual

/-- The redundant jumps at the end of a statement. -/
def trailing (jump : Jump) : Node → Except Fault (List Node)
  | ⟨_, .matching _ cases⟩ => inCases jump cases
  | ⟨_, .ifElse _ (some ⟨_, .block body⟩)⟩ => inLast jump body
  | ⟨_, .withBlock _ ⟨_, .block body⟩ _⟩ => inLast jump body
  | n => .ok (if jump.isRedundant n then [n] else [])

def inLast (jump : Jump) : List Node → Except Fault (List Node)
  | [] => .ok []
  | [stmt] => trailing jump stmt
  | _ :: rest => inLast jump rest

def inCases (jump : Jump) : List (MatchCase Node) → Except Fault (List Node)
  | [] => .ok []
  | ⟨pattern, _, ⟨_, .block body⟩⟩ :: rest =>
    if jump.isWholeCase pattern body then inCases jump rest
    else if body.isEmpty then .error .outOfRange
    else do
      let here ← inLast jump body
      let more ← inCases jump rest
      return here ++ more
  | _ :: rest => inCases jump rest

end

/-- The redundant jumps of a body, unless it is nothing but a jump. -/
def inBody (jump : Jump) (body : Node) : Except Fault (List Node) :=
  match body.blockBody? with
  | none => .ok []
  | some [stmt] => if jump.standsAlone stmt then .ok [] else jump.trailing stmt
  | some stmts => inLast jump stmts

end Jump

def functionBody? : Node → Option Node
  | ⟨_, .function _ _ body _⟩ => some body
  | ⟨_, .lambda _ body _⟩ => some body
  | _ => none

def redundantContinue (_ : Env) (n : Node) : Except Fault (List Finding) :=
  let body? := match n with
    | ⟨_, .forLoop _ _ body _ _⟩ => some body
    | ⟨_, .whileLoop _ body _⟩ => some body
    | _ => none
  match body? with
  | some body =>
    (continuing.inBody body).map fun ns =>
      ns.map fun m => ofNode m "Continue is redundant here"
  | none => .ok []

def redundantReturn (_ : Env) (n : Node) : Except Fault (List Finding) :=
  match functionBody? n with
  | some body =>
    (returning.inBody body).map fun ns => ns.map fun m => ofNode m "Return is redundant here"
  | none => .ok []

/-- Whether a block ends with a return; an empty one has no end. -/
def endsWithReturn (block : Node) : Except Fault Bool :=
  match (block.blockBody?.getD []).getLast? with
  | some stmt => .ok (isReturn stmt)
  | none => .error .outOfRange

/-- Whether all cases end with a return, asked up to the first that does not. -/
def allReturn : List (MatchCase Node) → Except Fault Bool
  | [] => .ok true
  | c :: rest => do if ← endsWithReturn c.body then allReturn rest else return false

mutual

/-- The return in the last branch of a statement whose other branches all return. -/
def finalReturn? : Node → Except Fault (Option Node)
  | n@⟨_, .returnStmt (some value)⟩ => .ok (if value.isExpression then some n else none)
  | ⟨_, .matching _ cases⟩ => finalCase? cases cases
  | ⟨_, .ifElse [(_, body)] (some ⟨_, .block [stmt]⟩)⟩ =>
    match (body.blockBody?.getD []).getLast? with
    | some last => if isReturn last then finalReturn? stmt else .ok none
    | none => .ok none
  | _ => .ok none

/-- The return in the last of the cases, if that takes everything; `all` holds all cases. -/
def finalCase? (all : List (MatchCase Node)) : List (MatchCase Node) → Except Fault (Option Node)
  | [] => .ok none
  | [⟨pattern, _, ⟨_, .block [stmt]⟩⟩] =>
    if isWildcard pattern then do
      if ← allReturn all.dropLast then finalReturn? stmt else return none
    else .ok none
  | _ :: rest => finalCase? all rest

end

def elseReturn (_ : Env) (n : Node) : Except Fault (List Finding) :=
  let last? := (functionBody? n).bind fun body => body.blockBody?.bind List.getLast?
  let branch? := match last? with
    | some stmt@⟨_, .ifElse _ _⟩ => some (stmt, "else")
    | some stmt@⟨_, .matching _ _⟩ => some (stmt, "case _")
    | _ => none
  match branch? with
  | none => .ok []
  | some (stmt, branch) => do
    match ← finalReturn? stmt with
    | some found => return [replace found (branch ++ ": return x") "return x"]
    | none => return []

/-- The names of exceptions that a handler takes, as its header and as a call show them. -/
def caughtNames? : Option Node → Option (String × String)
  | none => some ("", "BaseException")
  | some ⟨_, .name ref _⟩ => some (" " ++ ref.name, ref.name)
  | some ⟨_, .tuple items⟩ =>
    if items.all Node.isName then
      let names := ", ".intercalate (items.map fun i => (i.ref?.map (·.name)).getD "")
      some (" (" ++ names ++ ")", names)
    else none
  | some _ => none

def droppedException (_ : Env) : Node → List Finding
  | n@⟨_, .tryBlock _ [⟨type, _, ⟨_, .block [⟨_, .passStmt⟩]⟩⟩] none none _⟩ =>
    match caughtNames? type with
    | some (header, names) =>
      [replace n ("try: ... except" ++ header ++ ": pass")
        ("with suppress(" ++ names ++ "): ...")]
    | none => []
  | _ => []

end IdiomLint.Rules.ControlFlow
