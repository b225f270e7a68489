import IdiomLint.Check.Env
import IdiomLint.Check.Finding
import IdiomLint.Syntax.Operands
import IdiomLint.Syntax.SourceText

/-! Comparisons: membership, chains and comparisons with truth values. -/
namespace IdiomLint.Rules.Comparisons

open Finding

def isMembership : CompareOp → Bool
  | .isIn => true
  | .notIn => true
  | _ => false

def bracketMessage (op : String) : String :=
  replacement (op ++ " [x, y, z]") (op ++ " (x, y, z)")

def listBracket (op : String) : Node → List Finding
  | n@⟨_, .list _⟩ => [ofNode n (bracketMessage op)]
  | _ => []

/-- What is only searched or iterated over is written as a tuple. -/
def inBracket (_ : Env) : Node → List Finding
  | ⟨_, .comparison [op] [_, right]⟩ => if isMembership op then listBracket op.symbol right else []
  | ⟨_, .forLoop _ source _ _ _⟩ => listBracket "in" source
  | ⟨_, .generator _ clauses⟩ => clauses.flatMap fun c => listBracket "in" c.source
  | _ => []

/-- The only item of a list, tuple or set. -/
def onlyItem? : Node → Option Node
  | ⟨_, .list [x]⟩ => some x
  | ⟨_, .tuple [x]⟩ => some x
  | ⟨_, .set [x]⟩ => some x
  | _ => none

def singleItem (_ : Env) : Node → List Finding
  | n@⟨_, .comparison [op] [left, right]⟩ =>
    match isMembership op, onlyItem? right with
    | true, some item =>
      let new := if op == .isIn then " == " else " != "
      [replace n n.sourceText (left.sourceText ++ new ++ item.sourceText)]
    | _, _ => []
  | _ => []

/-- The four operands by name, the one at `j` being the one at `i`. -/
def operandNames (i j : Nat) : List String :=
  let names := ["x", "y", "z"]
  names.take j ++ (names[i]?).toList ++ names.drop j

/-- Two comparisons between four named operands. -/
def twoComparisons (names : List String) (op joiner : String) : String :=
  match names with
  | [a, b, c, d] =>
    a ++ " " ++ op ++ " " ++ b ++ " " ++ joiner ++ " " ++ c ++ " " ++ op ++ " " ++ d
  | _ => ""

def chainFor (n : Node) (cmp : CompareOp) : List Finding :=
  match commonInChain? .and cmp n with
  | some (first, i, j) =>
    let op := cmp.symbol
    [replace first (twoComparisons (operandNames i j) op "and")
      ("x " ++ op ++ " y " ++ op ++ " z")]
  | none => []

def chain (_ : Env) (n : Node) : List Finding := chainFor n .eq ++ chainFor n .is

def alternatives (_ : Env) (n : Node) : List Finding :=
  match commonInChain? .or .eq n with
  | some (first, i, j) =>
    let names := operandNames i j
    let shared := (["x", "y", "z"][i]?).getD ""
    let others := names.filter (· != shared)
    [replace first (twoComparisons names "==" "or")
      (shared ++ " in (" ++ ", ".intercalate others ++ ")")]
  | none => []

def dictKeys (env : Env) : Node → Except Fault (List Finding)
  | ⟨_, .comparison [op] [_, keys@⟨_, .call ⟨_, .member dict ref⟩ [] _⟩]⟩ =>
    if isMembership op && ref.name == "keys" then do
      if ← env.isMapping dict then
        return [replace keys (op.symbol ++ " " ++ keys.sourceText)
          (op.symbol ++ " " ++ dict.sourceText)]
      else return []
    else .ok []
  | _ => .ok []

def isSameness : CompareOp → Bool
  | .is => true
  | .isNot => true
  | .eq => true
  | .ne => true
  | _ => false

/-- Whether comparing with a truth value asks for the other side itself, or for its negation. -/
def asksForTruth (op : CompareOp) (value : String) : Bool :=
  if op == .isNot || op == .ne then value != "True" else value == "True"

def localName (n : Node) : String := (n.ref?.map (·.name)).getD ""

def truthValue (env : Env) : Node → List Finding
  | n@⟨_, .comparison [op] [left, right]⟩ =>
    let isBool := fun m => env.hasType m [.builtin "bool"]
    let suggestion := fun (value other : Node) (old : String) =>
      let text := other.sourceText
      [replace n old (if asksForTruth op (localName value) then text else "not " ++ text)]
    if !isSameness op then []
    else if left.isBoolLiteral && isBool right then
      suggestion left right (localName left ++ " " ++ op.symbol ++ " " ++ right.sourceText)
    else if isBool left && right.isBoolLiteral then
      suggestion right left (left.sourceText ++ " " ++ op.symbol ++ " " ++ localName right)
    else []
  | _ => []

/-- Whether two nodes are the two truth values. -/
def areBothTruths (a b : Node) : Bool :=
  (a.isTrueLiteral && b.isFalseLiteral) || (a.isFalseLiteral && b.isTrueLiteral)

/-- The two items of a list, tuple or set. -/
def twoItems? : Node → Option (Node × Node)
  | ⟨_, .list [a, b]⟩ => some (a, b)
  | ⟨_, .tuple [a, b]⟩ => some (a, b)
  | ⟨_, .set [a, b]⟩ => some (a, b)
  | _ => none

def isTruthTest : CompareOp → Bool
  | .is => true
  | .eq => true
  | _ => false

/-- A test whether something is one of the two truth values. -/
def isEitherTruth (_ : Env) : Node → List Finding
  | n@⟨_, .comparison [op] [left, right]⟩ =>
    match isMembership op, twoItems? right with
    | true, some (a, b) =>
      if areBothTruths a b then
        let new := "isinstance(" ++ left.sourceText ++ ", bool)"
        [replace n n.sourceText (if op == .notIn then "not " ++ new else new)]
      else []
    | _, _ => []
  | n =>
    match n.operands? .or with
    | some (⟨_, .comparison [op] [left, a]⟩, ⟨_, .comparison [op'] [right, b]⟩) =>
      if isTruthTest op && op == op' && left.equivalent right && areBothTruths a b then
        [replace n n.sourceText ("isinstance(" ++ left.sourceText ++ ", bool)")]
      else []
    | _ => []

end IdiomLint.Rules.Comparisons
