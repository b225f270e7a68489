import IdiomLint.Check.Basic
import IdiomLint.Syntax.Equivalence
import IdiomLint.Syntax.SourceText
import IdiomLint.Syntax.Walk

/-! Cutting off the start or the end of a string after testing for it. -/
namespace IdiomLint.Rules.Affixes

open Finding

/-- Whether a call `len(x)` is of an argument equivalent to `affix`. -/
def isLengthOf (affix : Node) : Node → Bool
  | ⟨_, .call callee [⟨arg, _, _⟩] _⟩ => callee.refersTo "builtins.len" && affix.equivalent arg
  | _ => false

/-- Whether a node is the length of `affix`, as a number if that is a literal. -/
def isSizeOf (affix : Node) (n : Node) : Bool :=
  match affix, n with
  | ⟨_, .str s⟩, ⟨_, .int k⟩ => (s.length : Int) == k
  | _, _ => isLengthOf affix n

/-- Whether a slice cuts off exactly the affix that a test found. -/
def cutsOff (test : String) (affix : Node) (start stop : Option Node) : Bool :=
  match start, stop with
  | some size, none => test == "startswith" && isSizeOf affix size
  | none, some ⟨_, .unary .neg size _⟩ => test == "endswith" && isSizeOf affix size
  | _, _ => false

def remover (test : String) : String :=
  if test == "endswith" then "removesuffix" else "removeprefix"

/-- A test for an affix: the string, the test and the affix. -/
def affixTest? : Node → Option (Node × String × Node)
  | ⟨_, .call ⟨_, .member base ref⟩ [⟨affix, _, _⟩] _⟩ =>
    if ref.name == "endswith" || ref.name == "startswith" then some (base, ref.name, affix)
    else none
  | _ => none

def removal (base : Node) (test : String) (affix : Node) : String :=
  base.sourceText ++ "." ++ remover test ++ "(" ++ affix.sourceText ++ ")"

def ofStatement (n condition stmt : Node) : List Finding :=
  match affixTest? condition, stmt with
  | some (tested, test, affix),
      ⟨_, .assignment [target] ⟨_, .index sliced ⟨_, .slice start stop none⟩ _ _⟩⟩ =>
    if sliced.equivalent tested && target.equivalent sliced && cutsOff test affix start stop then
      [replace n n.sourceText (sliced.sourceText ++ " = " ++ removal sliced test affix)]
    else []
  | _, _ => []

def ofConditional (n condition ifTrue ifFalse : Node) : List Finding :=
  match affixTest? condition, ifTrue with
  | some (tested, test, affix), ⟨_, .index sliced ⟨_, .slice start stop none⟩ _ _⟩ =>
    if sliced.equivalent tested && tested.equivalent ifFalse && cutsOff test affix start stop then
      [replace n n.sourceText (removal sliced test affix)]
    else []
  | _, _ => []

/-- A statement and, as long as the first statement of its `else` is an `if` again, that one. -/
def elifChain : Node → List NodeId
  | ⟨i, .ifElse _ (some ⟨_, .block (first :: _)⟩)⟩ => i.id :: elifChain first
  | ⟨i, .ifElse _ _⟩ => [i.id]
  | _ => []

/-- Goes everywhere but into `if` statements. -/
def aroundIfs : Walk :=
  ⟨.calleeFirst, fun n => match n with
    | ⟨_, .ifElse _ _⟩ => some 0
    | _ => none⟩

/-- The `if` statements that belong to an `else`. -/
def elifsBelow (orElse : Node) : Except Fault (List NodeId) :=
  (orElse.entries aroundIfs).map fun ns => ns.flatMap elifChain

def cutAffix (env : Env) (notes : Notes) (n : Node) : Except Fault (List Finding × Notes) :=
  if !env.version.atLeast 3 9 || notes.seen.contains n.id then .ok ([], notes)
  else
    match n with
    | ⟨_, .ifElse _ (some orElse)⟩ =>
      (elifsBelow orElse).map fun ids => ([], { notes with seen := ids ++ notes.seen })
    | ⟨_, .ifElse ((condition, ⟨_, .block [stmt]⟩) :: _) none⟩ =>
      .ok (ofStatement n condition stmt, notes)
    | ⟨_, .conditional condition ifTrue ifFalse⟩ =>
      .ok (ofConditional n condition ifTrue ifFalse, notes)
    | _ => .ok ([], notes)

end IdiomLint.Rules.Affixes
