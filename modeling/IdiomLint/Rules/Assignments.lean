import IdiomLint.Check.Env
import IdiomLint.Check.Finding

/-! Assignments and declarations that can be left out or joined. -/
namespace IdiomLint.Rules.Assignments

open Finding

def selfAssignment (_ : Env) : Node → List Finding
  | n@⟨_, .assignment [⟨_, .name target _⟩] ⟨_, .name source _⟩⟩ =>
    if target.fullname != "" && unmangle target.fullname == unmangle source.fullname then
      [ofNode n "Remove redundant assignment of variable to itself"]
    else []
  | _ => []

/-- The single name that a statement assigns to. -/
def assignedName? : Node → Option Ref
  | ⟨_, .assignment [⟨_, .name ref _⟩] _⟩ => some ref
  | _ => none

def isSuppression : Node → Bool
  | ⟨_, .call callee _ _⟩ => callee.refersTo "contextlib.suppress"
  | _ => false

/-- Whether a statement is a `with` block that only assigns to the name again and suppresses no
exceptions. -/
def reassigns (fullname : String) : Node → Bool
  | ⟨_, .withBlock items ⟨_, .block [stmt]⟩ _⟩ =>
    match assignedName? stmt with
    | some ref =>
      ref.fullname != "" && ref.fullname == fullname
        && !items.any fun i => isSuppression i.resource
    | none => false
  | _ => false

def reassignedStmts : List Node → List Finding
  | first :: second :: rest =>
    let more := reassignedStmts (second :: rest)
    match assignedName? first with
    | some ref =>
      if reassigns ref.fullname second then
        ofNode first "This variable is redeclared later, and can be removed here" :: more
      else more
    | none => more
  | _ => []

def withAssignment (_ : Env) (n : Node) : List Finding :=
  reassignedStmts (n.statementList?.getD [])

def isAssignment : Node → Bool
  | ⟨_, .assignment _ _⟩ => true
  | _ => false

/-- The names of an assignment of one name to another, the target as a node too. -/
def nameToName? : Node → Option (Node × String × String)
  | ⟨_, .assignment [target@⟨_, .name t _⟩] ⟨_, .name s _⟩⟩ => some (target, t.name, s.name)
  | _ => none

/-- The first target of three assignments that swap two variables. -/
def swap? (first second third : Node) : Option Node :=
  match nameToName? first, nameToName? second, nameToName? third with
  | some (target, a, b), some (_, c, d), some (_, e, f) =>
    if a == f && b == c && d == e then some target else none
  | _, _, _ => none

/-- Looks at assignments three at a time. `recent` holds the assignments right before, at most two;
a swap that is found uses its three up. -/
def swaps : List Node → List Node → List Finding
  | _, [] => []
  | recent, stmt :: rest =>
    if isAssignment stmt then
      match recent with
      | [a, b] =>
        match swap? a b stmt with
        | some target =>
          ofNode target "Use tuple unpacking instead of temporary variables to swap values"
            :: swaps [] rest
        | none => swaps [b, stmt] rest
      | _ => swaps (recent ++ [stmt]) rest
    else swaps [] rest

def tupleSwap (_ : Env) (n : Node) : List Finding := swaps [] (n.statementList?.getD [])

/-- The keyword of a declaration. -/
def declaration? : Node → Option String
  | ⟨_, .globalDecl _⟩ => some "global"
  | ⟨_, .nonlocalDecl _⟩ => some "nonlocal"
  | _ => none

/-- A finding about declarations of one kind that follow each other, if there are several. -/
def joinedDeclarations (run : List Node) : List Finding :=
  match run with
  | first :: _ :: more =>
    match declaration? first with
    | some keyword =>
      let dots := if more.isEmpty then [] else ["..."]
      [replace first ("; ".intercalate ([keyword ++ " x", keyword ++ " y"] ++ dots))
        (keyword ++ " " ++ ", ".intercalate (["x", "y"] ++ dots))]
    | none => []
  | _ => []

/-- Goes through statements; `run` holds the declarations of one kind right before. -/
def declarationRuns : List Node → List Node → List Finding
  | run, [] => joinedDeclarations run
  | run, stmt :: rest =>
    match declaration? stmt with
    | none => joinedDeclarations run ++ declarationRuns [] rest
    | some keyword =>
      if (run.head?.map declaration?).getD (some keyword) == some keyword then
        declarationRuns (run ++ [stmt]) rest
      else joinedDeclarations run ++ declarationRuns [stmt] rest

def declarations (_ : Env) (n : Node) : List Finding :=
  declarationRuns [] (n.blockBody?.getD [])

end IdiomLint.Rules.Assignments
