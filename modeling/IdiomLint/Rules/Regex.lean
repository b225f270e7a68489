import IdiomLint.Check.Env
import IdiomLint.Check.Finding
import IdiomLint.Syntax.SourceText

/-! Regular expressions. -/
namespace IdiomLint.Rules.Regex

open Finding

def longFlags : List (String × String) :=
  [("re.A", "re.ASCII"), ("re.I", "re.IGNORECASE"), ("re.L", "re.LOCALE"), ("re.M", "re.MULTILINE"),
    ("re.S", "re.DOTALL"), ("re.T", "re.TEMPLATE"), ("re.U", "re.UNICODE"), ("re.X", "re.VERBOSE")]

def longFlag (_ : Env) (n : Node) : List Finding :=
  match n.ref? with
  | some ref =>
    match longFlags.lookup ref.fullname with
    | some long => [replace n ref.fullname long]
    | none => []
  | none => []

/-- How many arguments a function takes: those it needs, and the name of one more. -/
structure Arity where
  needed : Nat
  optional : Option String

def functions : List (String × Arity) :=
  [("re.search", ⟨2, none⟩), ("re.match", ⟨2, none⟩), ("re.fullmatch", ⟨2, none⟩),
    ("re.split", ⟨2, some "maxsplit"⟩), ("re.findall", ⟨2, none⟩), ("re.finditer", ⟨2, none⟩),
    ("re.sub", ⟨3, some "count"⟩), ("re.subn", ⟨3, some "count"⟩)]

/-- Whether arguments fit: their number, and where one more is allowed, the name of the last. -/
def Arity.accepts (a : Arity) (args : List (CallArg Node)) : Bool :=
  a.needed ≤ args.length && args.length ≤ a.needed + a.optional.toList.length
    && match a.optional, args.getLast?.bind (·.name) with
      | some name, some given => given == "" || given == name
      | _, _ => true

def argumentDots (args : List (CallArg Node)) : String :=
  ", ".intercalate (args.map fun a => match a.name with
    | none => "..."
    | some name => name ++ "=...")

def patternMethod (env : Env) : Node → List Finding
  | n@⟨_, .call callee args@(⟨pattern, _, _⟩ :: rest) _⟩ =>
    match callee.ref? with
    | none => []
    | some ref =>
      match functions.lookup ref.fullname with
      | some arity =>
        if env.hasType pattern [.named "re.Pattern"] && arity.accepts args then
          let params := argumentDots rest
          [replace n (ref.fullname ++ "(x, " ++ params ++ ")")
            ("x." ++ ref.name ++ "(" ++ params ++ ")")]
        else []
      | none => []
  | _ => []

end IdiomLint.Rules.Regex
