import IdiomLint.Check.Env
import IdiomLint.Check.Finding
import IdiomLint.Syntax.SourceText

/-! Calls of constructors that a literal or the argument itself can stand for. -/
namespace IdiomLint.Rules.Literals

open Finding

/-- The literals of values with nothing in them, by their constructors. -/
def emptyLiterals : List (String × String) :=
  [("builtins.bool", "False"), ("builtins.bytes", "b\"\""), ("builtins.complex", "0j"),
    ("builtins.dict", "\x7b\x7d"), ("builtins.float", "0.0"), ("builtins.int", "0"),
    ("builtins.list", "[]"), ("builtins.str", "\"\""), ("builtins.tuple", "()")]

def emptyCall (_ : Env) : Node → List Finding
  | n@⟨_, .call ⟨_, .name f _⟩ [] _⟩ =>
    match emptyLiterals.lookup f.fullname with
    | some literal => [replace n (f.name ++ "()") literal]
    | none => []
  | _ => []

/-- Conversions: how to copy the argument, and the types for which that is enough. -/
def conversions : List (String × String × List Expected) :=
  [("builtins.bool", "", [.builtin "bool"]),
    ("builtins.bytes", "", [.builtin "bytes"]),
    ("builtins.complex", "", [.builtin "complex"]),
    ("builtins.dict", ".copy()", [.builtin "dict", .named "os._Environ"]),
    ("builtins.float", "", [.builtin "float"]),
    ("builtins.int", "", [.builtin "int"]),
    ("builtins.list", ".copy()", [.builtin "list"]),
    ("builtins.set", ".copy()", [.builtin "set"]),
    ("builtins.str", "", [.builtin "str"]),
    ("builtins.tuple", "", [.builtin "tuple"])]

def redundantConversion (env : Env) : Node → List Finding
  | n@⟨_, .call ⟨_, .name f _⟩ [⟨arg, .pos, _⟩] _⟩ =>
    match conversions.lookup f.fullname with
    | some (copy, types) =>
      if env.hasType arg types then
        let x := arg.sourceText
        [replace n (f.name ++ "(" ++ x ++ ")") (x ++ copy)]
      else []
    | none => []
  | _ => []

end IdiomLint.Rules.Literals
