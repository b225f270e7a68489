import IdiomLint.Check.Basic
import IdiomLint.Syntax.SourceText
import IdiomLint.Syntax.Walk

/-! Formatted strings. -/
namespace IdiomLint.Rules.Interpolation

open Finding

/-- A formatted field. -/
def field (inner : String) : String := "\x7b" ++ inner ++ "\x7d"

def numberFormats : List (String × String) :=
  [("builtins.bin", "b"), ("builtins.oct", "o"), ("builtins.hex", "x")]

def slicedNumber (_ : Env) : Node → List Finding
  | n@⟨_, .index ⟨_, .call ⟨_, .name f _⟩ [⟨arg, _, _⟩] _⟩
      ⟨_, .slice (some ⟨_, .int 2⟩) none _⟩ _ _⟩ =>
    match numberFormats.lookup f.fullname with
    | some format =>
      [replace n n.sourceText ("f\"" ++ field (arg.sourceText ++ ":" ++ format) ++ "\"")]
    | none => []
  | _ => []

/-- Functions whose call inside a field is written as a conversion of the field. -/
def conversions : List (String × String) :=
  [("builtins.str", ""), ("builtins.repr", "!r"), ("builtins.ascii", "!a"),
    ("builtins.bin", ":#b"), ("builtins.oct", ":#o"), ("builtins.hex", ":#x"),
    ("builtins.chr", ":c"), ("builtins.format", "")]

def isConversion : Node → Bool
  | ⟨_, .call ⟨_, .name f _⟩ _ _⟩ => (conversions.lookup f.fullname).isSome
  | _ => false

def convertedField (_ : Env) : Node → List Finding
  | n@⟨_, .call callee [⟨⟨_, .call ⟨_, .name f _⟩ [⟨arg, _, _⟩] _⟩, _, _⟩, _] _⟩ =>
    if callee.template? = some .field then
      match conversions.lookup f.fullname with
      | some conversion =>
        let text := arg.sourceText
        [replace n (field (f.name ++ "(" ++ text ++ ")")) (field (text ++ conversion))]
      | none => []
    else []
  | _ => []

def isCall : Node → Bool
  | ⟨_, .call ..⟩ => true
  | _ => false

/-- The calls in a tree. -/
def callsIn (n : Node) : Except Fault (List NodeId) :=
  (n.entries .full).map fun ns => (ns.filter isCall).map Node.id

/-- A string that holds one field and nothing else. What is part of a larger formatted string, or
of the format of a field, is remembered and left alone. -/
def singleField (_ : Env) (notes : Notes) (n : Node) : Except Fault (List Finding × Notes) :=
  if notes.seen.contains n.id then .ok ([], notes)
  else
    match n with
    | ⟨_, .call callee args _⟩ =>
      match callee.template?, args with
      | some .join, [⟨⟨_, .list items⟩, _, _⟩] => do
        let ids ← items.mapM callsIn
        return ([], { notes with seen := ids.flatten ++ notes.seen })
      | some .field, [⟨value, _, _⟩, ⟨spec, _, _⟩] =>
        match spec with
        | ⟨_, .str ""⟩ =>
          if isConversion value then .ok ([], notes)
          else
            let text := value.sourceText
            .ok ([replace n ("f\"" ++ field text ++ "\"") ("str(" ++ text ++ ")")], notes)
        | _ => (callsIn spec).map fun ids => ([], { notes with seen := ids ++ notes.seen })
      | _, _ => .ok ([], notes)
    | _ => .ok ([], notes)

end IdiomLint.Rules.Interpolation
