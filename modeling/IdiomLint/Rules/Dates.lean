import IdiomLint.Check.Env
import IdiomLint.Check.Finding
import IdiomLint.Syntax.SourceText

/-! Dates and times. -/
namespace IdiomLint.Rules.Dates

open Finding

def isSign (c : Char) : Bool := c == '+' || c == '-'

/-- Whether a text is an offset of no hours from universal time. -/
def isZeroOffset (zone : String) : Bool :=
  (zone.toList.head?.map isSign).getD false
    && ["00:00", "0000", "00"].contains (String.ofList (Text.trimBy isSign zone.toList))

/-- A date whose mark for universal time is turned into an offset: the date, the offset and how the
change is written with `x` for the date. -/
def offsetChange? : Node → Option (Node × String × String)
  | ⟨_, .call ⟨_, .member date ref⟩ [⟨⟨_, .str mark⟩, _, _⟩, ⟨⟨_, .str zone⟩, _, _⟩] _⟩ =>
    if ref.name == "replace" && mark == "Z" then
      some (date, zone, "x.replace(\"Z\", \"" ++ zone ++ "\")")
    else none
  | ⟨_, .binary .add ⟨_, .index date
      ⟨_, .slice none (some ⟨_, .unary .neg ⟨_, .int 1⟩ _⟩) none⟩ _ _⟩ ⟨_, .str zone⟩ _ _⟩ =>
    some (date, zone, "x[:-1] + \"" ++ zone ++ "\"")
  | ⟨_, .binary .add ⟨_, .call ⟨_, .member date ref⟩ [⟨⟨_, .str mark⟩, _, _⟩] _⟩
      ⟨_, .str zone⟩ _ _⟩ =>
    if (ref.name == "strip" || ref.name == "rstrip") && mark == "Z" then
      some (date, zone, "x." ++ ref.name ++ "(\"Z\") + \"" ++ zone ++ "\"")
    else none
  | _ => none

def isoFormat (env : Env) : Node → List Finding
  | n@⟨_, .call callee@⟨_, .member base ref⟩ [⟨arg, _, _⟩] _⟩ =>
    if env.version.atLeast 3 11 && ref.name == "fromisoformat"
        && base.refersTo "datetime.datetime" then
      match offsetChange? arg with
      | none => []
      | some (date, zone, written) =>
        if env.isText date && isZeroOffset zone then
          let f := callee.sourceText
          [replace n (f ++ "(" ++ written ++ ")") (f ++ "(x)")]
        else []
    else []
  | _ => []

/-- Functions that give a time without a zone: their arguments and what to call instead. -/
def zoneless : List (String × String × String) :=
  [("utcnow", "()", "now(tz=timezone.utc)"),
    ("utcfromtimestamp", "(...)", "fromtimestamp(..., tz=timezone.utc)")]

def universalTime (_ : Env) : Node → List Finding
  | n@⟨_, .call ⟨_, .member base ref⟩ _ _⟩ =>
    if base.refersTo "datetime.datetime" then
      match zoneless.lookup ref.name with
      | some (arguments, new) => [replace n (ref.name ++ arguments) new]
      | none => []
    else []
  | _ => []

end IdiomLint.Rules.Dates
