import IdiomLint.Check.Env
import IdiomLint.Check.Finding
import IdiomLint.Syntax.SourceText

/-! Numbers: bits, bases, logarithms, constants and decimals. -/
namespace IdiomLint.Rules.Numbers

open Finding

/-- The digits behind the mark of the base: `x[2:]`. -/
def withoutBaseMark? : Node → Option Node
  | ⟨_, .index base ⟨_, .slice (some ⟨_, .int 2⟩) none none⟩ _ _⟩ => some base
  | _ => none

/-- The argument of a conversion to binary digits. -/
def binaryOf? : Node → Option Node
  | ⟨_, .call callee [⟨arg, _, _⟩] _⟩ =>
    if callee.isNameOf "builtins.bin" then some arg else none
  | _ => none

/-- Whether a method can be called on a node without parentheses around it. -/
def isAtomic : Node → Bool
  | ⟨_, .int _⟩ => true
  | ⟨_, .name ..⟩ => true
  | ⟨_, .member ..⟩ => true
  | ⟨_, .call ..⟩ => true
  | ⟨_, .index ..⟩ => true
  | _ => false

def bitCount (env : Env) : Node → List Finding
  | n@⟨_, .call ⟨_, .member base ref⟩ [⟨⟨_, .str one⟩, _, _⟩] _⟩ =>
    if env.version.atLeast 3 10 && ref.name == "count" && one == "1" then
      let sliced := withoutBaseMark? base
      match binaryOf? (sliced.getD base) with
      | none => []
      | some arg =>
        let old := if sliced.isSome then "bin(x)[2:]" else "bin(x)"
        let x := if isAtomic arg then "x" else "(x)"
        [replace n (old ++ ".count(\"1\")") (x ++ ".bit_count()")]
    else []
  | _ => []

def baseZero (_ : Env) : Node → List Finding
  | n@⟨_, .call callee [⟨digits, _, _⟩, ⟨⟨_, .int base⟩, kind, name⟩] _⟩ =>
    match withoutBaseMark? digits with
    | none => []
    | some text =>
      if callee.refersTo "builtins.int" && (base == 2 || base == 8 || base == 16)
          && (name == none || name == some "base") then
        let keyword := if kind == .named then "base=" else ""
        let shown := text.sourceText
        [replace n ("int(" ++ shown ++ "[2:], " ++ keyword ++ toString base ++ ")")
          ("int(" ++ shown ++ ", " ++ keyword ++ "0)")]
      else []
  | _ => []

/-- A base that has a logarithm of its own: how it is written and what to call. -/
def logarithm? : Node → Option (String × String)
  | ⟨_, .int base⟩ =>
    if base == 2 || base == 10 then some (toString base, "math.log" ++ toString base ++ "(x)")
    else none
  | ⟨_, .float text⟩ =>
    if text == "2.0" then some (text, "math.log2(x)")
    else if text == "10.0" then some (text, "math.log10(x)")
    else none
  | n => if n.refersTo "math.e" then some ("math.e", "math.log(x)") else none

def logarithmBase (_ : Env) : Node → List Finding
  | n@⟨_, .call callee [_, ⟨base, _, _⟩] _⟩ =>
    if callee.refersTo "math.log" then
      match logarithm? base with
      | some (written, new) => [replace n ("math.log(x, " ++ written ++ ")") new]
      | none => []
    else []
  | _ => []

def constants : List (String × String) := [("pi", "3.14"), ("e", "2.71"), ("tau", "6.28")]

def constant (_ : Env) : Node → List Finding
  | n@⟨_, .float text⟩ =>
    if text.length ≤ 3 then []
    else
      (constants.filter fun c => c.2.toList.isPrefixOf text.toList).map fun c =>
        replace n text ("math." ++ c.1)
  | _ => []

def dropLeading (c : Char) (s : String) : String := String.ofList (s.toList.dropWhile (· == c))

/-- The number that a text for a decimal is written as, if the text is a whole number: no plus and,
unless the number is zero, no zeros in front. -/
def wholeDecimal? (text : String) : Option String :=
  (Text.readInt text).toOption.map fun value =>
    let plain := dropLeading '+' (Text.trim text)
    if value == 0 then plain else dropLeading '0' plain

/-- Names of numbers that no literal has. -/
def specialNumbers : List String := ["inf", "-inf", "infinity", "-infinity", "nan"]

def decimalConstructor (_ : Env) : Node → List Finding
  | n@⟨_, .call callee [⟨arg, _, _⟩] _⟩ =>
    if callee.refersTo "_decimal.Decimal" then
      let f := if callee.isMember then "decimal.Decimal" else "Decimal"
      match arg with
      | ⟨_, .str text⟩ =>
        match wholeDecimal? text with
        | some new =>
          let old := String.ofList (Text.quotedBody text.toList)
          [replace n (f ++ "(\"" ++ old ++ "\")") (f ++ "(" ++ new ++ ")")]
        | none => []
      | ⟨_, .call inner [⟨⟨_, .str text⟩, _, _⟩] _⟩ =>
        if inner.isNameOf "builtins.float" && specialNumbers.contains text.toLower then
          [replace n (f ++ "(float(\"" ++ text ++ "\"))") (f ++ "(\"" ++ text ++ "\")")]
        else []
      | _ => []
    else []
  | _ => []

/-- Constructors that a class's own constructor makes superfluous. -/
def conversionConstructors : List String :=
  ["_decimal.Decimal.from_float", "fractions.Fraction.from_float",
    "fractions.Fraction.from_decimal"]

def conversionConstructor (_ : Env) : Node → List Finding
  | n@⟨_, .call ⟨_, .member base method⟩ [⟨arg, _, _⟩] _⟩ =>
    match base.ref? with
    | none => []
    | some ref =>
      if conversionConstructors.contains (ref.fullname ++ "." ++ method.name) then
        let cls := base.sourceText
        let value := arg.sourceText
        [replace n (cls ++ "." ++ method.name ++ "(" ++ value ++ ")") (cls ++ "(" ++ value ++ ")")]
      else []
  | _ => []

end IdiomLint.Rules.Numbers
