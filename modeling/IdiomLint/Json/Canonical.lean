import IdiomLint.Json.Number

/-! Documents with their numbers in the form in which they are written again. -/
namespace IdiomLint.Json

/-- A number with a fraction or an exponent in the fewest digits that read back, any other one as a
whole number. -/
def canonicalNumber (t : String) : String :=
  if isFractional t then Decimal.text (float (.number t)) else toString (intOr 0 (.number t))

mutual

def canonical : Json → Json
  | .number t => .number (canonicalNumber t)
  | .array xs => .array (canonicalAll xs)
  | .object ms => .object (canonicalMembers ms)
  | j => j

def canonicalAll : List Json → List Json
  | [] => []
  | x :: xs => canonical x :: canonicalAll xs

def canonicalMembers : List (String × Json) → List (String × Json)
  | [] => []
  | (k, v) :: ms => (k, canonical v) :: canonicalMembers ms

end

end IdiomLint.Json
