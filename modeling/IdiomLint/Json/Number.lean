import IdiomLint.Decimal.Shortest
import IdiomLint.Json.Value

/-! The values of numbers, which are kept as they are written. -/
namespace IdiomLint.Json

/-- An exponent with its sign. -/
def exponent? (cs : List Char) : Option Int :=
  match cs with
  | '-' :: ds => (natOfDigits? ds).map fun n => -(n : Int)
  | '+' :: ds => (natOfDigits? ds).map fun n => (n : Int)
  | ds => (natOfDigits? ds).map fun n => (n : Int)

/-- The digits and the power of ten of a number without its sign. -/
def scientific? (cs : List Char) : Option (Nat × Int) := do
  let mantissa := cs.takeWhile fun c => c != 'e' && c != 'E'
  let whole := mantissa.takeWhile (· != '.')
  let fraction := (mantissa.drop whole.length).drop 1
  let digits ← natOfDigits? (whole ++ fraction)
  let exponent ← match cs.drop mantissa.length with
    | [] => some 0
    | _ :: es => exponent? es
  return (digits, exponent - fraction.length)

/-- The number of 64 bits that is nearest to what is written. -/
def float? : Json → Option Float
  | .number t =>
    match t.toList with
    | '-' :: cs => (scientific? cs).map fun (d, e) => -(Decimal.toFloat d e)
    | cs => (scientific? cs).map fun (d, e) => Decimal.toFloat d e
  | _ => none

def float (j : Json) : Float := j.float?.getD 0.0

end IdiomLint.Json
