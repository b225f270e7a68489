import IdiomLint.Decimal.Shortest

/-! Binary numbers rounded to decimal places. The exact value is rounded, and a tie goes to the
even digit. The whole part is taken without rounding. -/
namespace IdiomLint.Decimal

/-- A quotient rounded to the nearest whole number. -/
def roundDiv (n d : Nat) : Nat :=
  let below := n / d
  let twice := 2 * (n % d)
  if twice < d || (twice = d && below % 2 = 0) then below else below + 1

/-- The number of units of `10 ^ -places` in a magnitude. -/
def units (places : Nat) (b : Binary) : Nat :=
  let r := ratio b.mantissa b.exponent (-(places : Int))
  roundDiv r.1 r.2

def isNegative (x : Float) : Bool := signBit ≤ x.toBits.toNat

def magnitudeOf (x : Float) : Binary := Binary.ofBits (x.toBits.toNat % signBit)

/-- A whole number of units with a point before its last places. -/
def withPoint (places n : Nat) : String :=
  let ds := Nat.toDigits 10 n
  let ds := List.replicate (places + 1 - ds.length) '0' ++ ds
  let whole := ds.take (ds.length - places)
  if places = 0 then String.ofList whole
  else String.ofList (whole ++ '.' :: ds.drop (ds.length - places))

/-- A number with a fixed count of places. -/
def fixed (places : Nat) (x : Float) : String :=
  if x.isNaN then "nan"
  else
    let sign := if isNegative x then "-" else ""
    if x.isInf then sign ++ "inf" else sign ++ withPoint places (units places (magnitudeOf x))

/-- The number nearest to a number rounded to decimal places. -/
def round (places : Nat) (x : Float) : Float :=
  if x.isNaN || x.isInf then x
  else
    let y := toFloat (units places (magnitudeOf x)) (-(places : Int))
    if isNegative x then -y else y

def Binary.whole (b : Binary) : Nat :=
  if 0 ≤ b.exponent then b.mantissa * power 2 b.exponent else b.mantissa / power 2 (-b.exponent)

/-- A finite number without its fraction. -/
def truncate (x : Float) : Int :=
  let bits := x.toBits.toNat
  let n := (Binary.ofBits (bits % signBit)).whole
  if signBit ≤ bits then -(n : Int) else n

end IdiomLint.Decimal
