/-! The fewest decimal digits that read back as a given binary number. -/
namespace IdiomLint.Decimal

/-- A positive binary number `mantissa * 2 ^ exponent`. `narrow` says that the next smaller number
is only half as far away as the next larger one. -/
structure Binary where
  mantissa : Nat
  exponent : Int
  narrow : Bool
deriving DecidableEq

/-- The number of values that the 52 bits of a fraction have. -/
def fractionSize : Nat := 0x10000000000000

/-- The number of values that the 11 bits of an exponent have. -/
def exponentSize : Nat := 0x800

/-- The highest of 64 bits. -/
def signBit : Nat := 0x8000000000000000

/-- The magnitude of a finite number of 64 bits. -/
def Binary.ofBits (bits : Nat) : Binary :=
  let fraction : Nat := bits % fractionSize
  let e : Nat := bits / fractionSize % exponentSize
  if e = 0 then ⟨fraction, -1074, false⟩
  else ⟨fraction + fractionSize, (e : Int) - 1075, fraction = 0 && e > 1⟩

/-- Digits and the power of ten they are multiplied by. -/
structure Digits where
  digits : Nat
  exponent : Int
deriving DecidableEq

def power (base : Nat) (e : Int) : Nat := Nat.pow base e.toNat

/-- Numerator and denominator of `n * 2 ^ e2 / 10 ^ e10`. -/
def ratio (n : Nat) (e2 e10 : Int) : Nat × Nat :=
  (n * power 2 e2 * power 10 (-e10), power 2 (-e2) * power 10 e10)

def decimalLength (n : Nat) : Nat := (Nat.toDigits 10 n).length

/-- The largest `p` with `10 ^ p` not above the number; the first guess is at most one too small. -/
def magnitude (b : Binary) : Int :=
  let guess : Int :=
    if b.exponent ≥ 0 then decimalLength (b.mantissa * power 2 b.exponent) - 1
    else
      let shift := power 2 (-b.exponent)
      if shift ≤ b.mantissa then decimalLength (b.mantissa / shift) - 1
      else -(decimalLength (shift / b.mantissa) : Int)
  let r := ratio b.mantissa b.exponent (guess + 1)
  if r.2 ≤ r.1 then guess + 1 else guess

/-- Whether `c * 10 ^ k` rounds to the number. -/
def readsBack (b : Binary) (k : Int) (c : Nat) : Bool :=
  let lower := ratio (4 * b.mantissa - (if b.narrow then 1 else 2)) (b.exponent - 2) k
  let upper := ratio (4 * b.mantissa + 2) (b.exponent - 2) k
  if b.mantissa % 2 = 0 then lower.1 ≤ c * lower.2 && c * upper.2 ≤ upper.1
  else lower.1 < c * lower.2 && c * upper.2 < upper.1

/-- The nearest of the number's two neighbours on the grid of multiples of `10 ^ k` that reads
back; of two equally near ones the even one. -/
def onGrid (b : Binary) (k : Int) : Option Nat :=
  let r := ratio b.mantissa b.exponent k
  let below := r.1 / r.2
  match readsBack b k below, readsBack b k (below + 1) with
  | false, false => none
  | true, false => some below
  | false, true => some (below + 1)
  | true, true =>
    let twice := 2 * (r.1 - below * r.2)
    if twice < r.2 || (twice = r.2 && below % 2 = 0) then some below else some (below + 1)

def dropZeros : Nat → Digits → Digits
  | 0, d => d
  | fuel + 1, d =>
    if d.digits ≠ 0 && d.digits % 10 = 0 then dropZeros fuel ⟨d.digits / 10, d.exponent + 1⟩ else d

/-- Digit counts that are tried; seventeen digits always read back. -/
def digitCounts : List Nat := (List.range 17).map (· + 1)

def shortest (b : Binary) : Digits :=
  let p := magnitude b
  match digitCounts.findSome? fun (n : Nat) =>
      (onGrid b (p - n + 1)).map fun c => Digits.mk c (p - n + 1) with
  | some d => dropZeros 20 d
  | none => ⟨0, 0⟩

/-- A number is written positionally if its first digit stands for at least `10 ^ -4` and less than
`10 ^ 16`, with at least one digit after the point, and otherwise with an exponent of at least two
digits. -/
def Digits.text (d : Digits) : String :=
  let ds := Nat.toDigits 10 d.digits
  let point := d.exponent + ds.length
  if -4 < point && point ≤ 16 then
    if point ≤ 0 then String.ofList ('0' :: '.' :: List.replicate (-point).toNat '0' ++ ds)
    else if ds.length ≤ point.toNat then
      String.ofList (ds ++ List.replicate (point.toNat - ds.length) '0' ++ ['.', '0'])
    else String.ofList (ds.take point.toNat ++ '.' :: ds.drop point.toNat)
  else
    let e := (point - 1).natAbs
    let sign := if point - 1 < 0 then "-" else "+"
    let places := if e < 10 then "0" ++ toString e else toString e
    let fraction := if ds.length ≤ 1 then [] else '.' :: ds.drop 1
    String.ofList (ds.take 1 ++ fraction) ++ "e" ++ sign ++ places

/-- A number of 64 bits as text, with the fewest digits that read back. -/
def text (x : Float) : String :=
  let bits := x.toBits.toNat
  let magnitudeBits := bits % signBit
  let sign := if signBit ≤ bits then "-" else ""
  if x.isNaN then "nan"
  else if x.isInf then sign ++ "inf"
  else if magnitudeBits = 0 then sign ++ "0.0"
  else sign ++ (shortest (Binary.ofBits magnitudeBits)).text

/-- The number of 64 bits nearest to `digits * 10 ^ exponent`. -/
def toFloat (digits : Nat) (exponent : Int) : Float :=
  let size := exponent + decimalLength digits
  if digits = 0 || size < -400 then 0.0
  else if size > 400 then 1.0 / 0.0
  else Float.ofScientific digits (exponent < 0) exponent.natAbs

end IdiomLint.Decimal
