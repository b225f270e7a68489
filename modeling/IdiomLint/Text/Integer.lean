import IdiomLint.Text.Digit
import IdiomLint.Text.Quoted

/-! Whole numbers in text: blanks around an optional sign and digits of any script, which single
underscores may group. Numbers with very many digits are neither read nor written. -/
namespace IdiomLint.Text

/-- Blanks that may stand around a number; the separators below the space may not. -/
def isNumberBlank (c : Char) : Bool := isBlank c && !(28 ≤ c.toNat && c.toNat ≤ 31)

/-- No number has more digits than this. -/
def maxDigits : Nat := 4300

/-- Why a number is not read or not written. -/
inductive NumberError where
  | malformed (text : String)
  | tooManyDigits (count : Nat)
  /-- A number is too large to be written. -/
  | tooLarge
deriving DecidableEq

namespace NumberError

/-- Of a malformed text no more is shown than this. -/
def shownLength : Nat := 200

def limit : String :=
  "Exceeds the limit (" ++ toString maxDigits ++ " digits) for integer string conversion"

def advice : String := "; use sys.set_int_max_str_digits() to increase the limit"

def message : NumberError → String
  | malformed text => "invalid literal for int() with base 10: " ++
      String.ofList ((quoted text).toList.take shownLength)
  | tooManyDigits n => limit ++ ": value has " ++ toString n ++ " digits" ++ advice
  | tooLarge => limit ++ advice

end NumberError

/-- The digits at the front of a text, without the underscores that stand between two of them, and
what follows. -/
def digitRun : List Char → List Nat × List Char
  | [] => ([], [])
  | c :: '_' :: rest =>
    match digitValue? c with
    | none => ([], c :: '_' :: rest)
    | some d =>
      let r := digitRun rest
      if r.1.isEmpty then ([d], '_' :: rest) else (d :: r.1, r.2)
  | c :: rest =>
    match digitValue? c with
    | none => ([], c :: rest)
    | some d =>
      let r := digitRun rest
      (d :: r.1, r.2)

/-- The number whose digits are the whole of `cs`, a part of `text`. A misplaced underscore behind
the digits counts before their number does, and anything else after it. -/
def readDigits (text : String) (cs : List Char) : Except NumberError Nat :=
  let (ds, rest) := digitRun cs
  if rest.head? == some '_' then .error (.malformed text)
  else if maxDigits < ds.length then .error (.tooManyDigits ds.length)
  else if ds.isEmpty || !rest.isEmpty then .error (.malformed text)
  else .ok (digitsValue ds)

def readInt (s : String) : Except NumberError Int :=
  match trimBy isNumberBlank s.toList with
  | '-' :: cs => (readDigits s cs).map fun n => -(n : Int)
  | '+' :: cs => (readDigits s cs).map fun n => (n : Int)
  | cs => (readDigits s cs).map fun n => (n : Int)

/-- Whether a number has few enough digits to be written. -/
def isWritable (n : Int) : Bool := n.natAbs < Nat.pow 10 maxDigits

end IdiomLint.Text
