import IdiomLint.Path
import IdiomLint.Settings.Error

/-! What settings can name: a single check by its code, or all checks of a category; in either
case everywhere or only below a path. -/
namespace IdiomLint

structure Code where
  series : String
  number : Nat
deriving DecidableEq, Inhabited

namespace Code

/-- The series of the checks that come with the program. -/
def homeSeries : String := "FURB"

def toText (c : Code) : String := c.series ++ toString c.number

def isCapital (c : Char) : Bool := 'A' ≤ c && c ≤ 'Z'

def ofDigits? (series : String) (digits : List Char) : Option Code :=
  if digits.length = 3 && digits.all Text.isDigit then
    some ⟨series, Text.digitsValue (digits.filterMap Text.digitValue?)⟩
  else none

/-- Three digits, or three or four capitals and three digits; a line break may follow. -/
def ofText? (s : String) : Option Code :=
  let cs := match s.toList.reverse with
    | '\n' :: rest => rest.reverse
    | _ => s.toList
  let letters := cs.takeWhile isCapital
  match letters.length with
  | 0 => ofDigits? homeSeries cs
  | 3 => ofDigits? (String.ofList letters) (cs.drop 3)
  | 4 => ofDigits? (String.ofList letters) (cs.drop 4)
  | _ => none

def ofText (s : String) : Except SettingsError Code :=
  match ofText? s with
  | some c => .ok c
  | none => .error (.badCode s)

end Code

inductive Classifier where
  | code (code : Code) (path : Option Path)
  | category (name : String) (path : Option Path)
deriving DecidableEq, Inhabited

namespace Classifier

def path : Classifier → Option Path
  | code _ p => p
  | category _ p => p

/-- A number sign stands before the name of a category. -/
def ofText (s : String) : Except SettingsError Classifier :=
  match s.toList with
  | '#' :: name => .ok (category (String.ofList name) none)
  | _ => (Code.ofText s).map fun c => code c none

def below (path : Path) : Classifier → Classifier
  | code c _ => code c (some path)
  | category n _ => category n (some path)

end Classifier

/-- A set of classifiers; only membership counts. -/
abbrev Selection := List Classifier

namespace Selection

def ofList (cs : List Classifier) : Selection := cs.eraseDups

def union (a b : Selection) : Selection := a ++ b.filter fun c => !a.contains c

def diff (a b : Selection) : Selection := a.filter fun c => !b.contains c

def meets (a b : Selection) : Bool := a.any b.contains

@[simp] theorem mem_ofList {c : Classifier} {cs : List Classifier} : c ∈ ofList cs ↔ c ∈ cs :=
  List.mem_eraseDups

@[simp] theorem mem_union {c : Classifier} {a b : Selection} :
    c ∈ a.union b ↔ c ∈ a ∨ c ∈ b := by
  by_cases h : c ∈ a <;> simp [union, h]

@[simp] theorem mem_diff {c : Classifier} {a b : Selection} :
    c ∈ a.diff b ↔ c ∈ a ∧ c ∉ b := by
  simp [diff]

end Selection

end IdiomLint
