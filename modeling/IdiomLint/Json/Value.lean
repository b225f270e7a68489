import IdiomLint.Text.Quoted

/-! JSON documents. Objects keep the order of their members, and numbers keep their text, so that
`1` and `1.0` stay different. -/
namespace IdiomLint

inductive Json where
  | null
  | bool (value : Bool)
  | number (text : String)
  | string (text : String)
  | array (items : List Json)
  | object (members : List (String × Json))
deriving Inhabited

namespace Json

def int (n : Int) : Json := .number (toString n)

def nat (n : Nat) : Json := .number (toString n)

/-- An optional document; `null` stands for none. -/
def opt {α : Type} (f : α → Json) : Option α → Json
  | none => .null
  | some a => f a

def field (name : String) : Json → Json
  | .object members => (members.lookup name).getD .null
  | _ => .null

def isNull : Json → Bool
  | .null => true
  | _ => false

def text? : Json → Option String
  | .string s => some s
  | _ => none

def text (j : Json) : String := j.text?.getD ""

def textOr (missing : String) (j : Json) : String := j.text?.getD missing

def flag? : Json → Option Bool
  | .bool b => some b
  | _ => none

def flag (j : Json) : Bool := j.flag?.getD false

def items : Json → List Json
  | .array xs => xs
  | _ => []

def members : Json → List (String × Json)
  | .object ms => ms
  | _ => []

/-- Whether a number is written with a fraction or an exponent. -/
def isFractional (text : String) : Bool := text.any fun c => c == '.' || c == 'e' || c == 'E'

def natOfDigits? (cs : List Char) : Option Nat :=
  if !cs.isEmpty && cs.all fun c => '0' ≤ c && c ≤ '9' then
    some (cs.foldl (fun n c => 10 * n + (c.toNat - '0'.toNat)) 0)
  else none

/-- The value of a number that is written without fraction and exponent. -/
def int? : Json → Option Int
  | .number t =>
    match t.toList with
    | '-' :: cs => (natOfDigits? cs).map fun n => -(n : Int)
    | cs => (natOfDigits? cs).map fun n => (n : Int)
  | _ => none

def intOr (missing : Int) (j : Json) : Int := j.int?.getD missing

end Json

end IdiomLint
