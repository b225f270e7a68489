import IdiomLint.Json.Number
import IdiomLint.Path

/-! Values that benchmarks return and take as parameters. -/
namespace IdiomLint.Bench

inductive Value where
  | none
  | bool (value : Bool)
  | int (value : Int)
  | float (value : Float)
  | complex (re im : Float)
  | str (text : String)
  | bytes (isMutable : Bool) (bytes : List UInt8)
  | list (items : List Value)
  | tuple (items : List Value)
  | set (items : List Value)
  | dict (entries : List (Value × Value))
  | date (year month day : Nat)
  | decimal (text : String)
  | fraction (numerator : Int) (denominator : Nat)
  | path (text : String)
  | uuid (hex : String)
  /-- Fields by their names, of a class of their own. -/
  | record (fields : List (String × Value))
  /-- Something of a class of which only the name is known. -/
  | object (className : String)
deriving Inhabited

namespace Value

def typeName : Value → String
  | none => "NoneType"
  | bool _ => "bool"
  | int _ => "int"
  | float _ => "float"
  | complex _ _ => "complex"
  | str _ => "str"
  | bytes false _ => "bytes"
  | bytes true _ => "bytearray"
  | list _ => "list"
  | tuple _ => "tuple"
  | set _ => "set"
  | dict _ => "dict"
  | date _ _ _ => "date"
  | decimal _ => "Decimal"
  | fraction _ _ => "Fraction"
  | path _ => "PurePosixPath"
  | uuid _ => "UUID"
  | record _ => "R"
  | object name => name

def boolText (b : Bool) : String := if b then "True" else "False"

/-- A part of a complex number, without the fraction of a whole number. -/
def partText (x : Float) : String :=
  let t := Decimal.text x
  if ".0".toList.isSuffixOf t.toList then String.ofList (t.toList.take (t.length - 2)) else t

def complexText (re im : Float) : String :=
  let imText := partText im ++ "j"
  if re == 0.0 && 1.0 / re > 0.0 then imText
  else
    let sign := if "-".toList.isPrefixOf imText.toList then "" else "+"
    "(" ++ partText re ++ sign ++ imText ++ ")"

def byteText (quote : Char) (b : UInt8) : List Char :=
  let c := Char.ofNat b.toNat
  if c = quote || c = '\\' then ['\\', c]
  else if c = '\n' then ['\\', 'n']
  else if c = '\r' then ['\\', 'r']
  else if c = '\t' then ['\\', 't']
  else if 32 ≤ b.toNat && b.toNat < 127 then [c]
  else '\\' :: 'x' :: Text.hexPadded 2 b.toNat

def bytesText (bs : List UInt8) : String :=
  let cs := bs.map fun b => Char.ofNat b.toNat
  let quote := if cs.contains '\x27' && !cs.contains '"' then '"' else '\x27'
  String.ofList ('b' :: quote :: bs.flatMap (byteText quote) ++ [quote])

def padded (width n : Nat) : String :=
  let t := toString n
  String.ofList (List.replicate (width - t.length) '0') ++ t

/-- The digits of an identifier in groups. -/
def uuidText (hex : String) : String :=
  let ds := hex.toList.filter (· != '-')
  let group (start len : Nat) := String.ofList ((ds.drop start).take len)
  "-".intercalate [group 0 8, group 8 4, group 12 4, group 16 4, group 20 12]

mutual

/-- A value as it is written in a program. -/
def literal : Value → String
  | none => "None"
  | bool b => boolText b
  | int n => toString n
  | float x => Decimal.text x
  | complex re im => complexText re im
  | str s => Text.quoted s
  | bytes false bs => bytesText bs
  | bytes true bs => "bytearray(" ++ bytesText bs ++ ")"
  | list items => "[" ++ ", ".intercalate (literals items) ++ "]"
  | tuple [item] => "(" ++ literal item ++ ",)"
  | tuple items => "(" ++ ", ".intercalate (literals items) ++ ")"
  | set [] => "set()"
  | set items => "\x7b" ++ ", ".intercalate (literals items) ++ "\x7d"
  | dict entries => "\x7b" ++ ", ".intercalate (entryLiterals entries) ++ "\x7d"
  | date y m d => "datetime.date(" ++ toString y ++ ", " ++ toString m ++ ", " ++ toString d ++ ")"
  | decimal t => "Decimal('" ++ t ++ "')"
  | fraction n d => "Fraction(" ++ toString n ++ ", " ++ toString d ++ ")"
  | path t => "PurePosixPath(" ++ Text.quoted (Path.ofText t).toText ++ ")"
  | uuid hex => "UUID('" ++ uuidText hex ++ "')"
  | record fields => "R(" ++ ", ".intercalate (fieldLiterals fields) ++ ")"
  | object name => "<microbench." ++ name ++ " object>"

def literals : List Value → List String
  | [] => []
  | v :: vs => literal v :: literals vs

def entryLiterals : List (Value × Value) → List String
  | [] => []
  | (k, v) :: es => (literal k ++ ": " ++ literal v) :: entryLiterals es

def fieldLiterals : List (String × Value) → List String
  | [] => []
  | (k, v) :: fs => (k ++ "=" ++ literal v) :: fieldLiterals fs

end

/-- A set of values: each of them once, in the order of their literals. -/
def setOf (items : List Value) : Value :=
  .set ((items.eraseDupsBy fun a b => a.literal == b.literal).mergeSort
    fun a b => a.literal ≤ b.literal)

/-- A value as it is shown to a reader. -/
def text : Value → String
  | str s => s
  | date y m d => padded 4 y ++ "-" ++ padded 2 m ++ "-" ++ padded 2 d
  | decimal t => t
  | fraction n d => if d = 1 then toString n else toString n ++ "/" ++ toString d
  | path t => (Path.ofText t).toText
  | uuid hex => uuidText hex
  | v => v.literal

end Value

end IdiomLint.Bench
