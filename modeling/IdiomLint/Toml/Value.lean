import IdiomLint.Decimal.Shortest
import IdiomLint.Toml.Error

/-! TOML documents and the text of their values. -/
namespace IdiomLint.Toml

structure Date where
  year : Nat
  month : Nat
  day : Nat
deriving DecidableEq, Inhabited

structure Time where
  hour : Nat
  minute : Nat
  second : Nat
  micro : Nat
deriving DecidableEq, Inhabited

inductive Value where
  | string (text : String)
  | integer (value : Int)
  | float (value : Float)
  | bool (value : Bool)
  | date (date : Date)
  | time (time : Time)
  /-- A date with a time and, if given, the minutes by which it is ahead of universal time. -/
  | moment (date : Date) (time : Time) (offset : Option Int)
  | array (items : List Value)
  | table (members : List (String × Value))
deriving Inhabited

/-- Members in the order in which they were written. -/
abbrev Table := List (String × Value)

def padded (width n : Nat) : String :=
  let ds := Nat.toDigits 10 n
  String.ofList (List.replicate (width - ds.length) '0' ++ ds)

def Date.text (d : Date) : String :=
  padded 4 d.year ++ "-" ++ padded 2 d.month ++ "-" ++ padded 2 d.day

def Time.text (t : Time) : String :=
  padded 2 t.hour ++ ":" ++ padded 2 t.minute ++ ":" ++ padded 2 t.second ++
    (if t.micro = 0 then "" else "." ++ padded 6 t.micro)

def offsetText (minutes : Int) : String :=
  (if minutes < 0 then "-" else "+") ++ padded 2 (minutes.natAbs / 60) ++ ":" ++
    padded 2 (minutes.natAbs % 60)

def Date.fields (d : Date) : List String := [toString d.year, toString d.month, toString d.day]

/-- Hours and minutes always, seconds and microseconds as far as one is not zero. -/
def Time.fields (t : Time) : List String :=
  [toString t.hour, toString t.minute] ++
    (if t.micro ≠ 0 then [toString t.second, toString t.micro]
    else if t.second ≠ 0 then [toString t.second] else [])

/-- A zone as a span of days and seconds ahead of universal time. -/
def zoneLiteral (minutes : Int) : String :=
  if minutes = 0 then "datetime.timezone.utc"
  else
    let seconds := minutes * 60
    let span := if seconds < 0 then "days=-1, seconds=" ++ toString (seconds + 86400)
      else "seconds=" ++ toString seconds
    "datetime.timezone(datetime.timedelta(" ++ span ++ "))"

def commaSeparated (parts : List String) : String := ", ".intercalate parts

def boolText (b : Bool) : String := if b then "True" else "False"

mutual

/-- A value as it is written inside another. -/
def Value.literal : Value → String
  | .string s => Text.quoted s
  | .integer n => toString n
  | .float x => Decimal.text x
  | .bool b => boolText b
  | .date d => "datetime.date(" ++ commaSeparated d.fields ++ ")"
  | .time t => "datetime.time(" ++ commaSeparated t.fields ++ ")"
  | .moment d t offset =>
    "datetime.datetime(" ++ commaSeparated (d.fields ++ t.fields ++
      offset.toList.map fun o => "tzinfo=" ++ zoneLiteral o) ++ ")"
  | .array items => "[" ++ commaSeparated (literals items) ++ "]"
  | .table members => "\x7b" ++ commaSeparated (memberLiterals members) ++ "\x7d"

def literals : List Value → List String
  | [] => []
  | v :: vs => v.literal :: literals vs

def memberLiterals : List (String × Value) → List String
  | [] => []
  | (k, v) :: ms => (Text.quoted k ++ ": " ++ v.literal) :: memberLiterals ms

end

/-- A value as text of its own. -/
def Value.text : Value → String
  | .string s => s
  | .date d => d.text
  | .time t => t.text
  | .moment d t offset => d.text ++ " " ++ t.text ++ (offset.map offsetText).getD ""
  | v => v.literal

mutual

/-- What comes first of that which keeps a value from being written: a number that is too large, or
an array or table for which there is no room inside the others. -/
def Value.obstacle? (room : Nat) : Value → Option Refusal
  | .integer n => if Text.isWritable n then none else some (.badNumber .tooLarge)
  | .array items => if room = 0 then some .tooDeep else itemObstacle? (room - 1) items
  | .table members => if room = 0 then some .tooDeep else memberObstacle? (room - 1) members
  | _ => none

def itemObstacle? (room : Nat) : List Value → Option Refusal
  | [] => none
  | v :: vs => (v.obstacle? room).or (itemObstacle? room vs)

def memberObstacle? (room : Nat) : List (String × Value) → Option Refusal
  | [] => none
  | (_, v) :: ms => (v.obstacle? room).or (memberObstacle? room ms)

end

/-- How many calls fit inside each other where documents are read and values written: a thousand,
but for those that lead there. -/
def standardRoom : Nat := 980

/-- A value as text of its own. -/
def Value.write (v : Value) (room : Nat := standardRoom) : Except Refusal String :=
  match v.obstacle? room with
  | none => .ok v.text
  | some refusal => .error refusal

/-- Whether a value says something: an empty text, list or table, a zero and `false` do not. -/
def Value.isTruthy : Value → Bool
  | .string s => s != ""
  | .integer n => n != 0
  | .float x => x != 0.0
  | .bool b => b
  | .array items => !items.isEmpty
  | .table members => !members.isEmpty
  | _ => true

end IdiomLint.Toml
