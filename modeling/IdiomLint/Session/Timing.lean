import IdiomLint.Decimal.Round
import IdiomLint.Json.Print
import IdiomLint.Text.Integer
import IdiomLint.Text.Lines

/-! How long a run took, as a document. -/
namespace IdiomLint

inductive TimingError where
  /-- A line is not a module and a number. -/
  | malformedLine
  | badNumber (error : Text.NumberError)
  /-- A time is no number, so it has no whole part. -/
  | undefined
  | infinite
deriving DecidableEq

def TimingError.message : TimingError → String
  | malformedLine => ""
  | badNumber e => e.message
  | undefined => "cannot convert float NaN to integer"
  | infinite => "cannot convert float infinity to integer"

/-- Times in milliseconds by module. -/
abbrev Times := List (String × Int)

namespace Times

/-- A module that is there already keeps its place. -/
def put (ts : Times) (module : String) (time : Int) : Times :=
  if ts.any fun e => e.1 == module then
    ts.map fun e => if e.1 == module then (module, time) else e
  else ts ++ [(module, time)]

/-- A line with a module and its time in microseconds. -/
def addLine (ts : Times) (line : String) : Except TimingError Times :=
  match Text.words line with
  | [module, micros] =>
    match Text.readInt micros with
    | .ok n => .ok (ts.put module (n.fdiv 1000))
    | .error e => .error (.badNumber e)
  | _ => .error .malformedLine

def ofLines (lines : List String) : Except TimingError Times := lines.foldlM addLine []

/-- The longest times first; equal ones stay in order. -/
def toJson (ts : Times) : Json :=
  .object ((ts.mergeSort fun a b => a.2 ≥ b.2).map fun e => (e.1, Json.int e.2))

end Times

/-- The time between two readings of a clock in seconds, in whole milliseconds. -/
def milliseconds (start stop : Float) : Except TimingError Int :=
  let time := (stop - start) * 1000.0
  if time.isNaN then .error .undefined
  else if time.isInf then .error .infinite
  else .ok (Decimal.truncate time)

def timingDocument (total : Int) (parsing checking : Times) : String :=
  (Json.object [
    ("mypy_total_time_spent_in_ms", Json.int total),
    ("mypy_time_spent_parsing_modules_in_ms", parsing.toJson),
    ("refurb_time_spent_checking_file_in_ms", checking.toJson)]).print .compact

end IdiomLint
