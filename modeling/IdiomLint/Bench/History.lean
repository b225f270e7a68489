import IdiomLint.Json.Number
import IdiomLint.Json.Parse
import IdiomLint.Text.Lines

/-! The record of earlier rounds, one JSON document a line. -/
namespace IdiomLint.Bench

/-- The lines of a record that are not blank. -/
def recordLines (text : String) : List String :=
  (Text.lines text).filter fun l => !(Text.trim l).isEmpty

/-- The documents of the lines; nothing if one of them is none. -/
def records? (lines : List String) : Option (List Json) := lines.mapM Json.parse

/-- A whole number; truth values count as numbers. -/
def count? : Json → Option Int
  | .bool b => some (if b then 1 else 0)
  | j => j.int?

/-- The numbers of slow benchmarks in earlier rounds, where they are known. -/
def belowCounts (records : List Json) : List Int :=
  records.filterMap fun r => count? (r.field "n_below_repo_time")

/-- The place of the first of the smallest numbers, and that number. -/
def best? : List Int → Option (Nat × Int)
  | [] => none
  | n :: ns =>
    match best? ns with
    | some (i, m) => if m < n then some (i + 1, m) else some (0, n)
    | none => some (0, n)

/-- Rounds without improvement after which it is time to stop. -/
def patience : Nat := 3

def stopMessage? (counts : List Int) : Option String := do
  let (i, best) ← best? counts
  let idle := counts.length - 1 - i
  if patience ≤ idle then
    some ("\n>>> STOP: repo_time converged (no improvement in " ++ toString idle
      ++ " rounds; best " ++ toString best ++ " below). Finalize microbench.py now. <<<\n")
  else none

end IdiomLint.Bench
