import IdiomLint.Bench.Suite
import IdiomLint.Decimal.Round
import IdiomLint.Json.Canonical
import IdiomLint.Json.Parse
import IdiomLint.Json.Print

/-! Running all benchmarks while it is recorded which lines they reach. -/
namespace IdiomLint.Bench

/-- What is recorded, and where the report goes. -/
structure Recording where
  /-- The directory whose files count, seen from the working directory. -/
  source : Path
  report : String
  /-- Patterns of files that do not count. -/
  omitted : Json

/-- The arguments are the directory, one that is not used here, the file for the report and the
patterns as a document. -/
def Recording.ofArguments (cwd : Path) (args : List String) : Recording :=
  { source := cwd.wayFrom (cwd.resolve [] (Path.ofText (args.getD 0 "")))
    report := args.getD 2 ""
    omitted := (Json.parse (args.getD 3 "[]")).getD .null }

structure CoverageRun where
  /-- Errors by benchmark; importing the module counts as one. -/
  errors : List (String × String)
  count : Nat

/-- Calls every benchmark once. Nothing interrupts a slow one. -/
def callOnce (b : Benchmark) : Option String :=
  match { b with timesOut := false }.call 0 with
  | .error (.raised e) => some e.text
  | _ => none

def coverageRun (suite : Suite) : CoverageRun :=
  match suite with
  | .error e => ⟨[("<import>", e.text)], 0⟩
  | .ok functions =>
    let bs := benchmarks functions
    ⟨bs.filterMap fun b => (callOnce b).map fun t => (b.name, t), bs.length⟩

/-- Sets a member of an object, in its place if it is there already. -/
def setMember (name : String) (value : Json) (j : Json) : Json := .object (put j.members name value)

/-- The report with what the run has found put into its `meta` member. -/
def CoverageRun.annotate (r : CoverageRun) (report : Json) : Json :=
  let errors := Json.object (r.errors.map fun e => (e.1, Json.string e.2))
  let marked := setMember "_pti_n_benches" (Json.nat r.count)
    (setMember "_pti_bench_errors" errors (report.field "meta"))
  setMember "meta" marked report

def CoverageRun.summary (r : CoverageRun) (report : Json) : String :=
  let totals := report.field "totals"
  "coverage: " ++ Decimal.fixed 1 (totals.field "percent_covered").float ++ "% ("
    ++ toString ((totals.field "covered_lines").intOr 0) ++ "/"
    ++ toString ((totals.field "num_statements").intOr 0) ++ " stmts, "
    ++ toString r.count ++ " benches, " ++ toString r.errors.length ++ " errors)\n"

/-- What is printed and the report as it is left; nothing if no report was written. -/
def coverage (suite : Suite) : Json → Option (String × String)
  | .null => none
  | report =>
    let r := coverageRun suite
    some (r.summary report, ((r.annotate report).canonical).print .spaced)

end IdiomLint.Bench
