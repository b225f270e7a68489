import IdiomLint.Decimal.Round
import IdiomLint.Json.Number
import IdiomLint.Path

/-! The table of a coverage report: the files with the least coverage first. -/
namespace IdiomLint.Bench

structure CoverageRow where
  name : String
  percent : Float
  statements : Int
  missed : Int
  lines : List Int
deriving Inhabited

namespace CoverageRow

def maxNameLength : Nat := 60

def maxLines : Nat := 12

def maxRows : Nat := 120

/-- A file of the repository is shown by its way from there, as far as there is room. -/
def shownName (repo : Path) (file : String) : String :=
  let path := Path.ofText file
  let name := if path.root == .relative then file else (repo.wayFrom path).toText
  String.ofList (name.toList.take maxNameLength)

def ofReport (repo : Path) (file : String) (j : Json) : CoverageRow :=
  let summary := j.field "summary"
  { name := shownName repo file
    percent := (summary.field "percent_covered").float
    statements := (summary.field "num_statements").intOr 0
    missed := (summary.field "missing_lines").intOr 0
    lines := (j.field "missing_lines").items.map fun n => n.intOr 0 }

/-- Less coverage first, then more statements. -/
def before (a b : CoverageRow) : Bool :=
  if a.percent == b.percent then a.statements ≥ b.statements else a.percent ≤ b.percent

def padEnd (width : Nat) (s : String) : String :=
  s ++ String.ofList (List.replicate (width - s.length) ' ')

def padStart (width : Nat) (s : String) : String :=
  String.ofList (List.replicate (width - s.length) ' ') ++ s

/-- The columns before the lines. -/
def columns (width : Nat) (name : String) (statements missed : Int) (percent : Float) : String :=
  padEnd width name ++ "  " ++ padStart 5 (toString statements) ++ "  "
    ++ padStart 4 (toString missed) ++ "  " ++ padStart 4 (Decimal.fixed 0 percent) ++ "%"

def lineList (lines : List Int) : String :=
  ",".intercalate ((lines.take maxLines).map toString)
    ++ (if maxLines < lines.length then "…" else "")

def text (width : Nat) (r : CoverageRow) : String :=
  columns width r.name r.statements r.missed r.percent ++ "  " ++ lineList r.lines

end CoverageRow

def coverageRows (repo : Path) (report : Json) : List CoverageRow :=
  let rows := (report.field "files").members.map fun e => CoverageRow.ofReport repo e.1 e.2
  (rows.mergeSort CoverageRow.before).take CoverageRow.maxRows

/-- The lines of the table. -/
def coverageTable (repo : Path) (report : Json) : List String :=
  let rows := coverageRows repo report
  let width := rows.foldl (fun w r => max w r.name.length) "Name".length
  let rule := String.ofList (List.replicate (width + 42) '-')
  let totals := report.field "totals"
  let statements := (totals.field "num_statements").intOr 0
  let missed := statements - (totals.field "covered_lines").intOr 0
  [CoverageRow.padEnd width "Name" ++ "  Stmts  Miss  Cover  Missing", rule]
    ++ rows.map (CoverageRow.text width)
    ++ [rule, CoverageRow.columns width "TOTAL" statements missed
      (totals.field "percent_covered").float]

end IdiomLint.Bench
