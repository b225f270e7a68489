import IdiomLint.Bench.History
import IdiomLint.Bench.Profile
import IdiomLint.Bench.Verdict
import IdiomLint.Json.Canonical
import IdiomLint.Json.Print

/-! A round of measuring: coverage, time spent in the repository, and the verdicts on the
benchmarks, with a record of it for the next round. -/
namespace IdiomLint.Bench

/-- How a program that is started ends. -/
inductive ToolRun where
  | failed (kind text : String)
  | ended (status : Int) (out err : String)

/-- The programs that a round can start. -/
inductive Tool where
  | coverage | repoTime | versionControl | selfCheck
deriving DecidableEq

namespace Tool

def label : Tool → String
  | coverage => "_pti_cov_runner.py"
  | repoTime => "_pti_repotime.py"
  | versionControl => "git"
  | selfCheck => "_pti_semcheck.py"

/-- Seconds after which a program is stopped. -/
def timeout? : Tool → Option Nat
  | coverage => none
  | repoTime => some 120
  | versionControl => some 30
  | selfCheck => some 300

/-- The seed for the hashes of a program. -/
def hashSeed? : Tool → Option String
  | selfCheck => some "0"
  | _ => none

end Tool

structure RoundInput where
  repo : Path
  files : List (String × String)
  started : Float
  stopped : Float
  now : Float
  coverage : ToolRun
  repoTime : ToolRun
  versionControl : ToolRun
  selfCheck : ToolRun

structure RoundResult where
  out : String := ""
  err : String := ""
  tools : List Tool := []
  /-- The line that is added to the record. -/
  recorded : String := ""

inductive RoundEnd where
  | finished
  | quit (status : Int)
  | failed (kind : String)

namespace Round

def reportFile : String := "_pti_coverage.json"

def recordFile : String := ".pti_checkpoint.jsonl"

def benchFile : String := "microbench.py"

/-- Whether a line defines a benchmark at the start of the line. -/
def definesBench (line : String) : Bool :=
  match Text.breakAt "def".toList line.toList with
  | some ([], rest) =>
    let name := rest.dropWhile Text.isBlank
    let word := name.takeWhile Text.isWordChar
    rest.length ≠ name.length && "bench_".toList.isPrefixOf word && "bench_".length < word.length
      && ((name.drop word.length).dropWhile Text.isBlank).head? == some '('
  | _ => false

def benchCount (files : List (String × String)) : Nat :=
  match files.lookup benchFile with
  | some text => ((Text.split '\n' text).filter definesBench).length
  | none => 0

/-- The document in the last line of an output that starts with a brace. -/
def lastDocument (out : String) : Json :=
  match ((Text.lines out).filter fun l => "\x7b".toList.isPrefixOf l.toList).getLast? with
  | some line => (Json.parse line).getD .null
  | none => .null

def failureLine (name kind text : String) : String :=
  "[" ++ name ++ " runner: " ++ kind ++ ": " ++ text ++ "]\n"

/-- The output and the errors of a program that may fail. -/
def tolerated (name : String) : ToolRun → String × String
  | .failed kind text => ("", failureLine name kind text)
  | .ended _ out err => (out, err)

def errorLines (report : Json) : List String :=
  let errors := ((report.field "meta").field "_pti_bench_errors").members
  if errors.isEmpty then []
  else
    ["", toString errors.length ++ " bench error(s):"]
      ++ (errors.take 8).map fun e => "  " ++ e.1 ++ ": " ++ e.2.text

def minPercent : Float := 45.0

def isBelow (percent : Float) : Bool := 0.0 ≤ percent && percent < minPercent

def percentLine (e : String × Float) : String :=
  "  " ++ mark (isBelow e.2) ++ " " ++ CoverageRow.padEnd 32 e.1 ++ " "
    ++ CoverageRow.padStart 5 (Decimal.fixed 1 (if e.2 < 0.0 then 0.0 else e.2)) ++ "%"
    ++ (if e.2 < 0.0 then "  <error>" else "")

def percentLines (percents : List (String × Float)) : List String :=
  if percents.isEmpty then []
  else
    ["", "repo_time (target 50%; * = below 45%):"]
      ++ (percents.mergeSort fun a b => a.2 ≤ b.2).map percentLine

def verdictLines (verdicts : List (String × Verdict × Json)) : List String :=
  if verdicts.isEmpty then []
  else
    ["", "self-check (* = fix needed):"] ++ Verdict.legend
      ++ verdicts.map fun e => verdictLine e.1 e.2.1 e.2.2

/-- Whether a line of a list of changes is about a file of the repository. -/
def isRepoChange (line : String) : Bool :=
  !(Text.trim line).isEmpty && !"??".toList.isPrefixOf line.toList
    && !Profile.isHarness (Path.ofText (String.ofList (line.toList.drop 3))).name

/-- What a round has measured. -/
structure Measures where
  number : Nat
  report : Json
  benches : Nat
  seconds : Float
  percents : List (String × Float)
  verdicts : List (String × Verdict × Json)

namespace Measures

def totals (m : Measures) : Json := m.report.field "totals"

def errorCount (m : Measures) : Nat :=
  ((m.report.field "meta").field "_pti_bench_errors").members.length

def belowCount (m : Measures) : Nat := (m.percents.filter fun e => isBelow e.2).length

def belowCount? (m : Measures) : Option Nat :=
  if m.percents.isEmpty then none else some m.belowCount

def badCount (m : Measures) : Nat := (m.verdicts.filter fun e => e.2.1 != .ok).length

def summary (m : Measures) : String :=
  let known := (m.percents.filter fun e => 0.0 ≤ e.2).length
  "[round " ++ toString m.number ++ ": " ++ toString m.benches ++ " benches, "
    ++ Decimal.fixed 1 (m.totals.field "percent_covered").float ++ "% covered"
    ++ (if m.percents.isEmpty then ""
      else ", " ++ toString m.belowCount ++ "/" ++ toString known ++ " below repo_time 45%")
    ++ (if m.verdicts.isEmpty then ""
      else ", " ++ toString m.badCount ++ "/" ++ toString m.verdicts.length ++ " not self-checking")
    ++ ", measured in " ++ Decimal.fixed 1 m.seconds ++ "s]"

def lines (m : Measures) (repo : Path) : List String :=
  coverageTable repo m.report ++ errorLines m.report ++ percentLines m.percents
    ++ verdictLines m.verdicts ++ ["", m.summary]

/-- The time since the last round, if its time is known. -/
def sincePrevious (now : Float) (records : List Json) : Float :=
  match records.getLast? with
  | some r =>
    match (r.field "ts").float? with
    | some ts => Decimal.round 2 (now - ts)
    | none => 0.0
  | none => 0.0

def toJson (m : Measures) (now : Float) (records : List Json) : Json :=
  .object [("round", Json.nat m.number), ("ts", floatJson now),
    ("wall_since_prev_s", floatJson (sincePrevious now records)),
    ("coverage_pct", (m.totals.field "percent_covered").canonical),
    ("covered_lines", (m.totals.field "covered_lines").canonical),
    ("num_statements", (m.totals.field "num_statements").canonical),
    ("n_bench_fns", Json.nat m.benches), ("n_bench_errors", Json.nat m.errorCount),
    ("cov_measure_s", floatJson (Decimal.round 3 m.seconds)),
    ("repo_time_pct", .object (m.percents.map fun e => (e.1, floatJson e.2))),
    ("n_below_repo_time", Json.opt Json.nat m.belowCount?),
    ("semcheck", .object (m.verdicts.map fun e => (e.1, Json.string e.2.1.label))),
    ("n_not_self_checking", Json.nat m.badCount)]

end Measures

/-- The percentages that the program for them has printed. -/
def percentsOf (out : String) : List (String × Float) :=
  ((lastDocument out).field "repo_time_pct").members.map fun e => (e.1, e.2.float)

def verdictsOf (changes out : String) : List (String × Verdict × Json) :=
  let modified := (Text.lines changes).any isRepoChange
  ((lastDocument out).field "semcheck").members.filterMap fun e =>
    match e.2 with
    | .object _ => some (e.1, verdict modified e.2, e.2)
    | _ => none

def run (input : RoundInput) : RoundResult × RoundEnd :=
  let has (name : String) := (input.files.lookup name).isSome
  match input.coverage with
  | .failed kind _ => ({ tools := [.coverage] }, .failed kind)
  | .ended status out err =>
    if status ≠ 0 then ({ out := out, err := err, tools := [.coverage] }, .quit status)
    else
      match (input.files.lookup reportFile).bind Json.parse with
      | none => ({ err := err, tools := [.coverage] }, .failed "FileNotFoundError")
      | some report =>
        let (timeOut, timeErr) :=
          if has Tool.repoTime.label then tolerated "repotime" input.repoTime else ("", "")
        let (checkOut, checkErr) :=
          if has Tool.selfCheck.label then tolerated "semcheck" input.selfCheck else ("", "")
        let changes := (tolerated "git" input.versionControl).1
        let earlier := recordLines ((input.files.lookup recordFile).getD "")
        let m : Measures :=
          { number := earlier.length + 1
            report
            benches := benchCount input.files
            seconds := input.stopped - input.started
            percents := percentsOf timeOut
            verdicts := verdictsOf changes checkOut }
        let shown := "\n".intercalate (m.lines input.repo) ++ "\n"
        let tools := [Tool.coverage]
          ++ (if has Tool.repoTime.label then [.repoTime] else [])
          ++ (if has Tool.selfCheck.label then [.versionControl, .selfCheck] else [])
        match records? earlier with
        | none => ({ out := shown, err := err ++ timeErr ++ checkErr, tools }, .finished)
        | some records =>
          let counts := belowCounts records ++ m.belowCount?.toList.map Int.ofNat
          let stop := if m.percents.isEmpty then "" else (stopMessage? counts).getD ""
          ({ out := shown ++ stop
             err := err ++ timeErr ++ checkErr
             tools
             recorded := (m.toJson input.now records).print .spaced ++ "\n" }, .finished)

end Round

end IdiomLint.Bench
