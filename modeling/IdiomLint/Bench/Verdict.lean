import IdiomLint.Bench.CoverageTable

/-! Judging benchmarks by what was observed of them. -/
namespace IdiomLint.Bench

inductive Verdict where
  | error | returnsNone | unstable | returnsInput | lowRepoTime | paramInvariant | tooFast
  | repoModified | ok
deriving DecidableEq, Inhabited

namespace Verdict

def label : Verdict → String
  | error => "error"
  | returnsNone => "returns-none"
  | unstable => "unstable"
  | returnsInput => "returns-input"
  | lowRepoTime => "low-repo-time"
  | paramInvariant => "param-invariant"
  | tooFast => "too-fast"
  | repoModified => "repo-modified"
  | ok => "ok"

/-- What is said about the verdicts before they are listed. -/
def legend : List String :=
  ["  returns-none: run() has no return — collect and return the call results",
    "  unstable: seed RNG in setup; avoid time/uuid/id in the return",
    "  returns-input: return repo output, not the parameter value",
    "  low-repo-time: <50% of run() time is in repo code — move glue to setup",
    "  param-invariant: return something derived from run()'s work, not setup",
    "  repo-modified: revert edits to repo files (git checkout -- <path>)"]

end Verdict

/-- The value under the key of the call without parameters. -/
def defaultValue (j : Json) : Float := (j.field "<default>").float

def minRepoShare : Float := 0.5

def minMillis : Float := 1.0

def texts (j : Json) : List String := j.items.map Json.text

/-- The verdict on an observation; `modified` says that files of the repository were changed. -/
def verdict (modified : Bool) (o : Json) : Verdict :=
  let stable := texts (o.field "fp_stable")
  let results := (o.field "fp_by_param").members.map fun e => e.2.text
  match (o.field "ret_type").text? with
  | none => .error
  | some type =>
    if "<".toList.isPrefixOf type.toList then .error
    else if modified then .repoModified
    else if type == "NoneType" then .returnsNone
    else if stable.length < 2 || stable.eraseDups.length > 1 then .unstable
    else if stable.any (texts (o.field "param_fps")).contains then .returnsInput
    else if defaultValue (o.field "repo_frac") < minRepoShare then .lowRepoTime
    else if results.length > 1 && results.eraseDups.length == 1 then .paramInvariant
    else if defaultValue (o.field "repo_tt_ms") < minMillis then .tooFast
    else .ok

def mark (isBad : Bool) : String := if isBad then "*" else " "

def verdictLine (name : String) (v : Verdict) (o : Json) : String :=
  "  " ++ mark (v != .ok) ++ " " ++ CoverageRow.padEnd 32 name ++ " "
    ++ CoverageRow.padEnd 16 v.label ++ " (" ++ ((o.field "ret_type").text?).getD "?" ++ ", repo "
    ++ Decimal.fixed 0 (100.0 * defaultValue (o.field "repo_frac")) ++ "%) "
    ++ Decimal.fixed 1 (defaultValue (o.field "repo_tt_ms")) ++ "ms"

end IdiomLint.Bench
