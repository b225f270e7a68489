import IdiomLint.Bench.SelfCheck

/-! The share of time that each benchmark spends in the repository, in percent. -/
namespace IdiomLint.Bench

/-- Stands for a benchmark that fails. -/
def failedPercent : Float := -1.0

/-- The call that is measured: what the function returns, or the function itself a second time. -/
def measuredCall (b : Benchmark) : Except Stop Value := do
  let v ← b.call 0
  if b.direct then b.call 1 else return v

def repoPercent (b : Benchmark) (p : Profiling) : Float × Profiling :=
  match measuredCall b with
  | .error _ => (failedPercent, p)
  | .ok _ =>
    let (profile, p) := p.next
    (Decimal.round 1 (100.0 * profile.share (profile.timeIn p.repo .repo)), p)

def repoPercents (p : Profiling) : List Benchmark → List (String × Float)
  | [] => []
  | b :: bs =>
    let (percent, p) := repoPercent b p
    (b.name, percent) :: repoPercents p bs

def repoTime (suite : Suite) (repo : Path) (profiles : List Profile) : Ended :=
  match suite with
  | .error e => importFailed e
  | .ok functions =>
    let percents := repoPercents ⟨repo, profiles, 0⟩ (benchmarks functions)
    ⟨(Json.object [("repo_time_pct", Observation.object floatJson percents)]).print .spaced ++ "\n",
      none⟩

end IdiomLint.Bench
