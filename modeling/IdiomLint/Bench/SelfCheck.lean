import IdiomLint.Bench.Fingerprint
import IdiomLint.Bench.Profile
import IdiomLint.Bench.Suite
import IdiomLint.Json.Print

/-! What can be seen of a benchmark from outside: the type of its result, whether it returns the
same twice, what it returns for each set of parameters and where it spends its time. -/
namespace IdiomLint.Bench

structure Observation where
  resultType : String := ""
  /-- Fingerprints of two calls alike. -/
  stable : List String := []
  byParams : List (String × String) := []
  repoMillis : List (String × Float) := []
  repoShare : List (String × Float) := []
  externalShare : List (String × Float) := []
  /-- Fingerprints of the values that were passed. -/
  paramPrints : List String := []

namespace Observation

def addProfile (repo : Path) (key : String) (p : Profile) (o : Observation) : Observation :=
  let own := p.timeIn repo .repo
  { o with
    repoMillis := put o.repoMillis key (Decimal.round 3 (own * 1000.0))
    repoShare := put o.repoShare key (Decimal.round 3 (p.share own))
    externalShare :=
      put o.externalShare key (Decimal.round 3 (p.share (p.timeIn repo .external))) }

/-- The name of a set of parameters. -/
def paramsKey (params : List (String × Value)) : String :=
  if params.isEmpty then "-" else ",".intercalate (params.map fun e => e.1 ++ "=" ++ e.2.text)

def defaultKey : String := "<default>"

def strings (entries : List String) : Json := .array (entries.map Json.string)

def object {α : Type} (f : α → Json) (entries : List (String × α)) : Json :=
  .object (entries.map fun e => (e.1, f e.2))

def toJson (o : Observation) : Json :=
  .object [("ret_type", .string o.resultType), ("fp_stable", strings o.stable),
    ("fp_by_param", object Json.string o.byParams), ("repo_tt_ms", object floatJson o.repoMillis),
    ("repo_frac", object floatJson o.repoShare), ("ext_frac", object floatJson o.externalShare),
    ("param_fps", strings o.paramPrints)]

end Observation

/-- Where profiles come from, and how many were taken. -/
structure Profiling where
  repo : Path
  profiles : List Profile
  taken : Nat := 0

def Profiling.next (p : Profiling) : Profile × Profiling :=
  (nthProfile p.profiles p.taken, { p with taken := p.taken + 1 })

/-- Calls a benchmark with its sets of parameters, starting with a number of calls. The first
failure ends it. -/
def observeParams (b : Benchmark) (o : Observation) (p : Profiling) (calls : Nat) :
    List (List (String × Value)) → Observation × Profiling
  | [] => (o, p)
  | params :: rest =>
    match b.call calls with
    | .error e => ({ o with resultType := e.label }, p)
    | .ok v =>
      let key := Observation.paramsKey params
      let (profile, p) := p.next
      let o := o.addProfile p.repo key profile
      let o := { o with
        byParams := put o.byParams key (fingerprint v)
        paramPrints := o.paramPrints ++ params.map fun e => fingerprint e.2 }
      observeParams b o p (calls + 1) rest

/-- Calls a benchmark twice, the second time with a profile, and then with its parameters. -/
def observe (b : Benchmark) (p : Profiling) : Observation × Profiling :=
  match b.call 0 with
  | .error e => ({ resultType := e.label }, p)
  | .ok first =>
    match b.call 1 with
    | .error e => ({ resultType := e.label }, p)
    | .ok second =>
      let (profile, p) := p.next
      let o : Observation :=
        { resultType := first.typeName, stable := [fingerprint first, fingerprint second] }
      observeParams b (o.addProfile p.repo Observation.defaultKey profile) p 2 b.params

def observeAll (p : Profiling) : List Benchmark → List (String × Observation)
  | [] => []
  | b :: bs =>
    let (o, p) := observe b p
    (b.name, o) :: observeAll p bs

/-- What a program of the measuring prints, and how it ends: by itself or with a status. -/
structure Ended where
  out : String
  status : Option Nat

def importFailed (e : Raised) : Ended :=
  ⟨(Json.object [("_import_error", .string e.text)]).print .spaced ++ "\n", some 0⟩

def selfCheck (suite : Suite) (repo : Path) (profiles : List Profile) : Ended :=
  match suite with
  | .error e => importFailed e
  | .ok functions =>
    let seen := observeAll ⟨repo, profiles, 0⟩ (benchmarks functions)
    ⟨(Json.object [("semcheck", Observation.object Observation.toJson seen)]).print .spaced ++ "\n",
      none⟩

end IdiomLint.Bench
