import IdiomLint.Decimal.Round
import IdiomLint.Json.Value
import IdiomLint.Path

/-! Where a call spends its time: in the files of the repository, in compiled code, or
elsewhere. -/
namespace IdiomLint.Bench

structure Profile where
  total : Option Float
  /-- Own times in seconds by file. -/
  times : List (String × Float)
deriving Inhabited

namespace Profile

def empty : Profile := ⟨some 0.0, []⟩

inductive Place where
  | repo | external | other
deriving DecidableEq

/-- Directories of code that others have written. -/
def isVendored (directory : String) : Bool :=
  ["vendor", "vendored", "_vendor", "third_party", "node_modules", "site-packages",
    "dist-packages", "venv", ".venv", "env", ".env", ".tox", ".nox", ".eggs", "build",
    "dist"].contains directory || ".egg-info".toList.isSuffixOf directory.toList

/-- Files that belong to the measuring itself. -/
def isHarness (name : String) : Bool :=
  name == "microbench.py" || "_pti_".toList.isPrefixOf name.toList

def isCompiled (name : String) : Bool :=
  ".so".toList.isSuffixOf name.toList || ".pyd".toList.isSuffixOf name.toList

/-- The place of a file. Functions without one are compiled into the interpreter; names in angle
brackets are no files. -/
def place (repo : Path) (file : String) : Place :=
  if file == "~" then .external
  else if "<".toList.isPrefixOf file.toList then .other
  else
    match (repo.resolve [] (Path.ofText file)).relativeTo? repo with
    | some p =>
      if isHarness p.name || p.parts.dropLast.any isVendored then .other else .repo
    | none => if isCompiled file then .external else .other

def timeIn (repo : Path) (wanted : Place) (p : Profile) : Float :=
  (p.times.filter fun e => place repo e.1 == wanted).foldl (fun t e => t + e.2) 0.0

/-- A time as a part of the total; nothing if there is no total. -/
def share (p : Profile) (time : Float) : Float :=
  match p.total with
  | some total => if total == 0.0 then 0.0 else time / total
  | none => 0.0

end Profile

/-- The profile that is taken next; the last one stays. -/
def nthProfile (profiles : List Profile) (n : Nat) : Profile :=
  profiles.getD n (profiles.getLastD .empty)

/-- A number of 64 bits as JSON. -/
def floatJson (x : Float) : Json :=
  if x.isNaN then .number "NaN"
  else if x.isInf then .number (if x > 0.0 then "Infinity" else "-Infinity")
  else .number (Decimal.text x)

end IdiomLint.Bench
