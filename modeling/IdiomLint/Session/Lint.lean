import IdiomLint.Session.Basic

/-! Checking files: the type checker reads them, the checks run over the trees, and what they
report is filtered and sorted. -/
namespace IdiomLint

structure Source where
  path : String
  module : String
  tree : Node

/-- What the type checker comes to. -/
inductive TypeCheck where
  /-- It ends at once, having printed something. -/
  | quits (out err : String)
  | rejects (messages : List String)
  /-- It gives the trees, the symbols and how long each module took. -/
  | accepts (sources : List Source) (table : SymbolTable) (timing : String)

namespace Run

/-- Messages speak of this program instead of the type checker. -/
def renamed (message : String) : String :=
  if "mypy: ".toList.isPrefixOf message.toList then
    "refurb: " ++ String.ofList (message.toList.drop "mypy: ".length)
  else message

def checkerArgs (s : Settings) : List String :=
  s.files ++ s.typeCheckerArgs
    ++ ["--exclude", ".*\\.pyi", "--explicit-package-bases", "--namespace-packages"]

def startChecker (s : Settings) : Run Unit :=
  modify fun st => { st with checkerArgs := some (checkerArgs s) }

/-- What is known after some sources. -/
structure Progress where
  messages : List Message := []
  memory : Memory := []
  times : Times := []

/-- Runs the checks over one source. -/
def lintSource (s : Settings) (checks : List Check) (env : Env) (p : Progress) (source : Source) :
    Run Progress := do
  let dump := if s.debug then [Message.text source.tree.outline] else []
  let start ← tick
  let state ← orElse .fault (runTree checks env { memory := p.memory } source.tree)
  let stop ← tick
  let time ← orElse .timing (milliseconds start stop)
  let found := state.found.reverse.map fun r => Message.report r (some source.path)
  return {
    messages := p.messages ++ dump ++ found
    memory := state.memory
    times := p.times.put source.module time }

/-- Writes how long the type checker took between two readings of the clock, on each module by its
own account, and how long the checks took. -/
def writeTimes (s : Settings) (start stop : Float) (timing : String) (times : Times) : Run Unit :=
  match s.timingStats with
  | none => return
  | some path => do
    let parsing ← orElse .timing (Times.ofLines (Text.lines timing))
    let total ← orElse .timing (milliseconds start stop)
    onFiles fun fs => fs.write path (timingDocument total parsing times)

/-- Leaves out what is to be ignored, and sorts the rest. -/
def select (s : Settings) (messages : List Message) : Run (List Message) := do
  let fs := (← get).files
  let kept ← messages.filterM fun m => do
    return !(← orElse .ignoring (m.isIgnored s fs))
  orElse .ordering (sortMessages (s.sortBy.getD .filename) kept)

def lint (s : Settings) (result : TypeCheck) : Run (List Message) := do
  match result with
  | .quits out err =>
    return ((Text.lines err).map fun l => Message.text ("refurb: " ++ l))
      ++ (Text.lines out).map .text
  | .rejects messages => do
    startChecker s
    return messages.map fun m => .text (renamed m)
  | .accepts sources table timing => do
    startChecker s
    modify fun st => { st with checkerVersion := some s.targetVersion }
    let start ← tick
    let stop ← tick
    let checks ← orElse .loading (loadChecks s)
    if s.verbose then printLine (enabledMessage checks)
    let env : Env := ⟨table, s.targetVersion, s.files⟩
    let done ← sources.foldlM (lintSource s checks env) {}
    writeTimes s start stop timing done.times
    select s done.messages

end Run

end IdiomLint
