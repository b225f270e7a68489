import IdiomLint.Manual
import IdiomLint.Session.Generate
import IdiomLint.Session.Lint
import IdiomLint.Session.Usage
import IdiomLint.Settings.Load

/-! The program: what the arguments ask for is done, and the exit status says how it went. -/
namespace IdiomLint.Run

/-- Shows messages. The status is one if there are any. -/
def showMessages (s : Settings) (messages : List Message) : Run Nat := do
  let fs := (← get).files
  let text ← orElse .formatting (formatMessages s fs.links fs.cwd messages)
  if !text.isEmpty then printLine text
  return if messages.isEmpty then 0 else 1

/-- Checks the files and shows what is found. Checks that cannot be used are reported. -/
def report (s : Settings) (result : TypeCheck) : Run Nat :=
  tryCatch (do showMessages s (← lint s result)) fun
    | .loading e =>
      if e.isReported then do
        printLine e.message
        return 1
      else throw (.loading e)
    | e => throw e

def start (t : Terminal) (result : TypeCheck) (args : List String)
    (room : Nat := Toml.standardRoom) : Run Nat := do
  match Settings.ofRun t (← get).files args room with
  | .error e =>
    if e.isReported then
      printLine e.message
      return 1
    else throw (.settings e)
  | .ok s =>
    if s.help then
      printLine usage
      return 0
    if s.version then
      printLine versions
      return 0
    if s.generate then
      generate
      return 0
    match s.explain with
    | some code => do
      printLine (← orElse .loading (explain s code))
      return 0
    | none => report s result

end IdiomLint.Run
