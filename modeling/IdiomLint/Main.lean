import IdiomLint.Exchange.Tree
import IdiomLint.Json.Parse
import IdiomLint.Session.Start

/-! The command line. What the type checker came to is read from standard input, and so are the
answers to questions; the configuration and the sources are read where they lie. -/
namespace IdiomLint

/-- A line for the end of a run that has no message of its own. -/
def Failure.text : Failure → String
  | settings e => e.message
  | loading e => e.message
  | fault f => f.message
  | ignoring (.unreadable _) => "a source cannot be read"
  | ignoring .noLine => "a report is about a line that its source does not have"
  | ignoring .nullCharacter => "a path in the settings holds a null character"
  | ordering _ => "reports cannot be compared"
  | formatting .noFile => "a report has no file"
  | formatting .outside => "a file is not below the working directory"
  | formatting .nullCharacter => "the name of a file holds a null character"
  | timing e => e.message
  | writing _ => "a file cannot be written"
  | unknownClass (.unknown name) => "no class of nodes is called " ++ Text.quoted name
  | noFileName => "no file is named"
  | noReply => "a question has no answer"
  | cutCharacter => "an answer ends inside a character"
  | quit _ => ""

namespace Disk

/-- The configuration that the arguments name. -/
def configName (t : Terminal) (args : List String) : String :=
  match Settings.ofArguments t args with
  | .ok s => s.namedConfigFile.getD Settings.defaultConfigFile
  | .error _ => Settings.defaultConfigFile

def sourceNames : TypeCheck → List String
  | .accepts sources _ _ => sources.map (·.path)
  | _ => []

/-- The files that mark the directories of a file as packages. -/
def markNames (cwd : Path) (name : String) : List String :=
  ((cwd.foldersBelow [] (Path.ofText name).parent).toOption.getD []).map fun folder =>
    (folder.join (Path.ofText "__init__.py")).toText

/-- What is there under a name. -/
def find? (cwd : Path) (name : String) : IO (Option (List String × Entry)) := do
  let path := (← IO.currentDir) / name
  let place := (cwd.resolve [] (Path.ofText name)).parts
  if ← path.isDir then return some (place, .directory)
  else if ← path.pathExists then return some (place, .file (← IO.FS.readFile path))
  else return none

/-- The files with the given names, and the directories they lie in. -/
def load (cwd : Path) (names : List String) : IO Files := do
  let folders := names.map fun name => (Path.ofText name).parent.toText
  return { cwd, entries := ← (names ++ folders).eraseDups.filterMapM (find? cwd) }

/-- Puts what a run has changed where it belongs. -/
def store (before after : Files) : IO Unit :=
  for (path, text) in after.changedSince before do
    let target := (← IO.currentDir) / path.toText
    if let some folder := target.parent then IO.FS.createDirAll folder
    IO.FS.writeFile target text

end Disk

partial def readAll (stream : IO.FS.Stream) (start : String) : IO String := do
  let line ← stream.getLine
  if line.isEmpty then return start else readAll stream (start ++ line)

/-- The document on standard input; a terminal gives none. -/
def handedOver : IO Json := do
  let stdin ← IO.getStdin
  if ← stdin.isTty then return .null
  return (Json.parse (← readAll stdin "")).getD .null

end IdiomLint

open IdiomLint in
def main (args : List String) : IO UInt32 := do
  let stdout ← IO.getStdout
  let terminal : Terminal := ⟨← stdout.isTty, ← IO.getEnv "NO_COLOR"⟩
  let document ← handedOver
  let result := Exchange.read document (Exchange.outcome document)
  let answers := (document.field "fzf").items.map Json.text
  let cwd := Path.ofText (← IO.currentDir).toString
  let files ← Disk.load cwd (Disk.configName terminal args :: Disk.sourceNames result
    ++ answers.flatMap (Disk.markNames cwd))
  let begun : Session := { files, replies := answers.map fun a => ⟨0, a ++ "\n"⟩ }
  let (outcome, ended) := ((Run.start terminal result args).run begun).run
  stdout.putStr ended.printed
  Disk.store files ended.files
  match outcome with
  | .ok status => return status.toUInt32
  | .error (.quit status) => return status.toUInt32
  | .error e => do
    (← IO.getStderr).putStrLn e.text
    return 1
