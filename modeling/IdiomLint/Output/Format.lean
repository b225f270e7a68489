import IdiomLint.Output.Message

/-! The text of messages: plain, in colours, or as commands to a build service. -/
namespace IdiomLint

inductive FormatError where
  | noFile
  /-- The file of a report is not below the working directory. -/
  | outside
  | nullCharacter
deriving DecidableEq

namespace Color

def blue : String := "\x1b[94m"

def yellow : String := "\x1b[33m"

def gray : String := "\x1b[90m"

def green : String := "\x1b[92m"

def red : String := "\x1b[91m"

def reset : String := "\x1b[0m"

end Color

/-- The name a report shows for its file. -/
def shownFile (file : Option String) : String := file.getD "None"

/-- The line and column of a report; columns are shown from one. -/
def Report.place (r : Report) : String :=
  ":" ++ toString r.finding.line ++ ":" ++ toString (r.finding.column + 1)

def Report.plain (r : Report) (file : Option String) : String :=
  shownFile file ++ r.place ++ " [" ++ r.code.toText ++ "]: " ++ r.finding.message

/-- Code between backticks in a colour of its own. -/
def colorQuoted (color code : String) : String :=
  Color.gray ++ "`" ++ color ++ code ++ Color.gray ++ "`" ++ Color.reset

/-- A message with two pieces of code shows the first in red and the second in green. -/
def colorMessage (message : String) : String :=
  match Text.split '`' message with
  | [before, old, between, new, after] =>
    before ++ colorQuoted Color.red old ++ between ++ colorQuoted Color.green new ++ after
  | _ => message

def Report.colored (r : Report) (file : Option String) : String :=
  Color.blue ++ shownFile file ++ Color.reset ++ Color.gray ++ r.place ++ Color.reset ++ " "
    ++ Color.yellow ++ "[" ++ r.code.toText ++ "]" ++ Color.reset ++ Color.gray ++ ":"
    ++ Color.reset ++ " " ++ colorMessage r.finding.message

def Report.command (links : Path.Links) (cwd : Path) (r : Report) (file : Option String) :
    Except FormatError String :=
  match namedFile file with
  | none => .error .noFile
  | some file =>
    let path := Path.ofText file
    if path.hasNull then .error .nullCharacter
    else match (cwd.resolve links path).relativeTo? cwd with
    | none => .error .outside
    | some below =>
      .ok ("::error line=" ++ toString r.finding.line ++ ",col=" ++ toString (r.finding.column + 1)
        ++ ",title=Refurb " ++ r.code.toText ++ ",file=" ++ below.toText ++ "::"
        ++ r.finding.message)

def Message.plain : Message → String
  | text t => t
  | report r file => r.plain file

def Message.colored : Message → String
  | text t => t
  | report r file => r.colored file

def Message.command (links : Path.Links) (cwd : Path) : Message → Except FormatError String
  | text t => .ok ("::error title=Refurb Error::" ++ t)
  | report r file => r.command links cwd file

/-- The hint that ends the output where there are reports. -/
def explainHint : String :=
  "\n\nRun `refurb --explain ERR` to further explain an error. "
    ++ "Use `--quiet` to silence this message"

def Message.shown (s : Settings) (links : Path.Links) (cwd : Path) (m : Message) :
    Except FormatError String :=
  match s.format with
  | some .github => m.command links cwd
  | _ => .ok (if s.color then m.colored else m.plain)

def formatMessages (s : Settings) (links : Path.Links) (cwd : Path) (ms : List Message) :
    Except FormatError String := do
  let lines ← ms.mapM (Message.shown s links cwd)
  let hint := if !s.quiet && ms.any Message.isReport then explainHint else ""
  return "\n".intercalate lines ++ hint

end IdiomLint
