import IdiomLint.Output.Format
import IdiomLint.Output.Ignore
import IdiomLint.Scaffold
import IdiomLint.Session.Timing

/-! The state of a run: what it prints, writes and asks, and the readings of the clock. -/
namespace IdiomLint

/-- A question that is put to the user by an interactive filter. -/
structure Prompt where
  options : List String
  /-- The lines to choose from; without any the filter finds its own. -/
  offered : Option (List String)
deriving DecidableEq, Inhabited

namespace Prompt

def command (p : Prompt) : List String := ["fzf", "--height=20"] ++ p.options

def input? (p : Prompt) : Option String := p.offered.map fun lines => "\n".intercalate lines

def shell : String := "/bin/bash"

/-- How the filter finds lines of its own. -/
def listing : String :=
  "find refurb -name '*.py' -not -path '*__*' 2> /dev/null || true"

end Prompt

/-- How the filter ended and what it printed. -/
structure Reply where
  status : Int
  output : String
deriving DecidableEq, Inhabited

structure Session where
  files : Files
  printed : String := ""
  /-- Questions that were asked. -/
  prompts : List Prompt := []
  /-- Replies that are still to come. -/
  replies : List Reply := []
  /-- Readings of the clock that are still to come, in seconds. -/
  clock : List Float := []
  /-- What the type checker was started with. -/
  checkerArgs : Option (List String) := none
  /-- The version of the language that the type checker assumed. -/
  checkerVersion : Option Version := none

/-- Why a run ends early without a message of its own. -/
inductive Failure where
  | settings (error : SettingsError)
  | loading (error : LoadError)
  | fault (fault : Fault)
  | ignoring (error : IgnoreError)
  | ordering (error : Incomparable)
  | formatting (error : FormatError)
  | timing (error : TimingError)
  | writing (error : WriteError)
  | unknownClass (error : Scaffold.UnknownClass)
  | noFileName
  | noReply
  /-- A reply ends inside a character. -/
  | cutCharacter
  /-- The program ends with a status. -/
  | quit (status : Nat)

abbrev Run := ExceptT Failure (StateM Session)

namespace Run

def orElse {ε α : Type} (f : ε → Failure) (e : Except ε α) : Run α :=
  match e with
  | .ok a => pure a
  | .error e => throw (f e)

def printLine (s : String) : Run Unit :=
  modify fun st => { st with printed := st.printed ++ s ++ "\n" }

/-- The next reading of the clock; a clock that has run out stands at zero. -/
def tick : Run Float := do
  let st ← get
  match st.clock with
  | [] => return 0.0
  | now :: later =>
    set { st with clock := later }
    return now

/-- Changes the files, or fails and leaves them as they are. -/
def onFiles (f : Files → Except WriteError Files) : Run Unit := do
  let st ← get
  let files ← orElse .writing (f st.files)
  set { st with files }

end Run

end IdiomLint
