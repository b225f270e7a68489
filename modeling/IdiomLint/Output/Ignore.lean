import IdiomLint.Files
import IdiomLint.Output.Message

/-! Reports that are not wanted: a comment on the line says so, or the settings do for a part of
the files. -/
namespace IdiomLint

inductive IgnoreError where
  | unreadable (error : ReadError)
  /-- The line of the report is not in the file. -/
  | noLine
  /-- A path in the settings holds a null character. -/
  | nullCharacter
deriving DecidableEq

/-- The comment that asks to ignore what is found on its line. -/
def ignoreMark : List Char := "# noqa".toList

/-- What follows a mark: nothing, so it is about every code, or a colon and a list of codes. -/
def markedCodes? (rest : List Char) : Option (Option (List Char)) :=
  match rest with
  | [] => some none
  | ':' :: ' ' :: codes =>
    if codes.all fun c => c != '\x27' && c != '"' then some (some codes) else none
  | _ => none

/-- The first mark of a line that is followed by nothing else than it may be. -/
def ignoreComment? : List Char → Option (Option (List Char))
  | [] => none
  | c :: cs =>
    match (if ignoreMark.isPrefixOf (c :: cs) then markedCodes? ((c :: cs).drop ignoreMark.length)
      else none) with
    | some codes => some codes
    | none => ignoreComment? cs

/-- Codes are divided by commas and spaces. -/
def listedCodes (codes : List Char) : List String :=
  (Text.splitOn ' ' (codes.map fun c => if c = ',' then ' ' else c)).map String.ofList

/-- Whether a line asks to ignore a code that is found on it. -/
def lineIgnores (line : String) (code : Code) : Bool :=
  match ignoreComment? (Text.trimEnd line).toList with
  | none => false
  | some none => true
  | some (some codes) => (listedCodes codes).contains code.toText

/-- The line with a number, counted from one; zero and below count from the last line back. -/
def numberedLine? (lines : List String) (number : Int) : Option String :=
  if 0 < number then lines[number.toNat - 1]?
  else if (1 - number).toNat ≤ lines.length then lines[lines.length - (1 - number).toNat]?
  else none

def ignoredByComment (fs : Files) (r : Report) (file : String) : Except IgnoreError Bool :=
  match fs.read (Path.ofText file) with
  | .error e => .error (.unreadable e)
  | .ok text =>
    match numberedLine? (Text.lines text) r.finding.line with
    | none => .error .noLine
    | some line => .ok (lineIgnores line r.code)

/-- The directory that the paths of the settings start from. -/
def Settings.root (s : Settings) : Path :=
  match s.configFile with
  | some file => if file.isEmpty then .empty else (Path.ofText file).parent
  | none => .empty

/-- Whether a classifier is about a report. -/
def Classifier.isAbout (c : Classifier) (r : Report) : Bool :=
  match c with
  | .code own _ => own.toText == r.code.toText
  | .category name _ => r.categories.contains name

/-- Whether an entry of the settings covers a file. -/
def Classifier.coversFile (links : Path.Links) (cwd root : Path) (c : Classifier)
    (file : String) : Bool :=
  match c.path with
  | some p => (cwd.resolve links (Path.ofText file)).isBelow (cwd.resolve links (root.join p))
  | none => false

/-- The paths that entries of the settings are about. -/
def Settings.ignoredPaths (s : Settings) : List Path :=
  s.ignore.filterMap fun c => c.path.map s.root.join

def ignoredByPath (s : Settings) (links : Path.Links) (cwd : Path) (r : Report) (file : String) :
    Except IgnoreError Bool :=
  if (Path.ofText file).hasNull || s.ignoredPaths.any Path.hasNull then .error .nullCharacter
  else .ok (s.ignore.any fun c => c.coversFile links cwd s.root file && c.isAbout r)

/-- Whether a message is left out. Texts stay, and a report without a file goes. -/
def Message.isIgnored (s : Settings) (fs : Files) : Message → Except IgnoreError Bool
  | text _ => .ok false
  | report r file =>
    match namedFile file with
    | none => .ok true
    | some file => do
      if ← ignoredByComment fs r file then return true
      else ignoredByPath s fs.links fs.cwd r file

end IdiomLint
