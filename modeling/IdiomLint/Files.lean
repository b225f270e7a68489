import IdiomLint.Path
import IdiomLint.Text.Lines

/-! Files and directories, seen from a working directory. -/
namespace IdiomLint

inductive Entry where
  | file (text : String)
  | directory
deriving DecidableEq, Inhabited

inductive ReadError where
  | missing
  | isDirectory
  /-- A part of the path that should be a directory is a file. -/
  | throughFile
  /-- The path holds a null character. -/
  | nullCharacter
  /-- The path or a part of it is longer than any file's. -/
  | tooLong
  /-- The system gives no access. -/
  | denied
deriving DecidableEq

inductive WriteError where
  | missing
  | isDirectory
  | throughFile
  | nullCharacter
  | tooLong
  | denied
  /-- A directory is wanted where a file is. -/
  | isFile
deriving DecidableEq

def ReadError.toWriteError : ReadError → WriteError
  | missing => .missing
  | isDirectory => .isDirectory
  | throughFile => .throughFile
  | nullCharacter => .nullCharacter
  | tooLong => .tooLong
  | denied => .denied

/-- The most bytes that one part of a path has. -/
def Path.maxPartSize : Nat := 255

/-- The most bytes that a path has. -/
def Path.maxSize : Nat := 4095

/-- Entries by their components from the root. Every directory on the way to an entry exists. -/
structure Files where
  cwd : Path
  entries : List (List String × Entry)
  links : Path.Links := []
  /-- Directories that may not be entered, and files that may not be read or written. -/
  locked : List (List String) := []
deriving Inhabited

namespace Files

def find? (fs : Files) (parts : List String) : Option Entry :=
  match fs.entries.lookup parts with
  | some e => some e
  | none =>
    if parts.isPrefixOf fs.cwd.parts || fs.entries.any fun e => parts.isPrefixOf e.1 then
      some .directory
    else none

/-- The place a path leads to, every step of which has to be a directory. -/
def follow (fs : Files) (at_ : List String) : List String → Except ReadError (List String)
  | [] => .ok at_
  | part :: parts =>
    match fs.find? at_ with
    | none => .error .missing
    | some (.file _) => .error .throughFile
    | some .directory =>
      if fs.locked.contains at_ then .error .denied
      else if Path.maxPartSize < part.utf8ByteSize then .error .tooLong
      else fs.follow (Path.step fs.links at_ part) parts

/-- A path from the root, if it can be that of a file at all. -/
def partsOf (fs : Files) (p : Path) : Except ReadError (List String) :=
  if p.hasNull then .error .nullCharacter
  else if Path.maxSize < p.toText.utf8ByteSize then .error .tooLong
  else .ok (fs.cwd.join p).parts

/-- The text of a file, its line ends unified. -/
def read (fs : Files) (p : Path) : Except ReadError String := do
  let place ← fs.follow [] (← fs.partsOf p)
  match fs.find? place with
  | none => .error .missing
  | some e =>
    if fs.locked.contains place then .error .denied
    else
      match e with
      | .file text => .ok (String.ofList (Text.unifyLineEnds text.toList))
      | .directory => .error .isDirectory

/-- The place a path leads to that something is to be written at. -/
def locate (fs : Files) (p : Path) : Except WriteError (List String) :=
  (do fs.follow [] (← fs.partsOf p)).mapError ReadError.toWriteError

def set (fs : Files) (place : List String) (e : Entry) : Files :=
  { fs with entries := (place, e) :: fs.entries.filter fun old => old.1 != place }

def write (fs : Files) (p : Path) (text : String) : Except WriteError Files := do
  let place ← fs.locate p
  match fs.find? place with
  | some .directory => .error .isDirectory
  | _ => if fs.locked.contains place then .error .denied else .ok (fs.set place (.file text))

/-- An empty file, unless something is there already. -/
def touch (fs : Files) (p : Path) : Except WriteError Files := do
  let place ← fs.locate p
  match fs.find? place with
  | some _ => if fs.locked.contains place then .error .denied else .ok fs
  | none => .ok (fs.set place (.file ""))

/-- A directory; that it exists is no error. -/
def makeDirectory (fs : Files) (parts : List String) : Except WriteError Files := do
  let place ← (fs.follow [] parts).mapError ReadError.toWriteError
  match fs.find? place with
  | some .directory => .ok fs
  | some (.file _) => .error .isFile
  | none => .ok (fs.set place .directory)

/-- A directory and the missing ones above it, given by its components from the last to the
first. -/
def makeAllDirectories (fs : Files) : List String → Except WriteError Files
  | [] => fs.makeDirectory []
  | part :: above =>
    match fs.makeDirectory (part :: above).reverse with
    | .error .missing => do
      let fs ← fs.makeAllDirectories above
      fs.makeDirectory (part :: above).reverse
    | r => r

def makeDirectories (fs : Files) (p : Path) : Except WriteError Files := do
  fs.makeAllDirectories (← (fs.partsOf p).mapError ReadError.toWriteError).reverse

/-- The files below the working directory that are new or have another text than before. -/
def changedSince (fs before : Files) : List (Path × String) :=
  fs.entries.filterMap fun e =>
    match e.2 with
    | .directory => none
    | .file text =>
      if before.entries.lookup e.1 == some e.2 then none
      else (Path.relativeTo? ⟨fs.cwd.root, e.1⟩ fs.cwd).map fun p => (p, text)

end Files

end IdiomLint
