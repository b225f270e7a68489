import IdiomLint.Loading.Load

/-! What is written about checks: the explanation of one, and the document about all. -/
namespace IdiomLint

namespace Check

def explanationText (lines : List String) : String := "\n".intercalate lines

/-- The explanation of a check under a heading with its code, name and categories. -/
def explained (c : Check) (lines : List String) : String :=
  c.code.toText ++ ": " ++ c.name.getD "<name unknown>" ++ " "
    ++ " ".intercalate (c.categories.map fun s => "[" ++ s ++ "]")
    ++ "\n\n" ++ explanationText lines

end Check

def explanationMissing (code : Code) : String :=
  "refurb: Explanation for \"" ++ code.toText ++ "\" not found"

def codeMissing (code : Code) : String :=
  "refurb: Error code \"" ++ code.toText ++ "\" not found"

/-- What a module has to say about its findings. -/
def CheckModule.explained (verbose : Bool) (code : Code) (m : CheckModule) : String :=
  match m.content with
  | .check c =>
    match c.explanation with
    | some lines =>
      (if verbose then "Filename: " ++ c.location ++ "\n\n" else "") ++ c.explained lines
    | none => explanationMissing code
  | _ => explanationMissing code

def explain (s : Settings) (code : Code) : Except LoadError String := do
  let ms ← Library.standard.load s.load
  match ms.find? fun m => (m.kind?.map (·.code)) == some code with
  | some m => return m.explained s.verbose code
  | none => return codeMissing code

namespace Manual

def fence : List Char := "```".toList

/-- Names the language of every fenced block. A fence without a second one opens no block. -/
def nameFences : Nat → List Char → List Char
  | 0, cs => cs
  | fuel + 1, cs =>
    match Text.breakAt fence cs with
    | none => cs
    | some (before, rest) =>
      match Text.breakAt fence rest with
      | none => cs
      | some (block, after) =>
        before ++ fence ++ "python".toList ++ block ++ fence ++ nameFences fuel after

def body (c : Check) : String :=
  let cs := (Check.explanationText (c.explanation.getD [])).toList
  String.ofList (nameFences cs.length cs)

def section_ (c : Check) : String :=
  "## " ++ c.code.toText ++ ": `" ++ c.name.getD "None" ++ "`\n\n"
    ++ "Categories: " ++ " ".intercalate (c.categories.map fun s => "`" ++ s ++ "`")
    ++ "\n\n" ++ body c

def header : String :=
  "<!--\nAutogenerated! Do not modify!\n\nSee the \"Updating Documentation\" section of the README "
    ++ "file for more info.\n-->\n\n# Available Checks"

/-- The checks that come with the program, by their codes as text. -/
def checks : List Check :=
  Catalogue.builtin.mergeSort fun a b => a.code.toText ≤ b.code.toText

def text : String :=
  header ++ String.join (checks.map fun c => "\n\n" ++ section_ c)

/-- The header and the sections. A section is what follows a blank line and two hash signs. -/
def parts : List String := ("\n" ++ text).splitOn "\n\n## "

end Manual

end IdiomLint
