import IdiomLint.Session.Basic

/-! Making a new check: the user chooses classes of nodes, a file and a series of codes. -/
namespace IdiomLint.Run

/-- The filter was left without a choice. -/
def gaveUp (status : Int) : Bool := status == 2 || status == 130

/-- A text without its last byte. -/
def withoutLastByte (s : String) : Run String :=
  match s.toList.reverse with
  | [] => return ""
  | c :: before =>
    if c.toNat < 128 then return String.ofList before.reverse else throw .cutCharacter

def ask (p : Prompt) : Run String := do
  modify fun st => { st with prompts := st.prompts ++ [p] }
  let st ← get
  match st.replies with
  | [] => throw .noReply
  | r :: later =>
    set { st with replies := later }
    if gaveUp r.status then throw (.quit 1) else withoutLastByte r.output

def classesPrompt : Prompt :=
  ⟨["--prompt", "type> ", "--multi"], some (NodeClass.all.map NodeClass.label)⟩

def filePrompt : Prompt :=
  ⟨["--prompt", "filename> ", "--print-query", "--query", "refurb/checks/"], none⟩

def seriesPrompt : Prompt :=
  ⟨["--prompt", "prefix> ", "--print-query", "--query", Code.homeSeries], some [""]⟩

/-- Makes the directory of a new file and marks it, and those above it up to the working directory,
as packages. Nothing more is done if a file is in the way. -/
def makePackages (directory : Path) : Run Unit := do
  let fs := (← get).files
  match fs.makeDirectories directory with
  | .error .isFile => return
  | .error e => throw (.writing e)
  | .ok made => do
    modify fun st => { st with files := made }
    let folders ← orElse (fun .nullCharacter => .writing .nullCharacter)
      (fs.cwd.foldersBelow fs.links directory)
    for folder in folders do
      onFiles fun fs => fs.touch (folder.join (Path.ofText "__init__.py"))

def generate : Run Unit := do
  let names := (Text.lines (← ask classesPrompt)).mergeSort fun a b => a ≤ b
  match Text.lines (← ask filePrompt) with
  | [] => throw .noFileName
  | name :: _ => do
    let file := Path.ofText name
    if file.suffix != ".py" then
      printLine "refurb: File must end in \".py\""
      throw (.quit 1)
    let series ← ask seriesPrompt
    let text ← orElse .unknownClass (Scaffold.text names series)
    makePackages file.parent
    onFiles fun fs => fs.write file text
    printLine ("Generated " ++ file.toText)

end IdiomLint.Run
