import IdiomLint.Rules.Paths
import IdiomLint.Syntax.Equivalence

/-! Opening, reading and writing files. -/
namespace IdiomLint.Rules.OpenFiles

open Finding

/-- The path that is opened, and whether it was turned into a string first. -/
def openedPath : Node → Node × Bool
  | n@⟨_, .call callee [⟨inner, _, _⟩] _⟩ =>
    if callee.isNameOf "builtins.str" then (inner, true) else (n, false)
  | n => (n, false)

def openPath (env : Env) : Node → List Finding
  | ⟨_, .call callee (⟨first, _, _⟩ :: rest) _⟩ =>
    let (path, converted) := openedPath first
    if callee.isNameOf "builtins.open" && env.isPath path then
      let mode := match rest with
        | ⟨⟨_, .str s⟩, _, _⟩ :: _ => some ("\"" ++ s ++ "\"")
        | _ => none
      let inner := path.sourceText
      let shown := if converted then "str(" ++ inner ++ ")" else inner
      [replace callee ("open(" ++ shown ++ (mode.map (", " ++ ·)).getD "" ++ ")")
        (inner ++ ".open(" ++ mode.getD "" ++ ")")]
    else []
  | _ => []

/-- How the further arguments of an opening change the suggestion: whether there are any that
count, the parameters of the read, and whether bytes are read. None if one is not supported. -/
structure ReadOptions where
  hasMore : Bool := false
  hasParams : Bool := false
  isBinary : Bool := false

def readOptions? (args : List (CallArg Node)) : Option ReadOptions :=
  args.foldlM (fun (o : ReadOptions) a =>
    match a.name with
    | none => some (withMode o a.value)
    | some "mode" => some (withMode o a.value)
    | some "encoding" => some { o with hasMore := true, hasParams := true }
    | some "errors" => some { o with hasMore := true, hasParams := true }
    | some _ => none) {}
where
  withMode (o : ReadOptions) (value : Node) : ReadOptions :=
    match value with
    | ⟨_, .str mode⟩ => { o with hasMore := true, isBinary := o.isBinary || mode.any (· == 'b') }
    | _ => { o with hasMore := true }

def readWhole (_ : Env) : Node → List Finding
  | n@⟨_, .withBlock [⟨⟨_, .call ⟨_, .name f _⟩ args _⟩, some ⟨_, .name target _⟩⟩]
      ⟨_, .block [⟨_, .assignment _ ⟨_, .call ⟨_, .member ⟨_, .name source _⟩ method⟩ [] _⟩⟩]⟩ _⟩ =>
    if f.name == "open" && method.name == "read" && target.name == source.name then
      match readOptions? (args.drop 1) with
      | none => []
      | some o =>
        let function := if o.isBinary then "read_bytes" else "read_text"
        [replace n
          ("with open(x" ++ (if o.hasMore then ", ..." else "") ++ ") as f: y = f.read()")
          ("y = Path(x)." ++ function ++ "(" ++ (if o.hasParams then "..." else "") ++ ")")]
    else []
  | _ => []

def writeWhole (_ : Env) : Node → List Finding
  | n@⟨_, .withBlock [⟨⟨_, .call ⟨_, .name f _⟩ [_, ⟨⟨_, .str mode⟩, _, _⟩] _⟩,
        some ⟨_, .name target _⟩⟩]
      ⟨_, .block [⟨_, .expression ⟨_, .call ⟨_, .member ⟨_, .name source _⟩ method⟩ _ _⟩⟩]⟩ _⟩ =>
    if f.name == "open" && method.name == "write" && target.name == source.name
        && mode.any (· == 'w') then
      let function := if mode.any (· == 'b') then "write_bytes" else "write_text"
      [replace n "with open(x, ...) as f: f.write(y)" ("Path(x)." ++ function ++ "(y)")]
    else []
  | _ => []

def touch (env : Env) : Node → List Finding
  | n@⟨_, .call ⟨_, .member
      ⟨_, .call callee [⟨path, _, _⟩, ⟨⟨_, .str mode⟩, _, modeName⟩] _⟩ method⟩ [] _⟩ =>
    if method.name == "close" && callee.isNameOf "builtins.open"
        && (modeName == none || modeName == some "mode") && mode.any (· == 'w') then
      [replace n ("open(x, \"" ++ mode ++ "\").close()") (Paths.receiver env path ++ ".touch()")]
    else []
  | _ => []

def isFile (env : Env) (n : Node) : Except Fault Bool := env.inherits n "io.IOBase"

def writeLines (env : Env) : Node → Except Fault (List Finding)
  | ⟨_, .withBlock [⟨_, some file@⟨_, .name _ _⟩⟩]
      ⟨_, .block [loop@⟨_, .forLoop index@⟨_, .name _ _⟩ source
        ⟨_, .block [⟨_, .expression ⟨_, .call ⟨_, .member base@⟨_, .name _ _⟩ method⟩
          [⟨arg, _, _⟩] _⟩⟩]⟩ none false⟩]⟩ _⟩ =>
    if method.name == "write" then do
      if (← isFile env file) && file.equivalent base then
        let lines :=
          if index.equivalent arg then source.sourceText
          else arg.sourceText ++ " for " ++ index.sourceText ++ " in " ++ source.sourceText
        return [replace loop loop.sourceText (file.sourceText ++ ".writelines(" ++ lines ++ ")")]
      else return []
    else .ok []
  | _ => .ok []

def readLines (env : Env) : Node → Except Fault (List Finding)
  | ⟨_, .call ⟨_, .member file method⟩ [] _⟩ =>
    if method.name == "readlines" then do
      if ← isFile env file then
        let text := file.sourceText
        return [replace file (text ++ ".readlines()") text]
      else return []
    else .ok []
  | _ => .ok []

/-- A file is iterated over line by line. -/
def iteratedLines (env : Env) : Node → Except Fault (List Finding)
  | ⟨_, .forLoop _ source _ _ _⟩ => readLines env source
  | ⟨_, .generator _ clauses⟩ => (clauses.mapM fun c => readLines env c.source).map List.flatten
  | _ => .ok []

end IdiomLint.Rules.OpenFiles
