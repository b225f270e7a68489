import IdiomLint.Check.Env
import IdiomLint.Check.Finding
import IdiomLint.Syntax.Outline
import IdiomLint.Syntax.SourceText

/-! Functions on path strings that path objects have methods for. -/
namespace IdiomLint.Rules.Paths

open Finding

/-- A path object as it is, anything else wrapped into one. -/
def receiver (env : Env) (arg : Node) : String := if env.isPath arg then "x" else "Path(x)"

def refName (n : Node) : String := (n.ref?.map (·.fullname)).getD ""

/-- `str(path)[:4] + ".txt"` changes a suffix. -/
def withSuffix (env : Env) : Node → List Finding
  | n@⟨_, .binary .add ⟨_, .index ⟨_, .call ⟨_, .name f _⟩ [⟨arg, _, _⟩] _⟩
      ⟨_, .slice none _ _⟩ _ _⟩ suffix@⟨_, .str _⟩ _ _⟩ =>
    if f.name == "str" && env.isPath arg then
      [replace arg n.sourceText
        ("Path(" ++ arg.sourceText ++ ").with_suffix(" ++ suffix.outline ++ ")")]
    else []
  | _ => []

def workingDirectory (_ : Env) : Node → List Finding
  | n@⟨_, .call callee _ _⟩ =>
    let name := refName callee
    if name == "os.getcwd" || name == "os.getcwdb" then [replace n (name ++ "()") "Path.cwd()"]
    else []
  | _ => []

def existence (env : Env) : Node → List Finding
  | n@⟨_, .call callee [⟨arg, _, _⟩] _⟩ =>
    if normalizeOsPath (refName callee) == "os.path.exists" then
      [replace n "os.path.exists(x)" (receiver env arg ++ ".exists()")]
    else []
  | _ => []

/-- A function of one path that becomes a member of a path object; `members` gives the new
spelling. -/
def renamed (members : List (String × String)) (env : Env) : Node → List Finding
  | n@⟨_, .call callee [⟨arg, _, _⟩] _⟩ =>
    let name := normalizeOsPath (refName callee)
    match members.lookup name with
    | none => []
    | some new =>
      if env.isPath arg || env.hasType arg [.builtin "str", .builtin "bytes"] then
        [replace n (name ++ "(x)") (receiver env arg ++ "." ++ new)]
      else []
  | _ => []

def statistics : Env → Node → List Finding :=
  renamed [("os.stat", "stat()"), ("os.path.getsize", "stat().st_size"),
    ("os.path.getatime", "stat().st_atime"), ("os.path.getmtime", "stat().st_mtime"),
    ("os.path.getctime", "stat().st_ctime")]

def fileKind : Env → Node → List Finding :=
  renamed [("os.path.isabs", "is_absolute()"), ("os.path.isdir", "is_dir()"),
    ("os.path.isfile", "is_file()"), ("os.path.islink", "is_symlink()")]

def makeDirectory (env : Env) : Node → List Finding
  | n@⟨_, .call callee args@(⟨first, _, _⟩ :: more) _⟩ =>
    let name := refName callee
    let deep := name == "os.makedirs"
    let allowed := [none, some "mode"] ++ (if deep then [some "exist_ok"] else [])
    if !(deep || name == "os.mkdir") then []
    else if !more.isEmpty && args.any (fun a => !allowed.contains a.name) then []
    else
      let dots := if more.isEmpty then [] else ["..."]
      let parents := if deep then ["parents=True"] else []
      [replace n (name ++ "(" ++ ", ".intercalate ("x" :: dots) ++ ")")
        (receiver env first ++ ".mkdir(" ++ ", ".intercalate (dots ++ parents) ++ ")")]
  | _ => []

/-- The text of a path that means the working directory. -/
def isHere (s : String) : Bool := s == "" || s == "."

def implicitWorkingDirectory (_ : Env) : Node → List Finding
  | n@⟨_, .call ⟨_, .member ⟨_, .call callee args _⟩ ref⟩ [] _⟩ =>
    if ref.name == "resolve" && callee.refersTo "pathlib.Path" then
      match args with
      | [] => [replace n "Path().resolve()" "Path.cwd()"]
      | [⟨⟨_, .str s⟩, _, _⟩] =>
        if isHere s then [replace n ("Path(\"" ++ s ++ "\").resolve()") "Path.cwd()"] else []
      | _ => []
    else []
  | _ => []

/-- The spelling of an argument that goes one directory up. -/
def upwards? : Node → Option String
  | ⟨_, .str s⟩ => if s == ".." then some "\"..\"" else none
  | ⟨_, .bytes s⟩ => if s == ".." then some "b\"..\"" else none
  | _ => none

def joining (_ : Env) : Node → List Finding
  | n@⟨_, .call callee args@(_ :: _) _⟩ =>
    if normalizeOsPath (refName callee) == "os.path.join" then
      let spelled := args.reverse.map fun a => upwards? a.value
      let ups := (spelled.takeWhile Option.isSome).filterMap id
      let down := args.length - ups.length
      if down ≤ 3 then
        let placeholders := ["x", "y", "z"].take down
        [replace n ("os.path.join(" ++ ", ".intercalate (placeholders ++ ups) ++ ")")
          ("Path(" ++ ", ".intercalate placeholders ++ ")"
            ++ String.join (ups.map fun _ => ".parent"))]
      else [replace n "os.path.join(...)" "Path(...)"]
    else []
  | _ => []

def constructor (_ : Env) : Node → List Finding
  | n@⟨_, .call callee [⟨arg, _, _⟩] _⟩ =>
    if callee.refersTo "pathlib.Path" then
      match arg with
      | ⟨_, .str s⟩ =>
        if isHere s then [replace n (callee.sourceText ++ "(\"" ++ s ++ "\")") "Path()"] else []
      | _ =>
        let name := normalizeOsPath (refName arg)
        if name == "os.curdir" || name == "os.path.curdir" then
          [replace n (callee.sourceText ++ "(" ++ arg.sourceText ++ ")") "Path()"]
        else []
    else []
  | _ => []

def removal (env : Env) : Node → List Finding
  | n@⟨_, .call callee [⟨arg, _, _⟩] _⟩ =>
    match callee.ref? with
    | none => []
    | some ref =>
      if ref.fullname == "os.remove" || ref.fullname == "os.unlink" then
        [replace n ("os." ++ ref.name ++ "(x)") (receiver env arg ++ ".unlink()")]
      else []
  | _ => []

/-- A dot and at least one letter, digit, underscore or dash; a line end may follow. -/
def isExtension (s : String) : Bool :=
  let body := match s.toList.reverse with
    | '\n' :: rest => rest.reverse
    | _ => s.toList
  match body with
  | '.' :: rest =>
    !rest.isEmpty && rest.all fun c => c.isAlphanum || c == '_' || c == '-'
  | _ => false

def extension (env : Env) : Node → List Finding
  | n@⟨_, .call ⟨_, .member ⟨_, .member file inner⟩ outer⟩ [⟨⟨_, .str suffix⟩, _, _⟩] _⟩ =>
    if outer.name == "endswith" && inner.name == "name" && isExtension suffix
        && env.isPath file then
      [replace n ("x.name.endswith(\"" ++ suffix ++ "\")") ("x.suffix == \"" ++ suffix ++ "\"")]
    else []
  | _ => []

end IdiomLint.Rules.Paths
