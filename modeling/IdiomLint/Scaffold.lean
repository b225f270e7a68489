import IdiomLint.Loading.Load

/-! The text of a new check. -/
namespace IdiomLint.Scaffold

/-- The module of the type checker that defines a class of nodes. -/
def homeModule (cls : NodeClass) : String :=
  if cls.isPattern then "mypy.patterns" else "mypy.nodes"

/-- A name that no class of nodes has. -/
inductive UnknownClass where
  | unknown (name : String)
deriving DecidableEq

def class_ (name : String) : Except UnknownClass NodeClass :=
  match NodeClass.ofLabel? name with
  | some cls => .ok cls
  | none => .error (.unknown name)

def importLine (classes : List NodeClass) (home : String) : Option String :=
  match classes.filter fun cls => homeModule cls == home with
  | [] => none
  | own => some ("from " ++ home ++ " import " ++ ", ".intercalate (own.map NodeClass.label))

/-- The lines that import classes of nodes, one for each module, by the names of the modules. -/
def imports (names : List String) : Except UnknownClass String := do
  let classes ← names.mapM class_
  let lines := ["mypy.nodes", "mypy.patterns"].filterMap (importLine classes)
  return "\n".intercalate lines

/-- The first number of a new series. -/
def firstNumber : Nat := 100

def number (series : String) : Nat :=
  match nextNumber series with
  | 0 => firstNumber
  | n => n

/-- The text of a module with a new check for nodes of the named classes. -/
def text (names : List String) (series : String) : Except UnknownClass String := do
  let importLines ← imports names
  return "\n".intercalate [
    "from dataclasses import dataclass",
    "",
    importLines,
    "",
    "from refurb.error import Error",
    "",
    "",
    "@dataclass",
    "class ErrorInfo(Error):",
    "    \"\"\"",
    "    TODO: fill this in",
    "",
    "    Bad:",
    "",
    "    ```",
    "    # TODO: fill this in",
    "    ```",
    "",
    "    Good:",
    "",
    "    ```",
    "    # TODO: fill this in",
    "    ```",
    "    \"\"\"",
    "",
    "    prefix = \"" ++ series ++ "\"",
    "    code = " ++ toString (number series),
    "    msg: str = \"Your message here\"",
    "",
    "",
    "def check(node: " ++ " | ".intercalate names ++ ", errors: list[Error]) -> None:",
    "    match node:",
    "        case " ++ " | ".intercalate (names.map fun n => n ++ "()") ++ ":",
    "            errors.append(ErrorInfo.from_node(node))",
    ""]

end IdiomLint.Scaffold
