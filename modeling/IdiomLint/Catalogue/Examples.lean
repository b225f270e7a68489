import IdiomLint.Check.Basic
import IdiomLint.Loading.Signature

/-! Example checks, which run only if they are loaded by name. -/
namespace IdiomLint.Catalogue.Examples

def series : String := "XYZ"

def message : String := "Your message here"

/-- A finding at the start of every node. -/
def atStart (message : String) (n : Node) : List Finding :=
  [Finding.startingAt n.line n.span.column message]

def disabled : Check where
  code := ⟨series, 101⟩
  name := none
  categories := []
  enabled := false
  classes := [.file]
  judge := .plain fun _ => atStart "This message is disabled by default"
  location := "test/custom_checks/disabled_check.py"
  explanation := none

def anyCall : Check where
  code := ⟨series, 100⟩
  name := none
  categories := []
  classes := [.call]
  judge := .plain fun _ => atStart message
  location := "test/custom_checks/disallow_call.py"
  explanation := some [
    "This check will simply emit an error whenever a `CallExpr` node is hit"]

def anyEllipsis : Check where
  code := ⟨series, 102⟩
  name := none
  categories := []
  classes := [.ellipsis]
  judge := .plain fun _ => atStart message
  location := "test/custom_checks/no_docstring.py"
  explanation := none

def fileList (files : List String) : String :=
  "[" ++ ", ".intercalate (files.map Text.quoted) ++ "]"

def checkedFiles : Check where
  code := ⟨series, 103⟩
  name := none
  categories := []
  classes := [.file]
  judge := .plain fun env => atStart ("Files being checked: " ++ fileList env.files)
  location := "test/custom_checks/settings.py"
  explanation := some [
    "TODO: fill this in",
    "",
    "Bad:",
    "",
    "```",
    "# TODO: fill this in",
    "```",
    "",
    "Good:",
    "",
    "```",
    "# TODO: fill this in",
    "```"]

def all : List Check := [disabled, anyCall, anyEllipsis, checkedFiles]

/-- The check whose function looks at no node. -/
def misdeclaredKind : Kind := ⟨⟨series, 104⟩, [], true⟩

def misdeclared : Signature :=
  ⟨[("node", .named "int"), ("errors", .container "list" "Error")], true⟩

def misdeclaredLocation : String := "test/invalid_checks/invalid_check.py"

def misdeclaredLine : Nat := 13

end IdiomLint.Catalogue.Examples
