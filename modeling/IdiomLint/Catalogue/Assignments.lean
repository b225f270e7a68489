import IdiomLint.Check.Basic
import IdiomLint.Rules.Assignments

/-! The checks on assignments. -/
namespace IdiomLint.Catalogue.Assignments

def declarations : Check where
  code := ⟨Code.homeSeries, 154⟩
  name := some "simplify-global-and-nonlocal"
  categories := ["builtin", "readability"]
  classes := [.block]
  judge := .plain Rules.Assignments.declarations
  location := "refurb/checks/builtin/simplify_global_and_nonlocal.py"
  explanation := some [
    "The `global` and `nonlocal` keywords can take multiple comma-separated",
    "names, removing the need for multiple lines.",
    "",
    "Bad:",
    "",
    "```",
    "def some_func():",
    "    global x",
    "    global y",
    "",
    "    print(x, y)",
    "```",
    "",
    "Good:",
    "",
    "```",
    "def some_func():",
    "    global x, y",
    "",
    "    print(x, y)",
    "```"]

def withAssignment : Check where
  code := ⟨Code.homeSeries, 127⟩
  name := some "no-with-assign"
  categories := ["readability", "scoping"]
  classes := [.block, .file]
  judge := .plain Rules.Assignments.withAssignment
  location := "refurb/checks/flow/no_with_assign.py"
  explanation := some [
    "Due to Python's scoping rules, you can use a variable that has gone \"out",
    "of scope\" so long as all previous code paths can bind to it. Long story",
    "short, you don't need to declare a variable before you assign it in a",
    "`with` statement:",
    "",
    "Bad:",
    "",
    "```",
    "x = \"\"",
    "",
    "with open(\"file.txt\") as f:",
    "    x = f.read()",
    "```",
    "",
    "Good:",
    "",
    "```",
    "with open(\"file.txt\") as f:",
    "    x = f.read()",
    "```"]

def selfAssignment : Check where
  code := ⟨Code.homeSeries, 160⟩
  name := some "no-redundant-assignment"
  categories := ["readability"]
  classes := [.assignment]
  judge := .plain Rules.Assignments.selfAssignment
  location := "refurb/checks/readability/no_redundant_assign.py"
  explanation := some [
    "Sometimes when you are debugging (or copy-pasting code) you will end up",
    "with a variable that is assigning itself to itself. These lines can be",
    "removed.",
    "",
    "Bad:",
    "",
    "```",
    "name = input(\"What is your name? \")",
    "name = name",
    "```",
    "",
    "Good:",
    "",
    "```",
    "name = input(\"What is your name? \")",
    "```"]

def tupleSwap : Check where
  code := ⟨Code.homeSeries, 128⟩
  name := some "use-tuple-unpack-swap"
  categories := ["readability"]
  classes := [.block, .file]
  judge := .plain Rules.Assignments.tupleSwap
  location := "refurb/checks/readability/use_tuple_swap.py"
  explanation := some [
    "You don't need to use a temporary variable to swap 2 variables, you can use",
    "tuple unpacking instead:",
    "",
    "Bad:",
    "",
    "```",
    "temp = x",
    "x = y",
    "y = temp",
    "```",
    "",
    "Good:",
    "",
    "```",
    "x, y = y, x",
    "```"]

end IdiomLint.Catalogue.Assignments
