import IdiomLint.Check.Basic
import IdiomLint.Rules.ControlFlow

/-! The checks on control flow. -/
namespace IdiomLint.Catalogue.ControlFlow

def droppedException : Check where
  code := ⟨Code.homeSeries, 107⟩
  name := some "use-with-suppress"
  categories := ["contextlib", "readability"]
  classes := [.tryBlock]
  judge := .plain Rules.ControlFlow.droppedException
  location := "refurb/checks/contextlib/with_suppress.py"
  explanation := some [
    "Often times you want to handle an exception and just ignore it. You can do",
    "this with a `try`/`except` block with a single `pass` in the `except`",
    "block, but there is a simpler and more concise way using the `suppress()`",
    "function from `contextlib`:",
    "",
    "Bad:",
    "",
    "```",
    "try:",
    "    f()",
    "",
    "except FileNotFoundError:",
    "    pass",
    "```",
    "",
    "Good:",
    "",
    "```",
    "with suppress(FileNotFoundError):",
    "    f()",
    "```",
    "",
    "Note: `suppress()` is slower than using `try`/`except`, so for performance",
    "critical code you might consider ignoring this check."]

def redundantContinue : Check where
  code := ⟨Code.homeSeries, 133⟩
  name := some "no-redundant-continue"
  categories := ["control-flow", "readability"]
  classes := [.forLoop, .whileLoop]
  judge := .fallible Rules.ControlFlow.redundantContinue
  location := "refurb/checks/flow/no_trailing_continue.py"
  explanation := some [
    "Don't explicitly continue if you are already at the end of the control flow",
    "for the current for/while loop:",
    "",
    "Bad:",
    "",
    "```",
    "def func():",
    "    for _ in range(10):",
    "        print(\"hello world!\")",
    "",
    "        continue",
    "",
    "def func2(x):",
    "    for x in range(10):",
    "        if x == 1:",
    "            print(\"x is 1\")",
    "",
    "        else:",
    "            print(\"x is not 1\")",
    "",
    "            continue",
    "```",
    "",
    "Good:",
    "",
    "```",
    "def func():",
    "    for _ in range(10):",
    "        print(\"hello world!\")",
    "",
    "def func2(x):",
    "    for x in range(10):",
    "        if x == 1:",
    "            print(\"x is 1\")",
    "",
    "        else:",
    "            print(\"x is not 1\")",
    "```"]

def redundantReturn : Check where
  code := ⟨Code.homeSeries, 125⟩
  name := some "no-redundant-return"
  categories := ["control-flow", "readability"]
  classes := [.functionItem]
  judge := .fallible Rules.ControlFlow.redundantReturn
  location := "refurb/checks/flow/no_trailing_return.py"
  explanation := some [
    "Don't explicitly return if you are already at the end of the control flow",
    "for the current function:",
    "",
    "Bad:",
    "",
    "```",
    "def func():",
    "    print(\"hello world!\")",
    "",
    "    return",
    "",
    "def func2(x):",
    "    if x == 1:",
    "        print(\"x is 1\")",
    "",
    "    else:",
    "        print(\"x is not 1\")",
    "",
    "        return",
    "```",
    "",
    "Good:",
    "",
    "```",
    "def func():",
    "    print(\"hello world!\")",
    "",
    "def func2(x):",
    "    if x == 1:",
    "        print(\"x is 1\")",
    "",
    "    else:",
    "        print(\"x is not 1\")",
    "```"]

def elseReturn : Check where
  code := ⟨Code.homeSeries, 126⟩
  name := some "simplify-return"
  categories := ["control-flow", "readability"]
  classes := [.functionItem]
  judge := .fallible Rules.ControlFlow.elseReturn
  location := "refurb/checks/flow/simplify_return.py"
  explanation := some [
    "Sometimes a return statement can be written more succinctly:",
    "",
    "Bad:",
    "",
    "```",
    "def index_or_default(nums: list[Any], index: int, default: Any):",
    "    if index >= len(nums):",
    "        return default",
    "",
    "    else:",
    "        return nums[index]",
    "",
    "def is_on_axis(position: tuple[int, int]) -> bool:",
    "    match position:",
    "        case (0, _) | (_, 0):",
    "            return True",
    "",
    "        case _:",
    "            return False",
    "```",
    "",
    "Good:",
    "",
    "```",
    "def index_or_default(nums: list[Any], index: int, default: Any):",
    "    if index >= len(nums):",
    "        return default",
    "",
    "    return nums[index]",
    "",
    "def is_on_axis(position: tuple[int, int]) -> bool:",
    "    match position:",
    "        case (0, _) | (_, 0):",
    "            return True",
    "",
    "    return False",
    "```"]

end IdiomLint.Catalogue.ControlFlow
