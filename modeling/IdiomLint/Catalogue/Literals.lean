import IdiomLint.Check.Basic
import IdiomLint.Rules.Literals

/-! The checks on literals. -/
namespace IdiomLint.Catalogue.Literals

def redundantConversion : Check where
  code := ⟨Code.homeSeries, 123⟩
  name := some "no-redundant-cast"
  categories := ["readability"]
  classes := [.call]
  judge := .plain Rules.Literals.redundantConversion
  location := "refurb/checks/readability/no_unnecessary_cast.py"
  explanation := some [
    "Don't cast a variable or literal if it is already of that type. This",
    "usually is the result of not realizing a type is already the type you want,",
    "or artifacts of some debugging code. One example of where this might be",
    "intentional is when using container types like `dict` or `list`, which",
    "will create a shallow copy. If that is the case, it might be preferable",
    "to use `.copy()` instead, since it makes it more explicit that a copy",
    "is taking place.",
    "",
    "Examples:",
    "",
    "Bad:",
    "",
    "```",
    "name = str(\"bob\")",
    "num = int(123)",
    "",
    "ages = \x7b\"bob\": 123\x7d",
    "copy = dict(ages)",
    "```",
    "",
    "Good:",
    "",
    "```",
    "name = \"bob\"",
    "num = 123",
    "",
    "ages = \x7b\"bob\": 123\x7d",
    "copy = ages.copy()",
    "```"]

def emptyCall : Check where
  code := ⟨Code.homeSeries, 112⟩
  name := some "use-literal"
  categories := ["pythonic", "readability"]
  classes := [.call]
  judge := .plain Rules.Literals.emptyCall
  location := "refurb/checks/readability/use_literal.py"
  explanation := some [
    "Using `list` and `dict` without any arguments is slower, and not Pythonic.",
    "Use `[]` and `\x7b\x7d` instead:",
    "",
    "Bad:",
    "",
    "```",
    "nums = list()",
    "books = dict()",
    "```",
    "",
    "Good:",
    "",
    "```",
    "nums = []",
    "books = \x7b\x7d",
    "```"]

end IdiomLint.Catalogue.Literals
