import IdiomLint.Check.Basic
import IdiomLint.Rules.TypeTests

/-! The checks on tests of types. -/
namespace IdiomLint.Catalogue.TypeTests

def typeIsNone : Check where
  code := ⟨Code.homeSeries, 169⟩
  name := some "no-is-type-none"
  categories := ["pythonic", "readability"]
  classes := [.comparison]
  judge := .plain Rules.TypeTests.typeIsNone
  location := "refurb/checks/builtin/no_is_type_none.py"
  explanation := some [
    "Don't use `type(None)` to check if the type of an object is `None`, use an",
    "`is` comparison instead.",
    "",
    "Bad:",
    "",
    "```",
    "x = 123",
    "",
    "if type(x) is type(None):",
    "    pass",
    "```",
    "",
    "Good:",
    "",
    "```",
    "x = 123",
    "",
    "if x is None:",
    "    pass",
    "```"]

def instanceOfNone : Check where
  code := ⟨Code.homeSeries, 168⟩
  name := some "no-isinstance-type-none"
  categories := ["pythonic", "readability"]
  classes := [.call]
  judge := .plain Rules.TypeTests.instanceOfNone
  location := "refurb/checks/builtin/no_isinstance_type_none.py"
  explanation := some [
    "Checking if an object is `None` using `isinstance()` is un-pythonic: use an",
    "`is` comparison instead.",
    "",
    "Bad:",
    "",
    "```",
    "x = 123",
    "",
    "if isinstance(x, type(None)):",
    "    pass",
    "```",
    "",
    "Good:",
    "",
    "```",
    "x = 123",
    "",
    "if x is None:",
    "    pass",
    "```"]

def sameValueTests : Check where
  code := ⟨Code.homeSeries, 121⟩
  name := some "use-isinstance-issubclass-tuple"
  categories := ["python310", "readability"]
  classes := [.binary]
  judge := .fallible Rules.TypeTests.sameValueTests
  location := "refurb/checks/builtin/use_isinstance_tuple.py"
  explanation := some [
    "`isinstance()` and `issubclass()` both take tuple arguments, so instead of",
    "calling them multiple times for the same object, you can check all of them",
    "at once:",
    "",
    "Bad:",
    "",
    "```",
    "if isinstance(num, float) or isinstance(num, int):",
    "    pass",
    "```",
    "",
    "Good:",
    "",
    "```",
    "if isinstance(num, (float, int)):",
    "    pass",
    "```",
    "",
    "Note: In Python 3.10+, you can also pass type unions as the second param to",
    "these functions:",
    "",
    "```",
    "if isinstance(num, float | int):",
    "    pass",
    "```"]

end IdiomLint.Catalogue.TypeTests
