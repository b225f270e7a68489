import IdiomLint.Check.Basic
import IdiomLint.Rules.Loops

/-! The checks on loop variables. -/
namespace IdiomLint.Catalogue.Loops

def dictItems : Check where
  code := ⟨Code.homeSeries, 135⟩
  name := some "no-ignored-dict-items"
  categories := ["dict"]
  classes := [.forLoop, .generator, .dictComp]
  judge := .fallible Rules.Loops.dictItems
  location := "refurb/checks/builtin/no_ignored_dict_items.py"
  explanation := some [
    "Don't use `.items()` on a `dict` if you only care about the keys or the",
    "values, but not both:",
    "",
    "Bad:",
    "",
    "```",
    "books = \x7b\"Frank Herbert\": \"Dune\"\x7d",
    "",
    "for author, _ in books.items():",
    "    print(author)",
    "",
    "for _, book in books.items():",
    "    print(book)",
    "```",
    "",
    "Good:",
    "",
    "```",
    "books = \x7b\"Frank Herbert\": \"Dune\"\x7d",
    "",
    "for author in books:",
    "    print(author)",
    "",
    "for book in books.values():",
    "    print(book)",
    "```"]

def enumeration : Check where
  code := ⟨Code.homeSeries, 148⟩
  name := some "no-ignored-enumerate-items"
  categories := ["builtin"]
  classes := [.forLoop, .generator, .dictComp]
  judge := .fallible Rules.Loops.enumeration
  location := "refurb/checks/builtin/no_ignored_enumerate.py"
  explanation := some [
    "Don't use `enumerate` if you are disregarding either the index or the",
    "value:",
    "",
    "Bad:",
    "",
    "```",
    "books = [\"Ender's Game\", \"The Black Swan\"]",
    "",
    "for index, _ in enumerate(books):",
    "    print(index)",
    "",
    "for _, book in enumerate(books):",
    "    print(book)",
    "```",
    "",
    "Good:",
    "",
    "```",
    "books = [\"Ender's Game\", \"The Black Swan\"]",
    "",
    "for index in range(len(books)):",
    "    print(index)",
    "",
    "for book in books:",
    "    print(book)",
    "```"]

end IdiomLint.Catalogue.Loops
