import IdiomLint.Check.Basic
import IdiomLint.Rules.Classes

/-! The checks on classes. -/
namespace IdiomLint.Catalogue.Classes

def builtinBase : Check where
  code := ⟨Code.homeSeries, 189⟩
  name := some "no-subclass-builtin"
  categories := ["collections"]
  enabled := false
  classes := [.classDef]
  judge := .plain Rules.Classes.builtinBase
  location := "refurb/checks/collections/no_subclass_builtin.py"
  explanation := some [
    "Subclassing `dict`, `list`, or `str` objects can be error prone, use the",
    "`UserDict`, `UserList`, and `UserStr` objects from the `collections` module",
    "instead.",
    "",
    "Bad:",
    "",
    "```",
    "class CaseInsensitiveDict(dict):",
    "    ...",
    "```",
    "",
    "Good:",
    "",
    "```",
    "from collections import UserDict",
    "",
    "class CaseInsensitiveDict(UserDict):",
    "    ...",
    "```",
    "",
    "Note: `isinstance()` checks for `dict`, `list`, and `str` types will fail",
    "when using the corresponding User class. If you need to pass custom `dict`",
    "or `list` objects to code you don't control, ignore this check. If you do",
    "control the code, consider using the following type checks instead:",
    "",
    "* `dict` -> `collections.abc.MutableMapping`",
    "* `list` -> `collections.abc.MutableSequence`",
    "* `str` -> No such conversion exists"]

def asPattern : Check where
  code := ⟨Code.homeSeries, 158⟩
  name := some "simplify-as-pattern-with-builtin"
  categories := ["pattern-matching", "readability"]
  classes := [.asPattern]
  judge := .plain Rules.Classes.asPattern
  location := "refurb/checks/pattern_matching/simplify_as_builtin.py"
  explanation := some [
    "When pattern matching builtin classes such as `int()` and `str()`, don't",
    "use an `as` pattern to bind to the value, since the most common builtin",
    "classes can use positional patterns instead.",
    "",
    "Bad:",
    "",
    "```",
    "match x:",
    "    case str() as name:",
    "        print(f\"Hello \x7bname\x7d\")",
    "```",
    "",
    "Good:",
    "",
    "```",
    "match x:",
    "    case str(name):",
    "        print(f\"Hello \x7bname\x7d\")",
    "```"]

def temporaryObject : Check where
  code := ⟨Code.homeSeries, 165⟩
  name := some "no-temp-class-object"
  categories := ["readability"]
  classes := [.call]
  judge := .plain Rules.Classes.temporaryObject
  location := "refurb/checks/readability/no_temp_class_object.py"
  explanation := some [
    "You don't need to construct a class object to call a static method or a",
    "class method, just invoke the method on the class directly:",
    "",
    "Bad:",
    "",
    "```",
    "cwd = Path().cwd()",
    "```",
    "",
    "Good:",
    "",
    "```",
    "cwd = Path.cwd()",
    "```"]

def abstractMetaclass : Check where
  code := ⟨Code.homeSeries, 180⟩
  name := some "use-abc-shorthand"
  categories := ["abc", "readability"]
  classes := [.classDef]
  judge := .plain Rules.Classes.abstractMetaclass
  location := "refurb/checks/readability/use_abc_shorthand.py"
  explanation := some [
    "Instead of setting `metaclass` directly, inherit from the `ABC` wrapper",
    "class. This is semantically the same thing, but more succinct.",
    "",
    "Bad:",
    "",
    "```",
    "class C(metaclass=ABCMeta):",
    "    pass",
    "```",
    "",
    "Good:",
    "",
    "```",
    "class C(ABC):",
    "    pass",
    "```"]

end IdiomLint.Catalogue.Classes
