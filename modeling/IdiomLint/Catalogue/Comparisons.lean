import IdiomLint.Check.Basic
import IdiomLint.Rules.Comparisons

/-! The checks on comparisons. -/
namespace IdiomLint.Catalogue.Comparisons

def inBracket : Check where
  code := ⟨Code.homeSeries, 109⟩
  name := some "use-consistent-in-bracket"
  categories := ["iterable", "readability"]
  classes := [.comparison, .forLoop, .generator]
  judge := .plain Rules.Comparisons.inBracket
  location := "refurb/checks/iterable/in_tuple.py"
  explanation := some [
    "Since tuple, list, and set literals can be used with the `in` operator, it",
    "is best to pick one and stick with it.",
    "",
    "Bad:",
    "",
    "```",
    "for x in (1, 2, 3):",
    "    pass",
    "",
    "nums = [str(x) for x in [1, 2, 3]]",
    "```",
    "",
    "Good:",
    "",
    "```",
    "for x in (1, 2, 3):",
    "    pass",
    "",
    "nums = [str(x) for x in (1, 2, 3)]",
    "```"]

def singleItem : Check where
  code := ⟨Code.homeSeries, 171⟩
  name := some "no-single-item-in"
  categories := ["iterable", "readability"]
  classes := [.comparison]
  judge := .plain Rules.Comparisons.singleItem
  location := "refurb/checks/iterable/no_single_item_in.py"
  explanation := some [
    "Don't use `in` to check against a single value, use `==` instead:",
    "",
    "Bad:",
    "",
    "```",
    "if name in (\"bob\",):",
    "    pass",
    "```",
    "",
    "Good:",
    "",
    "```",
    "if name == \"bob\":",
    "    pass",
    "```"]

def chain : Check where
  code := ⟨Code.homeSeries, 124⟩
  name := some "use-comparison-chain"
  categories := ["logical", "readability"]
  classes := [.binary]
  judge := .plain Rules.Comparisons.chain
  location := "refurb/checks/logical/use_equal_chain.py"
  explanation := some [
    "When checking that multiple objects are equal to each other, don't use",
    "an `and` expression. Use a comparison chain instead, for example:",
    "",
    "Bad:",
    "",
    "```",
    "if x == y and x == z:",
    "    pass",
    "",
    "# and",
    "",
    "if x is None and y is None:",
    "    pass",
    "```",
    "",
    "Good:",
    "",
    "```",
    "if x == y == z:",
    "    pass",
    "",
    "# and",
    "",
    "if x is y is None:",
    "    pass",
    "```",
    "",
    "Note: if `x` depends on side-effects, then this check should be ignored."]

def alternatives : Check where
  code := ⟨Code.homeSeries, 108⟩
  name := some "use-in-oper"
  categories := ["logical", "readability"]
  classes := [.binary]
  judge := .plain Rules.Comparisons.alternatives
  location := "refurb/checks/logical/use_in.py"
  explanation := some [
    "When comparing a value to multiple possible options, don't `or` multiple",
    "comparison checks, use a single `in` expr:",
    "",
    "Bad:",
    "",
    "```",
    "if x == \"abc\" or x == \"def\":",
    "    pass",
    "```",
    "",
    "Good:",
    "",
    "```",
    "if x in (\"abc\", \"def\"):",
    "    pass",
    "```",
    "",
    "Note: This should not be used if the operands depend on boolean short",
    "circuiting, since the operands will be eagerly evaluated. This is primarily",
    "useful for comparing against a range of constant values."]

def dictKeys : Check where
  code := ⟨Code.homeSeries, 130⟩
  name := some "no-in-dict-keys"
  categories := ["dict", "readability"]
  classes := [.comparison]
  judge := .fallible Rules.Comparisons.dictKeys
  location := "refurb/checks/readability/in_keys.py"
  explanation := some [
    "If you only want to check if a key exists in a dictionary, you don't need",
    "to call `.keys()` first, just use `in` on the dictionary itself:",
    "",
    "Bad:",
    "",
    "```",
    "d = \x7b\"key\": \"value\"\x7d",
    "",
    "if \"key\" in d.keys():",
    "    ...",
    "```",
    "",
    "Good:",
    "",
    "```",
    "d = \x7b\"key\": \"value\"\x7d",
    "",
    "if \"key\" in d:",
    "    ...",
    "```"]

def truthValue : Check where
  code := ⟨Code.homeSeries, 149⟩
  name := some "no-bool-literal-compare"
  categories := ["logical", "readability", "truthy"]
  classes := [.comparison]
  judge := .plain Rules.Comparisons.truthValue
  location := "refurb/checks/readability/no_is_bool_compare.py"
  explanation := some [
    "Don't use `is` or `==` to check if a boolean is True or False, simply",
    "use the name itself:",
    "",
    "Bad:",
    "",
    "```",
    "failed = True",
    "",
    "if failed is True:",
    "    print(\"You failed\")",
    "```",
    "",
    "Good:",
    "",
    "```",
    "failed = True",
    "",
    "if failed:",
    "    print(\"You failed\")",
    "```"]

def isEitherTruth : Check where
  code := ⟨Code.homeSeries, 191⟩
  name := some "use-isinstance-bool"
  categories := ["readability"]
  classes := [.comparison, .binary]
  judge := .plain Rules.Comparisons.isEitherTruth
  location := "refurb/checks/readability/use_isinstance_bool.py"
  explanation := some [
    "Don't check if a value is `True` or `False` using `in`, use an",
    "`isinstance()` call.",
    "",
    "Bad:",
    "",
    "```",
    "if value in \x7bTrue, False\x7d:",
    "    pass",
    "```",
    "",
    "Good:",
    "",
    "```",
    "if isinstance(value, bool):",
    "    pass",
    "```"]

end IdiomLint.Catalogue.Comparisons
