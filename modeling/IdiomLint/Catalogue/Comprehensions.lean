import IdiomLint.Rules.Comprehensions

/-! The checks on comprehensions. -/
namespace IdiomLint.Catalogue.Comprehensions

def collected : Check where
  code := ⟨Code.homeSeries, 137⟩
  name := some "simplify-comprehension"
  categories := ["builtin", "iterable", "readability"]
  enabled := false
  classes := [.call]
  judge := .plain Rules.Comprehensions.collected
  location := "refurb/checks/builtin/simplify_comprehension.py"
  explanation := some [
    "Often times generator expressions and list/set/dict comprehensions can be",
    "written more succinctly. For example, passing a list comprehension to a",
    "function when a generator expression would suffice, or using the shorthand",
    "notation in the case of `list` and `set`. For example:",
    "",
    "Bad:",
    "",
    "```",
    "nums = [1, 1, 2, 3]",
    "",
    "nums_times_10 = list(num * 10 for num in nums)",
    "unique_squares = set(num ** 2 for num in nums)",
    "number_tuple = tuple([num ** 2 for num in nums])",
    "```",
    "",
    "Good:",
    "",
    "```",
    "nums = [1, 1, 2, 3]",
    "",
    "nums_times_10 = [num * 10 for num in nums]",
    "unique_squares = \x7bnum ** 2 for num in nums\x7d",
    "number_tuple = tuple(num ** 2 for num in nums)",
    "```"]

def flattening : Check where
  code := ⟨Code.homeSeries, 179⟩
  name := some "use-chain-from-iterable"
  categories := ["itertools", "performance", "readability"]
  classes := [.listComp, .setComp, .generator, .call]
  judge := .noting Rules.Comprehensions.flattening
  location := "refurb/checks/itertools/use_chain_from_iterable.py"
  explanation := some [
    "When flattening a list of lists, use the `chain.from_iterable()` function",
    "from the `itertools` stdlib package. This function is faster than native",
    "list/generator comprehensions or using `sum()` with a list default.",
    "",
    "Bad:",
    "",
    "```",
    "from itertools import chain",
    "",
    "rows = [[1, 2], [3, 4]]",
    "",
    "# using list comprehension",
    "flat = [col for row in rows for col in row]",
    "",
    "# using sum()",
    "flat = sum(rows, [])",
    "",
    "# using chain(*x)",
    "flat = chain(*rows)",
    "```",
    "",
    "Good:",
    "",
    "```",
    "from itertools import chain",
    "",
    "rows = [[1, 2], [3, 4]]",
    "",
    "flat = chain.from_iterable(rows)",
    "```",
    "",
    "Note: `chain.from_iterable()` returns an iterator, which means you might",
    "need to wrap it in `list()` depending on your use case. Refurb cannot",
    "detect this (yet), so this is something you will need to keep in mind.",
    "",
    "Note: `chain(*x)` may be marginally faster/slower depending on the length",
    "of `x`. Since `*` might potentially expand to a lot of arguments, it is",
    "better to use `chain.from_iterable()` when you are unsure."]

def starmap : Check where
  code := ⟨Code.homeSeries, 140⟩
  name := some "use-starmap"
  categories := ["itertools", "performance"]
  classes := [.generator, .listComp, .setComp]
  judge := .noting Rules.Comprehensions.starmap
  location := "refurb/checks/itertools/use_starmap.py"
  explanation := some [
    "If you only want to iterate and unpack values so that you can pass them",
    "to a function (in the same order and with no modifications), you should",
    "use the more performant `starmap` function:",
    "",
    "Bad:",
    "",
    "```",
    "scores = [85, 100, 60]",
    "passing_scores = [60, 80, 70]",
    "",
    "def passed_test(score: int, passing_score: int) -> bool:",
    "    return score >= passing_score",
    "",
    "passed_all_tests = all(",
    "    passed_test(score, passing_score)",
    "    for score, passing_score",
    "    in zip(scores, passing_scores)",
    ")",
    "```",
    "",
    "Good:",
    "",
    "```",
    "from itertools import starmap",
    "",
    "scores = [85, 100, 60]",
    "passing_scores = [60, 80, 70]",
    "",
    "def passed_test(score: int, passing_score: int) -> bool:",
    "    return score >= passing_score",
    "",
    "passed_all_tests = all(starmap(passed_test, zip(scores, passing_scores)))",
    "```"]

def listLoop : Check where
  code := ⟨Code.homeSeries, 138⟩
  name := some "use-list-comprehension"
  categories := ["performance", "readability"]
  classes := [.block, .file]
  judge := .fallible Rules.Comprehensions.listLoop
  location := "refurb/checks/readability/use_comprehension.py"
  explanation := some [
    "When constructing a new list it is usually more performant to use a list",
    "comprehension, and in some cases, it can be more readable.",
    "",
    "Bad:",
    "",
    "```",
    "nums = [1, 2, 3, 4]",
    "odds = []",
    "",
    "for num in nums:",
    "    if num % 2:",
    "        odds.append(num)",
    "```",
    "",
    "Good:",
    "",
    "```",
    "nums = [1, 2, 3, 4]",
    "odds = [num for num in nums if num % 2]",
    "```"]

end IdiomLint.Catalogue.Comprehensions
