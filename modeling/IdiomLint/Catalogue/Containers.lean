import IdiomLint.Rules.Containers

/-! The checks on containers. -/
namespace IdiomLint.Catalogue.Containers

def extend : Check where
  code := ⟨Code.homeSeries, 113⟩
  name := some "use-list-extend"
  categories := ["list"]
  classes := [.block, .file]
  judge := .plain Rules.Containers.extend
  location := "refurb/checks/builtin/list_extend.py"
  explanation := some [
    "When appending multiple values to a list, you can use the `.extend()`",
    "method to add an iterable to the end of an existing list. This way, you",
    "don't have to call `.append()` on every element:",
    "",
    "Bad:",
    "",
    "```",
    "nums = [1, 2, 3]",
    "",
    "nums.append(4)",
    "nums.append(5)",
    "nums.append(6)",
    "```",
    "",
    "Good:",
    "",
    "```",
    "nums = [1, 2, 3]",
    "",
    "nums.extend((4, 5, 6))",
    "```"]

def clear : Check where
  code := ⟨Code.homeSeries, 131⟩
  name := some "use-clear"
  categories := ["builtin", "readability"]
  classes := [.deletion, .assignment]
  judge := .plain Rules.Containers.clear
  location := "refurb/checks/builtin/no_del.py"
  explanation := some [
    "Slice expressions can be used to replace part a list without reassigning",
    "it. If you want to clear all the elements out of a list while maintaining",
    "the same reference, don't use `del x[:]` or `x[:] = []`, use the faster",
    "`x.clear()` method instead.",
    "",
    "Bad:",
    "",
    "```",
    "nums = [1, 2, 3]",
    "",
    "del nums[:]",
    "# or",
    "nums[:] = []",
    "```",
    "",
    "Good:",
    "",
    "```",
    "nums = [1, 2, 3]",
    "",
    "nums.clear()",
    "```"]

def setLoop : Check where
  code := ⟨Code.homeSeries, 142⟩
  name := some "no-set-for-loop"
  categories := ["builtin"]
  classes := [.forLoop]
  judge := .plain Rules.Containers.setLoop
  location := "refurb/checks/builtin/no_set_for_loop.py"
  explanation := some [
    "When you want to add/remove a bunch of items to/from a set, don't use a for",
    "loop, call the appropriate method on the set itself.",
    "",
    "Bad:",
    "",
    "```",
    "sentence = \"hello world\"",
    "vowels = \"aeiou\"",
    "letters = set(sentence)",
    "",
    "for vowel in vowels:",
    "    letters.discard(vowel)",
    "```",
    "",
    "Good:",
    "",
    "```",
    "sentence = \"hello world\"",
    "vowels = \"aeiou\"",
    "letters = set(sentence)",
    "",
    "letters.difference_update(vowels)",
    "```"]

def sliceCopy : Check where
  code := ⟨Code.homeSeries, 145⟩
  name := some "no-slice-copy"
  categories := ["readability"]
  classes := [.file]
  judge := .fallible Rules.Containers.sliceCopy
  location := "refurb/checks/builtin/no_slice_copy.py"
  explanation := some [
    "Don't use a slice expression (with no bounds) to make a copy of something,",
    "use the more readable `.copy()` method instead:",
    "",
    "Bad:",
    "",
    "```",
    "nums = [3.1415, 1234]",
    "copy = nums[:]",
    "```",
    "",
    "Good:",
    "",
    "```",
    "nums = [3.1415, 1234]",
    "copy = nums.copy()",
    "```"]

def sortedExtreme : Check where
  code := ⟨Code.homeSeries, 192⟩
  name := some "no-sorted-min-max"
  categories := ["builtin", "performance", "readability"]
  classes := [.index]
  judge := .plain Rules.Containers.sortedExtreme
  location := "refurb/checks/builtin/no_sorted_min_max.py"
  explanation := some [
    "Don't use `sorted()` to get the min/max value out of an iterable element,",
    "use `min()` or `max()`.",
    "",
    "Bad:",
    "",
    "```",
    "nums = [3, 1, 4, 1, 5]",
    "",
    "lowest = sorted(nums)[0]",
    "highest = sorted(nums)[-1]",
    "```",
    "",
    "Good:",
    "",
    "```",
    "nums = [3, 1, 4, 1, 5]",
    "",
    "lowest = min(nums)",
    "highest = max(nums)",
    "```"]

def copyBeforeMerge : Check where
  code := ⟨Code.homeSeries, 185⟩
  name := some "no-copy-with-merge"
  categories := ["readability"]
  classes := [.binary]
  judge := .noting Rules.Containers.copyBeforeMerge
  location := "refurb/checks/readability/no_copy_with_merge.py"
  explanation := some [
    "You don't need to call `.copy()` on a dict/set when using it in a union",
    "since the original dict/set is not modified.",
    "",
    "Bad:",
    "",
    "```",
    "d = \x7b\"a\": 1\x7d",
    "",
    "merged = d.copy() | \x7b\"b\": 2\x7d",
    "```",
    "",
    "Good:",
    "",
    "```",
    "d = \x7b\"a\": 1\x7d",
    "",
    "merged = d | \x7b\"b\": 2\x7d",
    "```"]

def dictUnion : Check where
  code := ⟨Code.homeSeries, 173⟩
  name := some "use-dict-union"
  categories := ["dict", "readability"]
  classes := [.dict, .call]
  judge := .fallible Rules.Containers.dictUnion
  location := "refurb/checks/readability/use_dict_union.py"
  explanation := some [
    "Dicts can be created/combined in many ways, one of which is the `**`",
    "operator (inside the dict), and another is the `|` operator (used outside",
    "the dict). While they both have valid uses, the `|` operator allows for",
    "more flexibility, including using `|=` to update an existing dict.",
    "",
    "See PEP 584 for more info.",
    "",
    "Bad:",
    "",
    "```",
    "def add_defaults(settings: dict[str, str]) -> dict[str, str]:",
    "    return \x7b\"color\": \"1\", **settings\x7d",
    "```",
    "",
    "Good:",
    "",
    "```",
    "def add_defaults(settings: dict[str, str]) -> dict[str, str]:",
    "    return \x7b\"color\": \"1\"\x7d | settings",
    "```"]

def reverse : Check where
  code := ⟨Code.homeSeries, 187⟩
  name := some "use-reverse"
  categories := ["performance", "readability"]
  classes := [.assignment]
  judge := .plain Rules.Containers.reverse
  location := "refurb/checks/readability/use_reverse.py"
  explanation := some [
    "Don't use `x[::-1]` or `reversed(x)` to reverse a list and reassign it to",
    "itself, use the faster in-place `.reverse()` method instead.",
    "",
    "Bad:",
    "",
    "```",
    "names = [\"Bob\", \"Alice\", \"Charlie\"]",
    "",
    "names = reversed(names)",
    "# or",
    "names = list(reversed(names))",
    "# or",
    "names = names[::-1]",
    "```",
    "",
    "Good:",
    "",
    "```",
    "names = [\"Bob\", \"Alice\", \"Charlie\"]",
    "",
    "names.reverse()",
    "```"]

def sort : Check where
  code := ⟨Code.homeSeries, 186⟩
  name := some "use-sort"
  categories := ["performance", "readability"]
  classes := [.assignment]
  judge := .plain Rules.Containers.sort
  location := "refurb/checks/readability/use_sort.py"
  explanation := some [
    "Don't use `sorted()` to sort a list and reassign it to itself, use the",
    "faster in-place `.sort()` method instead.",
    "",
    "Bad:",
    "",
    "```",
    "names = [\"Bob\", \"Alice\", \"Charlie\"]",
    "",
    "names = sorted(names)",
    "```",
    "",
    "Good:",
    "",
    "```",
    "names = [\"Bob\", \"Alice\", \"Charlie\"]",
    "",
    "names.sort()",
    "```"]

end IdiomLint.Catalogue.Containers
