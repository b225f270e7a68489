import IdiomLint.Rules.Interpolation

/-! The checks on formatted strings. -/
namespace IdiomLint.Catalogue.Interpolation

def singleField : Check where
  code := ⟨Code.homeSeries, 183⟩
  name := some "use-str-func"
  categories := ["readability"]
  classes := [.call]
  judge := .noting Rules.Interpolation.singleField
  location := "refurb/checks/readability/use_str_func.py"
  explanation := some [
    "If you want to stringify a single value without concatenating anything, use",
    "the `str()` function instead.",
    "",
    "Bad:",
    "",
    "```",
    "nums = [123, 456]",
    "num = f\"\x7bnum[0]\x7d\"",
    "```",
    "",
    "Good:",
    "",
    "```",
    "nums = [123, 456]",
    "num = str(num[0])",
    "```"]

def slicedNumber : Check where
  code := ⟨Code.homeSeries, 116⟩
  name := some "use-fstring-number-format"
  categories := ["builtin", "fstring"]
  classes := [.index]
  judge := .plain Rules.Interpolation.slicedNumber
  location := "refurb/checks/string/fstring_number.py"
  explanation := some [
    "The `bin()`, `oct()`, and `hex()` functions return the string",
    "representation of a number but with a prefix attached. If you don't want",
    "the prefix, you might be tempted to just slice it off, but using an",
    "f-string will give you more flexibility and let you work with negative",
    "numbers:",
    "",
    "Bad:",
    "",
    "```",
    "print(bin(1337)[2:])",
    "```",
    "",
    "Good:",
    "",
    "```",
    "print(f\"\x7b1337:b\x7d\")",
    "```"]

def convertedField : Check where
  code := ⟨Code.homeSeries, 119⟩
  name := some "use-fstring-format"
  categories := ["builtin", "fstring"]
  classes := [.call]
  judge := .plain Rules.Interpolation.convertedField
  location := "refurb/checks/string/use_fstring_fmt.py"
  explanation := some [
    "Certain expressions which are passed to f-strings are redundant because",
    "the f-string itself is capable of formatting it. For example:",
    "",
    "Bad:",
    "",
    "```",
    "print(f\"\x7bbin(1337)\x7d\")",
    "",
    "print(f\"\x7bascii(input())\x7d\")",
    "",
    "print(f\"\x7bstr(123)\x7d\")",
    "```",
    "",
    "Good:",
    "",
    "```",
    "print(f\"\x7b1337:#b\x7d\")",
    "",
    "print(f\"\x7binput()!a\x7d\")",
    "",
    "print(f\"\x7b123\x7d\")",
    "```"]

end IdiomLint.Catalogue.Interpolation
