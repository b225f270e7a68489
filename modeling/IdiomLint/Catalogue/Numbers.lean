import IdiomLint.Check.Basic
import IdiomLint.Rules.Numbers

/-! The checks on numbers. -/
namespace IdiomLint.Catalogue.Numbers

def bitCount : Check where
  code := ⟨Code.homeSeries, 161⟩
  name := some "use-bit-count"
  categories := ["builtin", "performance", "python310", "readability"]
  classes := [.call]
  judge := .plain Rules.Numbers.bitCount
  location := "refurb/checks/builtin/use_bit_count.py"
  explanation := some [
    "Python 3.10 adds a very helpful `bit_count()` function for integers which",
    "counts the number of set bits. This new function is more descriptive and",
    "faster compared to converting/counting characters in a string.",
    "",
    "Bad:",
    "",
    "```",
    "x = bin(0b1010).count(\"1\")",
    "",
    "assert x == 2",
    "```",
    "",
    "Good:",
    "",
    "```",
    "x = 0b1010.bit_count()",
    "",
    "assert x == 2",
    "```"]

def baseZero : Check where
  code := ⟨Code.homeSeries, 166⟩
  name := some "use-int-base-zero"
  categories := ["builtin", "readability"]
  enabled := false
  classes := [.call]
  judge := .plain Rules.Numbers.baseZero
  location := "refurb/checks/builtin/use_int_base_zero.py"
  explanation := some [
    "When converting a string starting with `0b`, `0o`, or `0x` to an int, you",
    "don't need to slice the string and set the base yourself: just call `int()`",
    "with a base of zero. Doing this will autodeduce the correct base to use",
    "based on the string prefix.",
    "",
    "Bad:",
    "",
    "```",
    "num = \"0xABC\"",
    "",
    "if num.startswith(\"0b\"):",
    "    i = int(num[2:], 2)",
    "elif num.startswith(\"0o\"):",
    "    i = int(num[2:], 8)",
    "elif num.startswith(\"0x\"):",
    "    i = int(num[2:], 16)",
    "",
    "print(i)",
    "```",
    "",
    "Good:",
    "",
    "```",
    "num = \"0xABC\"",
    "",
    "i = int(num, 0)",
    "",
    "print(i)",
    "```",
    "",
    "This check is disabled by default because there is no way for Refurb to",
    "detect whether the prefixes that are being stripped are valid Python int",
    "prefixes (like `0x`) or some other prefix which would fail if parsed using",
    "this method."]

def decimalConstructor : Check where
  code := ⟨Code.homeSeries, 157⟩
  name := some "simplify-decimal-ctor"
  categories := ["decimal"]
  classes := [.call]
  judge := .plain Rules.Numbers.decimalConstructor
  location := "refurb/checks/decimal/simplify_ctor.py"
  explanation := some [
    "Under certain circumstances the `Decimal()` constructor can be made more",
    "succinct.",
    "",
    "Bad:",
    "",
    "```",
    "if x == Decimal(\"0\"):",
    "    pass",
    "",
    "if y == Decimal(float(\"Infinity\")):",
    "    pass",
    "```",
    "",
    "Good:",
    "",
    "```",
    "if x == Decimal(0):",
    "    pass",
    "",
    "if y == Decimal(\"Infinity\"):",
    "    pass",
    "```"]

def logarithmBase : Check where
  code := ⟨Code.homeSeries, 163⟩
  name := some "simplify-math-log"
  categories := ["math", "readability"]
  classes := [.call]
  judge := .plain Rules.Numbers.logarithmBase
  location := "refurb/checks/math/simplify_log.py"
  explanation := some [
    "Use the shorthand `log2` and `log10` functions instead of passing 2 or 10",
    "as the second argument to the `log` function. If `math.e` is used as the",
    "second argument, just use `math.log(x)` instead, since `e` is the default.",
    "",
    "Bad:",
    "",
    "```",
    "power = math.log(x, 10)",
    "```",
    "",
    "Good:",
    "",
    "```",
    "power = math.log10(x)",
    "```"]

def constant : Check where
  code := ⟨Code.homeSeries, 152⟩
  name := some "use-math-constant"
  categories := ["math", "readability"]
  classes := [.float]
  judge := .plain Rules.Numbers.constant
  location := "refurb/checks/math/use_constants.py"
  explanation := some [
    "Don't hardcode math constants like pi, tau, or e, use the `math.pi`,",
    "`math.tau`, or `math.e` constants respectively.",
    "",
    "Bad:",
    "",
    "```",
    "def area(r: float) -> float:",
    "    return 3.1415 * r * r",
    "```",
    "",
    "Good:",
    "",
    "```",
    "import math",
    "",
    "def area(r: float) -> float:",
    "    return math.pi * r * r",
    "```"]

def conversionConstructor : Check where
  code := ⟨Code.homeSeries, 164⟩
  name := some "no-from-float"
  categories := ["decimal", "fractions", "readability"]
  classes := [.call]
  judge := .plain Rules.Numbers.conversionConstructor
  location := "refurb/checks/readability/no_from_float.py"
  explanation := some [
    "When constructing a Fraction or Decimal using a float, don't use the",
    "`from_float()` or `from_decimal()` class methods: Just use the more concise",
    "`Fraction()` and `Decimal()` class constructors instead.",
    "",
    "Bad:",
    "",
    "```",
    "ratio = Fraction.from_float(1.2)",
    "score = Decimal.from_float(98.0)",
    "```",
    "",
    "Good:",
    "",
    "```",
    "ratio = Fraction(1.2)",
    "score = Decimal(98.0)",
    "```"]

end IdiomLint.Catalogue.Numbers
