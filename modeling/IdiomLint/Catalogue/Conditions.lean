import IdiomLint.Check.Basic
import IdiomLint.Rules.Conditions

/-! The checks on conditions. -/
namespace IdiomLint.Catalogue.Conditions

def setDiscard : Check where
  code := ⟨Code.homeSeries, 132⟩
  name := some "use-set-discard"
  categories := ["readability", "set"]
  classes := [.ifElse]
  judge := .plain Rules.Conditions.setDiscard
  location := "refurb/checks/builtin/set_discard.py"
  explanation := some [
    "If you want to remove a value from a set regardless of whether it exists or",
    "not, use the `discard()` method instead of `remove()`:",
    "",
    "Bad:",
    "",
    "```",
    "nums = \x7b123, 456\x7d",
    "",
    "if 123 in nums:",
    "    nums.remove(123)",
    "```",
    "",
    "Good:",
    "",
    "```",
    "nums = \x7b123, 456\x7d",
    "",
    "nums.discard(123)",
    "```"]

def minMax : Check where
  code := ⟨Code.homeSeries, 136⟩
  name := some "use-min-max"
  categories := ["builtin", "logical", "readability"]
  classes := [.conditional]
  judge := .plain Rules.Conditions.minMax
  location := "refurb/checks/builtin/use_max.py"
  explanation := some [
    "Certain ternary expressions can be written more succinctly using the",
    "builtin `min`/`max` functions:",
    "",
    "Bad:",
    "",
    "```",
    "score1 = 90",
    "score2 = 99",
    "",
    "highest_score = score1 if score1 > score2 else score2",
    "```",
    "",
    "Good:",
    "",
    "```",
    "score1 = 90",
    "score2 = 99",
    "",
    "highest_score = max(score1, score2)",
    "```"]

def orOperator : Check where
  code := ⟨Code.homeSeries, 110⟩
  name := some "use-or-oper"
  categories := ["logical", "readability"]
  classes := [.conditional]
  judge := .plain Rules.Conditions.orOperator
  location := "refurb/checks/logical/use_or.py"
  explanation := some [
    "Sometimes the ternary operator (aka, inline if statements) can be",
    "simplified to a single `or` expression.",
    "",
    "Bad:",
    "",
    "```",
    "z = x if x else y",
    "```",
    "",
    "Good:",
    "",
    "```",
    "z = x or y",
    "```",
    "",
    "Note: if `x` depends on side-effects, then this check should be ignored."]

def doubleNegation : Check where
  code := ⟨Code.homeSeries, 114⟩
  name := some "no-double-not"
  categories := ["builtin", "readability", "truthy"]
  classes := [.unary]
  judge := .plain Rules.Conditions.doubleNegation
  location := "refurb/checks/readability/no_double_not.py"
  explanation := some [
    "Double negatives are confusing, so use `bool(x)` instead of `not not x`.",
    "",
    "Bad:",
    "",
    "```",
    "if not not value:",
    "    pass",
    "```",
    "",
    "Good:",
    "",
    "```",
    "if value:",
    "    pass",
    "```"]

def redundantDefault : Check where
  code := ⟨Code.homeSeries, 143⟩
  name := some "no-default-or"
  categories := ["logical", "readability"]
  classes := [.binary]
  judge := .plain Rules.Conditions.redundantDefault
  location := "refurb/checks/readability/no_or_default.py"
  explanation := some [
    "Don't check an expression to see if it is falsey then assign the same",
    "falsey value to it. For example, if an expression used to be of type",
    "`int | None`, checking if the expression is falsey would make sense,",
    "since it could be `None` or `0`. But, if the expression is changed to",
    "be of type `int`, the falsey value is just `0`, so setting it to `0`",
    "if it is falsey (`0`) is redundant.",
    "",
    "Bad:",
    "",
    "```",
    "def is_markdown_header(line: str) -> bool:",
    "    return (line or \"\").startswith(\"#\")",
    "```",
    "",
    "Good:",
    "",
    "```",
    "def is_markdown_header(line: str) -> bool:",
    "    return line.startswith(\"#\")",
    "```"]

end IdiomLint.Catalogue.Conditions
