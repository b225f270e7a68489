import IdiomLint.Check.Basic
import IdiomLint.Rules.Regex

/-! The checks on regular expressions. -/
namespace IdiomLint.Catalogue.Regex

def longFlag : Check where
  code := ⟨Code.homeSeries, 167⟩
  name := some "use-long-regex-flag"
  categories := ["readability", "regex"]
  classes := [.name, .member]
  judge := .plain Rules.Regex.longFlag
  location := "refurb/checks/regex/use_long_flag.py"
  explanation := some [
    "Regex operations can be changed using flags such as `re.I`, which will make",
    "the regex case-insensitive. These single-character flag names can be harder",
    "to read/remember, and should be replaced with the longer aliases so that",
    "they are more descriptive.",
    "",
    "Bad:",
    "",
    "```",
    "if re.match(\"^hello\", \"hello world\", re.I):",
    "    pass",
    "```",
    "",
    "Good:",
    "",
    "```",
    "if re.match(\"^hello\", \"hello world\", re.IGNORECASE):",
    "    pass",
    "```"]

def patternMethod : Check where
  code := ⟨Code.homeSeries, 170⟩
  name := some "use-regex-pattern-methods"
  categories := ["performance", "readability", "regex"]
  classes := [.call]
  judge := .plain Rules.Regex.patternMethod
  location := "refurb/checks/regex/use_pattern_method.py"
  explanation := some [
    "If you are passing a compiled regular expression to a regex function,",
    "consider calling the regex method on the pattern itself: It is faster, and",
    "can improve readability.",
    "",
    "Bad:",
    "",
    "```",
    "import re",
    "",
    "COMMENT = re.compile(\".*(#.*)\")",
    "",
    "found_comment = re.match(COMMENT, \"this is a # comment\")",
    "```",
    "",
    "Good:",
    "",
    "```",
    "import re",
    "",
    "COMMENT = re.compile(\".*(#.*)\")",
    "",
    "found_comment = COMMENT.match(\"this is a # comment\")",
    "```"]

end IdiomLint.Catalogue.Regex
