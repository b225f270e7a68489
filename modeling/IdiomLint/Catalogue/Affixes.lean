import IdiomLint.Rules.Affixes

/-! The checks on affixes. -/
namespace IdiomLint.Catalogue.Affixes

def cutAffix : Check where
  code := ⟨Code.homeSeries, 188⟩
  name := some "remove-prefix-or-suffix"
  categories := ["performance", "readability", "string"]
  classes := [.conditional, .ifElse]
  judge := .noting Rules.Affixes.cutAffix
  location := "refurb/checks/string/remove_prefix_or_suffix.py"
  explanation := some [
    "Don't explicitly check a string prefix/suffix if you're only going to",
    "remove it, use `.removeprefix()` or `.removesuffix()` instead.",
    "",
    "Bad:",
    "",
    "```",
    "def strip_txt_extension(filename: str) -> str:",
    "    return filename[:-4] if filename.endswith(\".txt\") else filename",
    "```",
    "",
    "Good:",
    "",
    "```",
    "def strip_txt_extension(filename: str) -> str:",
    "    return filename.removesuffix(\".txt\")",
    "```"]

end IdiomLint.Catalogue.Affixes
