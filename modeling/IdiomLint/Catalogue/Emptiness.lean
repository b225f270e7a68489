import IdiomLint.Check.Basic
import IdiomLint.Rules.Emptiness

/-! The checks on emptiness. -/
namespace IdiomLint.Catalogue.Emptiness

def lengthTest : Check where
  code := ⟨Code.homeSeries, 115⟩
  name := some "no-len-compare"
  categories := ["iterable", "truthy"]
  classes := [.ifElse, .matching, .generator, .dictComp, .conditional, .whileLoop, .assertion]
  judge := .fallible Rules.Emptiness.lengthTest
  location := "refurb/checks/readability/no_len_cmp.py"
  explanation := some [
    "Don't check a container's length to determine if it is empty or not, use",
    "a truthiness check instead:",
    "",
    "Bad:",
    "",
    "```",
    "name = \"bob\"",
    "if len(name) == 0:",
    "    pass",
    "",
    "nums = [1, 2, 3]",
    "if len(nums) >= 1:",
    "    pass",
    "```",
    "",
    "Good:",
    "",
    "```",
    "name = \"bob\"",
    "if not name:",
    "    pass",
    "",
    "nums = [1, 2, 3]",
    "if nums:",
    "    pass",
    "```"]

end IdiomLint.Catalogue.Emptiness
