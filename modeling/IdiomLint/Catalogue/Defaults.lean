import IdiomLint.Rules.Defaults

/-! The checks on defaults. -/
namespace IdiomLint.Catalogue.Defaults

def implicitDefault : Check where
  code := ⟨Code.homeSeries, 120⟩
  name := some "use-implicit-default"
  categories := []
  enabled := false
  classes := [.call]
  judge := .noting Rules.Defaults.implicitDefault
  location := "refurb/checks/function/use_implicit_default.py"
  explanation := some [
    "Don't pass an argument if it is the same as the default value:",
    "",
    "Bad:",
    "",
    "```",
    "def greet(name: str = \"bob\") -> None:",
    "    print(f\"Hello \x7bname\x7d\")",
    "",
    "greet(\"bob\")",
    "",
    "\x7b\x7d.get(\"some key\", None)",
    "```",
    "",
    "Good:",
    "",
    "```",
    "def greet(name: str = \"bob\") -> None:",
    "    print(f\"Hello \x7bname\x7d\")",
    "",
    "greet()",
    "",
    "\x7b\x7d.get(\"some key\")",
    "```"]

end IdiomLint.Catalogue.Defaults
