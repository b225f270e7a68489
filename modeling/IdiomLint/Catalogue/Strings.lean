import IdiomLint.Check.Basic
import IdiomLint.Rules.Strings

/-! The checks on strings. -/
namespace IdiomLint.Catalogue.Strings

def emptyPrint : Check where
  code := ⟨Code.homeSeries, 105⟩
  name := some "simplify-print"
  categories := ["builtin", "readability"]
  classes := [.call]
  judge := .plain Rules.Strings.emptyPrint
  location := "refurb/checks/builtin/print.py"
  explanation := some [
    "`print(\"\")` can be simplified to just `print()`."]

def shellJoin : Check where
  code := ⟨Code.homeSeries, 178⟩
  name := some "use-shlex-join"
  categories := ["readability", "shlex"]
  classes := [.call]
  judge := .plain Rules.Strings.shellJoin
  location := "refurb/checks/shlex/use_join.py"
  explanation := some [
    "When using `shlex` to escape and join a bunch of strings consider using the",
    "`shlex.join` method instead.",
    "",
    "Bad:",
    "",
    "```",
    "args = [\"hello\", \"world!\"]",
    "",
    "cmd = \" \".join(shlex.quote(arg) for arg in args)",
    "```",
    "",
    "Good:",
    "",
    "```",
    "args = [\"hello\", \"world!\"]",
    "",
    "cmd = shlex.join(args)",
    "```"]

def charset : Check where
  code := ⟨Code.homeSeries, 156⟩
  name := some "use-string-charsets"
  categories := ["readability", "string"]
  classes := [.comparison, .str]
  judge := .plain Rules.Strings.charset
  location := "refurb/checks/string/charsets.py"
  explanation := some [
    "Python includes some pre-defined charsets such as digits (0-9), upper and",
    "lower case alpha characters, and so on. You don't have to define them",
    "yourself, and they are usually more readable.",
    "",
    "Bad:",
    "",
    "```",
    "digits = \"0123456789\"",
    "",
    "if c in digits:",
    "    pass",
    "",
    "if c in \"0123456789abcdefABCDEF\":",
    "    pass",
    "```",
    "",
    "Good:",
    "",
    "```",
    "if c in string.digits:",
    "    pass",
    "",
    "if c in string.hexdigits:",
    "    pass",
    "```",
    "",
    "Note that when using a literal string, the corresponding `string.xyz` value",
    "must be exact, but when used in an `in` comparison, the characters can be",
    "out of order since `in` will compare every character in the string."]

def expandTabs : Check where
  code := ⟨Code.homeSeries, 106⟩
  name := some "use-expandtabs"
  categories := ["string"]
  enabled := false
  classes := [.call]
  judge := .plain Rules.Strings.expandTabs
  location := "refurb/checks/string/expandtabs.py"
  explanation := some [
    "If you want to expand the tabs at the start of a string, don't use",
    "`.replace(\"\\t\", \" \" * 8)`, use `.expandtabs()` instead. Note that this",
    "only works if the tabs are at the start of the string, since `expandtabs()`",
    "will expand each tab to the nearest tab column.",
    "",
    "Bad:",
    "",
    "```",
    "spaces_8 = \"\\thello world\".replace(\"\\t\", \" \" * 8)",
    "spaces_4 = \"\\thello world\".replace(\"\\t\", \"    \")",
    "```",
    "",
    "Good:",
    "",
    "```",
    "spaces_8 = \"\\thello world\".expandtabs()",
    "spaces_4 = \"\\thello world\".expandtabs(4)",
    "```"]

def multilineStrip : Check where
  code := ⟨Code.homeSeries, 139⟩
  name := some "no-multiline-strip"
  categories := ["readability"]
  classes := [.call]
  judge := .plain Rules.Strings.multilineStrip
  location := "refurb/checks/string/no_multiline_lstrip.py"
  explanation := some [
    "If you want to define a multi-line string but don't want a leading/trailing",
    "newline, use a continuation character ('\\') instead of calling `lstrip()`,",
    "`rstrip()`, or `strip()`.",
    "",
    "Bad:",
    "",
    "```",
    "\"\"\"",
    "This is some docstring",
    "\"\"\".lstrip()",
    "",
    "\"\"\"",
    "This is another docstring",
    "\"\"\".strip()",
    "```",
    "",
    "Good:",
    "",
    "```",
    "\"\"\"\\",
    "This is some docstring",
    "\"\"\"",
    "",
    "\"\"\"\\",
    "This is another docstring\\",
    "\"\"\"",
    "```"]

def doubleStrip : Check where
  code := ⟨Code.homeSeries, 159⟩
  name := some "simplify-strip"
  categories := ["readability", "string"]
  classes := [.call]
  judge := .plain Rules.Strings.doubleStrip
  location := "refurb/checks/string/simplify_strip.py"
  explanation := some [
    "In some situations the `.lstrip()`, `.rstrip()` and `.strip()` string",
    "methods can be written more succinctly: `strip()` is the same thing as",
    "calling both `lstrip()` and `rstrip()` together, and all the strip",
    "functions take an iterable argument of the characters to strip, meaning",
    "you don't need to call strip methods multiple times with different",
    "arguments, you can just concatenate them and call it once.",
    "",
    "Bad:",
    "",
    "```",
    "name = input().lstrip().rstrip()",
    "",
    "num = \"  -123\".lstrip(\" \").lstrip(\"-\")",
    "```",
    "",
    "Good:",
    "",
    "```",
    "name = input().strip()",
    "",
    "num = \"  -123\".lstrip(\" -\")",
    "```"]

def affixTuple : Check where
  code := ⟨Code.homeSeries, 102⟩
  name := some "use-startswith-endswith-tuple"
  categories := ["string"]
  classes := [.binary]
  judge := .plain Rules.Strings.affixTuple
  location := "refurb/checks/string/startswith.py"
  explanation := some [
    "`startswith()` and `endswith()` both take a tuple, so instead of calling",
    "`startswith()` multiple times on the same string, you can check them all",
    "at once:",
    "",
    "Bad:",
    "",
    "```",
    "name = \"bob\"",
    "if name.startswith(\"b\") or name.startswith(\"B\"):",
    "    pass",
    "```",
    "",
    "Good:",
    "",
    "```",
    "name = \"bob\"",
    "if name.startswith((\"b\", \"B\")):",
    "    pass",
    "```"]

end IdiomLint.Catalogue.Strings
