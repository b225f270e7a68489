import IdiomLint.Check.Basic
import IdiomLint.Rules.Paths

/-! The checks on paths. -/
namespace IdiomLint.Catalogue.Paths

def workingDirectory : Check where
  code := ⟨Code.homeSeries, 104⟩
  name := some "use-pathlib-cwd"
  categories := ["pathlib"]
  classes := [.call]
  judge := .plain Rules.Paths.workingDirectory
  location := "refurb/checks/pathlib/cwd.py"
  explanation := some [
    "A modern alternative to `os.getcwd()` is the `Path.cwd()` method:",
    "",
    "Bad:",
    "",
    "```",
    "cwd = os.getcwd()",
    "```",
    "",
    "Good:",
    "",
    "```",
    "cwd = Path.cwd()",
    "```"]

def existence : Check where
  code := ⟨Code.homeSeries, 141⟩
  name := some "use-pathlib-exists"
  categories := ["pathlib"]
  classes := [.call]
  judge := .plain Rules.Paths.existence
  location := "refurb/checks/pathlib/exists.py"
  explanation := some [
    "When checking whether a file exists or not, try and use the more modern",
    "`pathlib` module instead of `os.path`.",
    "",
    "Bad:",
    "",
    "```",
    "import os",
    "",
    "if os.path.exists(\"filename\"):",
    "    pass",
    "```",
    "",
    "Good:",
    "",
    "```",
    "from pathlib import Path",
    "",
    "if Path(\"filename\").exists():",
    "    pass",
    "```"]

def statistics : Check where
  code := ⟨Code.homeSeries, 155⟩
  name := some "use-pathlib-stat"
  categories := ["pathlib"]
  classes := [.call]
  judge := .plain Rules.Paths.statistics
  location := "refurb/checks/pathlib/getsize.py"
  explanation := some [
    "Don't use the `os.path.getsize` (or similar) functions, use the more modern",
    "`pathlib` module instead:",
    "",
    "Bad:",
    "",
    "```",
    "if os.path.getsize(\"file.txt\"):",
    "    pass",
    "```",
    "",
    "Good:",
    "",
    "```",
    "if Path(\"file.txt\").stat().st_size:",
    "    pass",
    "```"]

def fileKind : Check where
  code := ⟨Code.homeSeries, 146⟩
  name := some "use-pathlib-is-funcs"
  categories := ["pathlib"]
  classes := [.call]
  judge := .plain Rules.Paths.fileKind
  location := "refurb/checks/pathlib/is_file.py"
  explanation := some [
    "Don't use the `os.path.isfile` (or similar) functions, use the more modern",
    "`pathlib` module instead:",
    "",
    "Bad:",
    "",
    "```",
    "if os.path.isfile(\"file.txt\"):",
    "    pass",
    "```",
    "",
    "Good:",
    "",
    "```",
    "if Path(\"file.txt\").is_file():",
    "    pass",
    "```"]

def makeDirectory : Check where
  code := ⟨Code.homeSeries, 150⟩
  name := some "use-pathlib-mkdir"
  categories := ["pathlib"]
  classes := [.call]
  judge := .plain Rules.Paths.makeDirectory
  location := "refurb/checks/pathlib/mkdir.py"
  explanation := some [
    "Use the `mkdir` method from the pathlib library instead of using the",
    "`mkdir` and `makedirs` functions from the `os` library: the pathlib library",
    "is more modern and provides better flexibility over the construction and",
    "manipulation of file paths.",
    "",
    "Bad:",
    "",
    "```",
    "import os",
    "",
    "os.mkdir(\"new_folder\")",
    "```",
    "",
    "Good:",
    "",
    "```",
    "from pathlib import Path",
    "",
    "Path(\"new_folder\").mkdir()",
    "```"]

def implicitWorkingDirectory : Check where
  code := ⟨Code.homeSeries, 177⟩
  name := some "no-implicit-cwd"
  categories := ["pathlib"]
  classes := [.call]
  judge := .plain Rules.Paths.implicitWorkingDirectory
  location := "refurb/checks/pathlib/no_cwd_resolve.py"
  explanation := some [
    "If you want to get the current working directory don't call `resolve()` on",
    "an empty `Path()` object, use `Path.cwd()` instead.",
    "",
    "Bad:",
    "",
    "```",
    "cwd = Path().resolve()",
    "```",
    "",
    "Good:",
    "",
    "```",
    "cwd = Path.cwd()",
    "```"]

def joining : Check where
  code := ⟨Code.homeSeries, 147⟩
  name := some "no-path-join"
  categories := ["pathlib"]
  enabled := false
  classes := [.call]
  judge := .plain Rules.Paths.joining
  location := "refurb/checks/pathlib/no_join.py"
  explanation := some [
    "When joining strings to make a filepath, use the more modern and flexible",
    "`Path()` object instead of `os.path.join`:",
    "",
    "Bad:",
    "",
    "```",
    "with open(os.path.join(\"folder\", \"file\"), \"w\") as f:",
    "    f.write(\"hello world!\")",
    "```",
    "",
    "Good:",
    "",
    "```",
    "from pathlib import Path",
    "",
    "with open(Path(\"folder\", \"file\"), \"w\") as f:",
    "    f.write(\"hello world!\")",
    "",
    "# even better ...",
    "",
    "with Path(\"folder\", \"file\").open(\"w\") as f:",
    "    f.write(\"hello world!\")",
    "",
    "# even better ...",
    "",
    "Path(\"folder\", \"file\").write_text(\"hello world!\")",
    "```",
    "",
    "Note that this check is disabled by default because `Path()` returns a Path",
    "object, not a string, meaning that the Path object will propagate through",
    "your code. This might be what you want, and might encourage you to use the",
    "pathlib module in more places, but since it is not a drop-in replacement it",
    "is disabled by default."]

def constructor : Check where
  code := ⟨Code.homeSeries, 153⟩
  name := some "simplify-path-constructor"
  categories := ["pathlib", "readability"]
  classes := [.call]
  judge := .plain Rules.Paths.constructor
  location := "refurb/checks/pathlib/simplify_ctor.py"
  explanation := some [
    "The Path() constructor defaults to the current directory, so don't pass the",
    "current directory explicitly.",
    "",
    "Bad:",
    "",
    "```",
    "file = Path(\".\")",
    "```",
    "",
    "Good:",
    "",
    "```",
    "file = Path()",
    "```",
    "",
    "Note: Lots of different values can trigger this check, including `\".\"`,",
    "`\"\"`, `os.curdir`, and `os.path.curdir`."]

def removal : Check where
  code := ⟨Code.homeSeries, 144⟩
  name := some "use-pathlib-unlink"
  categories := ["pathlib"]
  classes := [.call]
  judge := .plain Rules.Paths.removal
  location := "refurb/checks/pathlib/unlink.py"
  explanation := some [
    "When removing a file, use the more modern `Path.unlink()` method instead of",
    "`os.remove()` or `os.unlink()`: The `pathlib` module allows for more",
    "flexibility when it comes to traversing folders, building file paths, and",
    "accessing/modifying files.",
    "",
    "Bad:",
    "",
    "```",
    "import os",
    "",
    "os.remove(\"filename\")",
    "```",
    "",
    "Good:",
    "",
    "```",
    "from pathlib import Path",
    "",
    "Path(\"filename\").unlink()",
    "```"]

def extension : Check where
  code := ⟨Code.homeSeries, 172⟩
  name := some "use-suffix"
  categories := ["pathlib"]
  enabled := false
  classes := [.call]
  judge := .plain Rules.Paths.extension
  location := "refurb/checks/pathlib/use_suffix.py"
  explanation := some [
    "When checking the file extension for a Path object don't call",
    "`endswith()` on the `name` field, directly check against `suffix` instead.",
    "",
    "Bad:",
    "",
    "```",
    "from pathlib import Path",
    "",
    "def is_markdown_file(file: Path) -> bool:",
    "    return file.name.endswith(\".md\")",
    "```",
    "",
    "Good:",
    "",
    "```",
    "from pathlib import Path",
    "",
    "def is_markdown_file(file: Path) -> bool:",
    "    return file.suffix == \".md\"",
    "```",
    "",
    "Note: The `suffix` field will only contain the last file extension, so",
    "don't use `suffix` if you are checking for an extension like `.tar.gz`.",
    "Refurb won't warn in those cases, but it is good to remember in case you",
    "plan to use this in other places."]

def withSuffix : Check where
  code := ⟨Code.homeSeries, 100⟩
  name := some "use-pathlib-with-suffix"
  categories := ["pathlib"]
  classes := [.binary]
  judge := .plain Rules.Paths.withSuffix
  location := "refurb/checks/pathlib/with_suffix.py"
  explanation := some [
    "A common operation is changing the extension of a file. If you have an",
    "existing `Path` object, you don't need to convert it to a string, slice",
    "it, and append a new extension. Instead, use the `with_suffix()` method:",
    "",
    "Bad:",
    "",
    "```",
    "new_filepath = str(Path(\"file.txt\"))[:4] + \".md\"",
    "```",
    "",
    "Good:",
    "",
    "```",
    "new_filepath = Path(\"file.txt\").with_suffix(\".md\")",
    "```"]

end IdiomLint.Catalogue.Paths
