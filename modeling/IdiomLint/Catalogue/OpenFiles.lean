import IdiomLint.Check.Basic
import IdiomLint.Rules.OpenFiles

/-! The checks on opening files. -/
namespace IdiomLint.Catalogue.OpenFiles

def writeLines : Check where
  code := ⟨Code.homeSeries, 122⟩
  name := some "use-writelines"
  categories := ["builtin", "readability"]
  classes := [.withBlock]
  judge := .fallible Rules.OpenFiles.writeLines
  location := "refurb/checks/builtin/writelines.py"
  explanation := some [
    "When you want to write a list of lines to a file, don't call `.write()`",
    "for every line, use `.writelines()` instead:",
    "",
    "Bad:",
    "",
    "```",
    "lines = [\"line 1\\n\", \"line 2\\n\", \"line 3\\n\"]",
    "",
    "with open(\"file\") as f:",
    "    for line in lines:",
    "        f.write(line)",
    "```",
    "",
    "Good:",
    "",
    "```",
    "lines = [\"line 1\\n\", \"line 2\\n\", \"line 3\\n\"]",
    "",
    "with open(\"file\") as f:",
    "    f.writelines(lines)",
    "```"]

def iteratedLines : Check where
  code := ⟨Code.homeSeries, 129⟩
  name := some "simplify-readlines"
  categories := ["builtin", "readability"]
  classes := [.forLoop, .generator]
  judge := .fallible Rules.OpenFiles.iteratedLines
  location := "refurb/checks/iterable/implicit_readlines.py"
  explanation := some [
    "When iterating over a file object line-by-line you don't need to add",
    "`.readlines()`, simply iterate over the object itself. This assumes you",
    "aren't passing an argument to readlines().",
    "",
    "Bad:",
    "",
    "```",
    "with open(\"file.txt\") as f:",
    "    for line in f.readlines():",
    "        ...",
    "```",
    "",
    "Good:",
    "",
    "```",
    "with open(\"file.txt\") as f:",
    "    for line in f:",
    "        ...",
    "```"]

def openPath : Check where
  code := ⟨Code.homeSeries, 117⟩
  name := some "use-pathlib-open"
  categories := ["pathlib"]
  classes := [.call]
  judge := .plain Rules.OpenFiles.openPath
  location := "refurb/checks/pathlib/open.py"
  explanation := some [
    "When you want to open a Path object, don't pass it to `open()`, just call",
    "`.open()` on the Path object itself:",
    "",
    "Bad:",
    "",
    "```",
    "path = Path(\"filename\")",
    "",
    "with open(path) as f:",
    "    pass",
    "```",
    "",
    "Good:",
    "",
    "```",
    "path = Path(\"filename\")",
    "",
    "with path.open() as f:",
    "    pass",
    "```"]

def readWhole : Check where
  code := ⟨Code.homeSeries, 101⟩
  name := some "use-pathlib-read-text-read-bytes"
  categories := ["pathlib"]
  classes := [.withBlock]
  judge := .plain Rules.OpenFiles.readWhole
  location := "refurb/checks/pathlib/read_text.py"
  explanation := some [
    "When you just want to save the contents of a file to a variable, using a",
    "`with` block is a bit overkill. A simpler alternative is to use pathlib's",
    "`read_text()` function:",
    "",
    "Bad:",
    "",
    "```",
    "with open(filename) as f:",
    "    contents = f.read()",
    "```",
    "",
    "Good:",
    "",
    "```",
    "contents = Path(filename).read_text()",
    "```"]

def touch : Check where
  code := ⟨Code.homeSeries, 151⟩
  name := some "use-pathlib-touch"
  categories := ["pathlib"]
  enabled := false
  classes := [.call]
  judge := .plain Rules.OpenFiles.touch
  location := "refurb/checks/pathlib/touch.py"
  explanation := some [
    "Don't use `open(x, \"w\").close()` if you just want to create an empty file,",
    "use the less confusing `Path.touch()` method instead.",
    "",
    "Bad:",
    "",
    "```",
    "open(\"file.txt\", \"w\").close()",
    "```",
    "",
    "Good:",
    "",
    "```",
    "from pathlib import Path",
    "",
    "Path(\"file.txt\").touch()",
    "```",
    "",
    "This check is disabled by default because `touch()` will throw a",
    "`FileExistsError` if the file already exists, and (at least on Linux) it",
    "sets different file permissions, meaning it is not a drop-in replacement.",
    "If you don't care about the file permissions or know that the file doesn't",
    "exist beforehand this check may be for you."]

def writeWhole : Check where
  code := ⟨Code.homeSeries, 103⟩
  name := some "use-pathlib-write-text-write-bytes"
  categories := ["pathlib"]
  classes := [.withBlock]
  judge := .plain Rules.OpenFiles.writeWhole
  location := "refurb/checks/pathlib/write_text.py"
  explanation := some [
    "When you just want to save some contents to a file, using a `with` block is",
    "a bit overkill. Instead you can use pathlib's `write_text()` method:",
    "",
    "Bad:",
    "",
    "```",
    "with open(filename, \"w\") as f:",
    "    f.write(\"hello world\")",
    "```",
    "",
    "Good:",
    "",
    "```",
    "Path(filename).write_text(\"hello world\")",
    "```"]

end IdiomLint.Catalogue.OpenFiles
