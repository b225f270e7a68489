import IdiomLint.Check.Env
import IdiomLint.Check.Finding
import IdiomLint.Syntax.Operands
import IdiomLint.Syntax.SourceText

/-! Methods of strings and the characters of string literals. -/
namespace IdiomLint.Rules.Strings

open Finding

def emptyPrint (_ : Env) : Node → List Finding
  | n@⟨_, .call callee [⟨⟨_, .str s⟩, _, _⟩] _⟩ =>
    if s == "" && callee.isNameOf "builtins.print" then [replace n "print(\"\")" "print()"] else []
  | _ => []

/-- Two calls of the same affix test on the same string: the test and its first argument. -/
def sameAffixTest? (env : Env) : Node → Node → Option (String × Node)
  | ⟨_, .call ⟨_, .member left f⟩ [⟨arg, _, _⟩] _⟩, ⟨_, .call ⟨_, .member right g⟩ [_] _⟩ =>
    if left.equivalent right && env.hasType left [.builtin "str", .builtin "bytes"]
        && f.name == g.name && (f.name == "startswith" || f.name == "endswith") then
      some (f.name, arg)
    else none
  | _, _ => none

def affixTuple (env : Env) (n : Node) : List Finding :=
  let either := match n.operands? .or with
    | some (left, right) =>
      match sameAffixTest? env left right with
      | some (f, arg) =>
        [replace arg ("x." ++ f ++ "(y) or x." ++ f ++ "(z)") ("x." ++ f ++ "((y, z))")]
      | none => []
    | none => []
  let neither := match n.operands? .and with
    | some (⟨_, .unary .not left _⟩, ⟨_, .unary .not right _⟩) =>
      match sameAffixTest? env left right with
      | some (f, arg) =>
        [replace arg ("not x." ++ f ++ "(y) and not x." ++ f ++ "(z)")
          ("not x." ++ f ++ "((y, z))")]
      | none => []
    | _ => []
  either ++ neither

/-- A literal of one kind: text or bytes. -/
def literal? (isBytes : Bool) : Node → Option String
  | ⟨_, .str s⟩ => if isBytes then none else some s
  | ⟨_, .bytes s⟩ => if isBytes then some s else none
  | _ => none

/-- A number of spaces: an integer or a name. -/
def amount? : Node → Option String
  | ⟨_, .int n⟩ => some (toString n)
  | ⟨_, .name ref _⟩ => some ref.name
  | _ => none

/-- What a tab is replaced by, if it is blanks: their number and how they are written. -/
def blanks? (isBytes : Bool) (n : Node) : Option (String × String) :=
  let mark := if isBytes then "b" else ""
  match literal? isBytes n with
  | some s =>
    if s.all (· == ' ') then some (toString s.length, mark ++ "\"" ++ s ++ "\"") else none
  | none =>
    match n with
    | ⟨_, .binary .mul left right _ _⟩ =>
      if literal? isBytes left == some " " then
        (amount? right).map fun a => (a, mark ++ "\" \" * " ++ a)
      else if literal? isBytes right == some " " then
        (amount? left).map fun a => (a, a ++ " * " ++ mark ++ "\" \"")
      else none
    | _ => none

/-- Tabs are eight wide where nothing else is said. -/
def tabWidth (amount : String) : String := if amount == "8" then "" else amount

def expandTabsIn (isBytes : Bool) : Node → List Finding
  | ⟨_, .call f@⟨_, .member _ ref⟩ [⟨tab, _, _⟩, ⟨blanks, _, _⟩] _⟩ =>
    let tabText := if isBytes then "\\t" else "\t"
    if ref.name == "replace" && literal? isBytes tab == some tabText then
      match blanks? isBytes blanks with
      | none => []
      | some (amount, written) =>
        let mark := if isBytes then "b" else ""
        [startingAt f.line (f.span.endColumn.getD 0 - "replace".length)
          (replacement ("x.replace(" ++ mark ++ "\"\\t\", " ++ written ++ ")")
            ("x.expandtabs(" ++ tabWidth amount ++ ")"))]
    else []
  | _ => []

def expandTabs (_ : Env) (n : Node) : List Finding := expandTabsIn false n ++ expandTabsIn true n

def stripFunctions : List String := ["lstrip", "rstrip", "strip"]

/-- A line break at the start of a literal that stripping takes away alone. -/
def breaksFirst : List Char → Bool
  | '\n' :: c :: _ => !Text.isBlank c
  | _ => false

def multilineStrip (_ : Env) : Node → List Finding
  | n@⟨_, .call ⟨_, .member ⟨_, .str value⟩ ref⟩ args _⟩ =>
    let argument? := match args with
      | [] => some "()"
      | [⟨⟨_, .str s⟩, _, _⟩] => if s == "\n" then some "(\"\\n\")" else none
      | _ => none
    match argument? with
    | none => []
    | some argument =>
      if some n.line != n.span.endLine && value.length > 1 then
        let leading := breaksFirst value.toList && ref.name != "rstrip"
        let trailing := breaksFirst value.toList.reverse && ref.name != "lstrip"
        if stripFunctions.contains ref.name && (leading || trailing) then
          let shown (mark : String) := "\"\"\"" ++ (if leading then mark else "") ++ "..."
            ++ (if trailing then mark else "") ++ "\"\"\""
          [replace n (shown "\\n" ++ "." ++ ref.name ++ argument) (shown "\\")]
        else []
      else []
  | _ => []

/-- The characters of two texts, each once and in order. -/
def combinedChars (a b : String) : String :=
  String.ofList ((a.toList ++ b.toList).eraseDups.mergeSort fun x y => x ≤ y)

/-- The one call that does what two strippings do one after the other. -/
def singleStrip? (f g : String) : List (CallArg Node) → List (CallArg Node) → Option String
  | [], [] => some ((if f == g then f else "strip") ++ "()")
  | [⟨⟨_, .str a⟩, _, _⟩], [⟨⟨_, .str b⟩, _, _⟩] =>
    if f == g then some (f ++ "(" ++ Text.quoted (combinedChars a b) ++ ")")
    else if a == b then some ("strip(" ++ Text.quoted a ++ ")")
    else none
  | _, _ => none

def doubleStrip (env : Env) : Node → List Finding
  | n@⟨_, .call ⟨_, .member ⟨_, .call ⟨_, .member base f⟩ firstArgs _⟩ g⟩ secondArgs _⟩ =>
    if stripFunctions.contains f.name && stripFunctions.contains g.name && env.isText base then
      match singleStrip? f.name g.name firstArgs secondArgs with
      | some call => [replace n n.sourceText (base.sourceText ++ "." ++ call)]
      | none => []
    else []
  | _ => []

def lowercase : String := "abcdefghijklmnopqrstuvwxyz"

def uppercase : String := "ABCDEFGHIJKLMNOPQRSTUVWXYZ"

def digits : String := "0123456789"

def punctuation : String := "!\"#$%&'()*+,-./:;<=>?@[\\]^_`\x7b|\x7d~"

def whitespace : String := " \t\n\r\x0b\x0c"

/-- The named sets of characters in the order in which they are tried. -/
def charsets : List (String × String) :=
  [("string.ascii_letters", lowercase ++ uppercase), ("string.ascii_lowercase", lowercase),
    ("string.ascii_uppercase", uppercase), ("string.digits", digits),
    ("string.hexdigits", digits ++ "abcdefABCDEF"), ("string.octdigits", "01234567"),
    ("string.printable", digits ++ lowercase ++ uppercase ++ punctuation ++ whitespace),
    ("string.punctuation", punctuation), ("string.whitespace", whitespace)]

def sameChars (a b : String) : Bool :=
  a.toList.all b.toList.contains && b.toList.all a.toList.contains

/-- The escapes of the two blanks that have a letter of their own. -/
def shortEscapes : List Char → List Char
  | '\\' :: 'x' :: '0' :: 'b' :: rest => '\\' :: 'v' :: shortEscapes rest
  | '\\' :: 'x' :: '0' :: 'c' :: rest => '\\' :: 'f' :: shortEscapes rest
  | c :: rest => c :: shortEscapes rest
  | [] => []

def charsetFindings (n : Node) (value : String) (is : String → Bool) : List Finding :=
  let shown := String.ofList (shortEscapes (Text.quotedBody value.toList))
  (charsets.filter fun c => is c.2).map fun c => replace n shown c.1

def charset (_ : Env) : Node → List Finding
  | n@⟨_, .comparison [.isIn] [_, ⟨_, .str value⟩]⟩ => charsetFindings n value (sameChars value)
  | n@⟨_, .str value⟩ => charsetFindings n value (value == ·)
  | _ => []

def shellJoinOf (n : Node) : Node → List Finding
  | ⟨_, .generator ⟨_, .call quote [⟨arg, _, _⟩] _⟩ [clause]⟩ =>
    if quote.refersTo "shlex.quote" then
      let name := if quote.isMember then "shlex.quote" else (quote.ref?.map (·.name)).getD ""
      let join := if quote.isMember then "shlex.join" else "join"
      if arg.isName && clause.conditions.isEmpty then
        [replace n ("\" \".join(" ++ name ++ "(x) for x in y)") (join ++ "(y)")]
      else
        let filter := if clause.conditions.isEmpty then "" else " if ..."
        [replace n ("\" \".join(" ++ name ++ "(...) for x in y" ++ filter ++ ")")
          (join ++ "(... for x in y" ++ filter ++ ")")]
    else []
  | _ => []

def shellJoin (_ : Env) : Node → List Finding
  | n@⟨_, .call ⟨_, .member ⟨_, .str space⟩ ref⟩ [⟨arg, _, _⟩] _⟩ =>
    if space == " " && ref.name == "join" then
      match arg with
      | ⟨_, .listComp generator⟩ => shellJoinOf n generator
      | _ => shellJoinOf n arg
    else []
  | _ => []

end IdiomLint.Rules.Strings
