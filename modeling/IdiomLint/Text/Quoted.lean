import IdiomLint.Text.Unprintable

/-! String literals. A text is quoted with single quotes, or with double quotes if it holds single
quotes and no double ones; what cannot be printed is written as an escape. -/
namespace IdiomLint.Text

def hexDigit (n : Nat) : Char := Nat.digitChar (n % 16)

/-- The last `width` hexadecimal digits of a number. -/
def hexPadded : Nat → Nat → List Char
  | 0, _ => []
  | width + 1, n => hexPadded width (n / 16) ++ [hexDigit n]

/-- The quote that `quoted` puts around a text. -/
def quoteFor (cs : List Char) : Char :=
  if cs.contains '\x27' && !cs.contains '"' then '"' else '\x27'

def escapeChar (quote c : Char) : List Char :=
  if c == '\\' || c == quote then ['\\', c]
  else if c == '\n' then ['\\', 'n']
  else if c == '\r' then ['\\', 'r']
  else if c == '\t' then ['\\', 't']
  else if isPrintable c then [c]
  else if c.toNat < 0x100 then '\\' :: 'x' :: hexPadded 2 c.toNat
  else if c.toNat < 0x10000 then '\\' :: 'u' :: hexPadded 4 c.toNat
  else '\\' :: 'U' :: hexPadded 8 c.toNat

/-- What `quoted` writes between the quotes. -/
def quotedBody (cs : List Char) : List Char := cs.flatMap (escapeChar (quoteFor cs))

def quoted (s : String) : String :=
  let q := quoteFor s.toList
  String.ofList (q :: quotedBody s.toList ++ [q])

/-- Puts a backslash before every double quote. -/
def escapeDoubleQuotes (cs : List Char) : List Char :=
  cs.flatMap fun c => if c == '"' then ['\\', '"'] else [c]

/-- A string literal in double quotes, as suggestions print it. -/
def doubleQuoted (s : String) : String :=
  String.ofList ('"' :: escapeDoubleQuotes (quotedBody s.toList) ++ ['"'])

end IdiomLint.Text
