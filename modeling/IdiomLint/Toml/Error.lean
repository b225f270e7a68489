import IdiomLint.Text.Integer

/-! Why a text is no TOML document, and where. -/
namespace IdiomLint.Toml

abbrev Key := List String

inductive Cause where
  | badStatement
  | noLineEnd
  | expected (text : String)
  | strayChar (c : Char)
  | illegalChar (c : Char)
  | declaredTwice (key : Key)
  | frozen (key : Key)
  | redefined (key : Key)
  | overwritten
  | openTableHeader
  | openArrayHeader
  | noEquals
  | badKeyStart
  | openArray
  | openInlineTable
  | duplicateKey (key : String)
  | badEscape
  | badHex
  | notScalar
  | openString
  | badDate
  | badValue
  /-- A number is written with too many digits. -/
  | longNumber (digits : Nat)
  /-- Arrays and tables stand inside each other, and there is no room for one more. -/
  | tooDeep
deriving DecidableEq

/-- A key as a list of its parts; a single part is followed by a comma. -/
def keyText : Key → String
  | [k] => "(" ++ Text.quoted k ++ ",)"
  | ks => "(" ++ ", ".intercalate (ks.map Text.quoted) ++ ")"

def Cause.message : Cause → String
  | badStatement => "Invalid statement"
  | noLineEnd => "Expected newline or end of document after a statement"
  | expected t => "Expected " ++ Text.quoted t
  | strayChar c => "Found invalid character " ++ Text.quoted (String.ofList [c])
  | illegalChar c => "Illegal character " ++ Text.quoted (String.ofList [c])
  | declaredTwice k => "Cannot declare " ++ keyText k ++ " twice"
  | frozen k => "Cannot mutate immutable namespace " ++ keyText k
  | redefined k => "Cannot redefine namespace " ++ keyText k
  | overwritten => "Cannot overwrite a value"
  | openTableHeader => "Expected ']' at the end of a table declaration"
  | openArrayHeader => "Expected ']]' at the end of an array declaration"
  | noEquals => "Expected '=' after a key in a key/value pair"
  | badKeyStart => "Invalid initial character for a key part"
  | openArray => "Unclosed array"
  | openInlineTable => "Unclosed inline table"
  | duplicateKey k => "Duplicate inline table key " ++ Text.quoted k
  | badEscape => "Unescaped '\\' in a string"
  | badHex => "Invalid hex value"
  | notScalar => "Escaped character is not a Unicode scalar value"
  | openString => "Unterminated string"
  | badDate => "Invalid date or datetime"
  | badValue => "Invalid value"
  | longNumber n => (Text.NumberError.tooManyDigits n).message
  | tooDeep => ""

/-- A cause and how many characters of the document were left when it arose. -/
structure Trouble where
  cause : Cause
  left : Nat
deriving DecidableEq

/-- Line and column of a place, both counted from one. -/
def position (source : List Char) (left : Nat) : String :=
  if left = 0 then "end of document"
  else
    let before := source.take (source.length - left)
    let column := (before.reverse.takeWhile (· != '\n')).length + 1
    "line " ++ toString (before.count '\n' + 1) ++ ", column " ++ toString column

def Trouble.message (source : List Char) (t : Trouble) : String :=
  t.cause.message ++ " (at " ++ position source t.left ++ ")"

/-- Why a text is not read or a value not written: it is malformed, it holds a number with too many
digits, or it is nested too deeply. -/
inductive Refusal where
  | malformed (message : String)
  | badNumber (error : Text.NumberError)
  | tooDeep
deriving DecidableEq

def Trouble.refusal (source : List Char) (t : Trouble) : Refusal :=
  match t.cause with
  | .longNumber n => .badNumber (.tooManyDigits n)
  | .tooDeep => .tooDeep
  | _ => .malformed (t.message source)

end IdiomLint.Toml
