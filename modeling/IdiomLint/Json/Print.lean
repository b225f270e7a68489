import IdiomLint.Json.Value

/-! Writing JSON text. -/
namespace IdiomLint.Json

/-- What stands between items and after keys, and whether only ASCII is written. -/
structure Style where
  comma : String
  colon : String
  ascii : Bool

namespace Style

/-- One line without blanks. -/
def compact : Style := ⟨",", ":", true⟩

/-- One line with a blank after each comma and colon. -/
def spaced : Style := ⟨", ", ": ", true⟩

end Style

/-- A character outside the first plane is written as two escapes. -/
def escapeUnits (n : Nat) : List Char :=
  if n < 0x10000 then '\\' :: 'u' :: Text.hexPadded 4 n
  else
    '\\' :: 'u' :: Text.hexPadded 4 (0xD800 + (n - 0x10000) / 0x400)
      ++ '\\' :: 'u' :: Text.hexPadded 4 (0xDC00 + (n - 0x10000) % 0x400)

def escapeChar (ascii : Bool) (c : Char) : List Char :=
  if c == '"' then ['\\', '"']
  else if c == '\\' then ['\\', '\\']
  else if c == '\n' then ['\\', 'n']
  else if c == '\r' then ['\\', 'r']
  else if c == '\t' then ['\\', 't']
  else if c == '\x08' then ['\\', 'b']
  else if c == '\x0c' then ['\\', 'f']
  else if c.toNat < 32 || (ascii && 126 < c.toNat) then escapeUnits c.toNat
  else [c]

def quote (style : Style) (s : String) : String :=
  String.ofList ('"' :: s.toList.flatMap (escapeChar style.ascii) ++ ['"'])

mutual

def print (style : Style) : Json → String
  | .null => "null"
  | .bool true => "true"
  | .bool false => "false"
  | .number t => t
  | .string s => quote style s
  | .array xs => "[" ++ style.comma.intercalate (printAll style xs) ++ "]"
  | .object ms => "\x7b" ++ style.comma.intercalate (printMembers style ms) ++ "\x7d"

def printAll (style : Style) : List Json → List String
  | [] => []
  | v :: rest => print style v :: printAll style rest

def printMembers (style : Style) : List (String × Json) → List String
  | [] => []
  | (k, v) :: rest => (quote style k ++ style.colon ++ print style v) :: printMembers style rest

end

end IdiomLint.Json
