import IdiomLint.Json.Value

/-! Reading JSON text. -/
namespace IdiomLint.Json

namespace Parse

def isSpace (c : Char) : Bool := c == ' ' || c == '\n' || c == '\t' || c == '\r'

def skip (cs : List Char) : List Char := cs.dropWhile isSpace

def hexValue? (c : Char) : Option Nat :=
  if '0' ≤ c && c ≤ '9' then some (c.toNat - 48)
  else if 'a' ≤ c && c ≤ 'f' then some (c.toNat - 87)
  else if 'A' ≤ c && c ≤ 'F' then some (c.toNat - 55)
  else none

def hex4? (a b c d : Char) : Option Nat := do
  return 4096 * (← hexValue? a) + 256 * (← hexValue? b) + 16 * (← hexValue? c) + (← hexValue? d)

def isHighSurrogate (n : Nat) : Bool := 0xD800 ≤ n && n < 0xDC00

def isLowSurrogate (n : Nat) : Bool := 0xDC00 ≤ n && n < 0xE000

def shortEscape? : Char → Option Char
  | '"' => some '"'
  | '\\' => some '\\'
  | '/' => some '/'
  | 'b' => some '\x08'
  | 'f' => some '\x0c'
  | 'n' => some '\n'
  | 'r' => some '\r'
  | 't' => some '\t'
  | _ => none

/-- The rest of a string after its opening quote. -/
def stringBody (acc : List Char) : List Char → Option (String × List Char)
  | [] => none
  | '"' :: rest => some (String.ofList acc.reverse, rest)
  | '\\' :: 'u' :: a :: b :: c :: d :: rest =>
    match hex4? a b c d with
    | none => none
    | some n =>
      if isHighSurrogate n then
        match rest with
        | '\\' :: 'u' :: e :: f :: g :: h :: rest' =>
          match hex4? e f g h with
          | some m =>
            if isLowSurrogate m then
              stringBody (Char.ofNat (0x10000 + 0x400 * (n - 0xD800) + (m - 0xDC00)) :: acc) rest'
            else none
          | none => none
        | _ => none
      else stringBody (Char.ofNat n :: acc) rest
  | '\\' :: e :: rest =>
    match shortEscape? e with
    | some c => stringBody (c :: acc) rest
    | none => none
  | '\\' :: [] => none
  | c :: rest => stringBody (c :: acc) rest

def isNumberChar (c : Char) : Bool :=
  ('0' ≤ c && c ≤ '9') || c == '-' || c == '+' || c == '.' || c == 'e' || c == 'E'

mutual

/-- One value from the front of a text. An array or object in it takes two steps, one for the value
and one for what it holds, so twice the length of the text is enough. -/
def value : Nat → List Char → Option (Json × List Char)
  | 0, _ => none
  | fuel + 1, cs =>
    match skip cs with
    | 'n' :: 'u' :: 'l' :: 'l' :: rest => some (.null, rest)
    | 't' :: 'r' :: 'u' :: 'e' :: rest => some (.bool true, rest)
    | 'f' :: 'a' :: 'l' :: 's' :: 'e' :: rest => some (.bool false, rest)
    | '"' :: rest => (stringBody [] rest).map fun r => (.string r.1, r.2)
    | '[' :: rest =>
      match skip rest with
      | ']' :: rest' => some (.array [], rest')
      | rest' => (elements fuel rest').map fun r => (.array r.1, r.2)
    | '\x7b' :: rest =>
      match skip rest with
      | '\x7d' :: rest' => some (.object [], rest')
      | rest' => (pairs fuel rest').map fun r => (.object r.1, r.2)
    | c :: rest =>
      if isNumberChar c then
        let digits := (c :: rest).takeWhile isNumberChar
        some (.number (String.ofList digits), (c :: rest).drop digits.length)
      else none
    | [] => none

def elements : Nat → List Char → Option (List Json × List Char)
  | 0, _ => none
  | fuel + 1, cs =>
    match value fuel cs with
    | none => none
    | some (v, rest) =>
      match skip rest with
      | ',' :: rest' => (elements fuel rest').map fun r => (v :: r.1, r.2)
      | ']' :: rest' => some ([v], rest')
      | _ => none

def pairs : Nat → List Char → Option (List (String × Json) × List Char)
  | 0, _ => none
  | fuel + 1, cs =>
    match skip cs with
    | '"' :: rest =>
      match stringBody [] rest with
      | none => none
      | some (key, rest) =>
        match skip rest with
        | ':' :: rest =>
          match value fuel rest with
          | none => none
          | some (v, rest) =>
            match skip rest with
            | ',' :: rest => (pairs fuel rest).map fun r => ((key, v) :: r.1, r.2)
            | '\x7d' :: rest => some ([(key, v)], rest)
            | _ => none
        | _ => none
    | _ => none

end

end Parse

/-- The document a text holds. -/
def parse (s : String) : Option Json :=
  let cs := s.toList
  match Parse.value (2 * cs.length + 2) cs with
  | some (v, rest) => if (Parse.skip rest).isEmpty then some v else none
  | none => none

end IdiomLint.Json
