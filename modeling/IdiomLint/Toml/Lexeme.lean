import IdiomLint.Text.Search
import IdiomLint.Toml.Value

/-! The words of TOML: keys, strings, numbers, dates and times. Each reader takes its word from the
front of a text and gives back the rest. -/
namespace IdiomLint.Toml

abbrev Read (α : Type) := List Char → Except Trouble (α × List Char)

def fail {α : Type} (cause : Cause) (rest : List Char) : Except Trouble α :=
  .error ⟨cause, rest.length⟩

def isSpace (c : Char) : Bool := c == ' ' || c == '\t'

def isSpaceOrLineEnd (c : Char) : Bool := isSpace c || c == '\n'

def skipSpaces (cs : List Char) : List Char := cs.dropWhile isSpace

def isControl (c : Char) : Bool := c.toNat < 32 || c.toNat = 127

/-- Control characters that a text on one line may not hold. -/
def isIllegal (c : Char) : Bool := isControl c && c != '\t'

def isIllegalInLines (c : Char) : Bool := isIllegal c && c != '\n'

def isDecimal (c : Char) : Bool := '0' ≤ c && c ≤ '9'

def isHex (c : Char) : Bool := isDecimal c || ('a' ≤ c && c ≤ 'f') || ('A' ≤ c && c ≤ 'F')

def isBareKeyChar (c : Char) : Bool :=
  isDecimal c || ('a' ≤ c && c ≤ 'z') || ('A' ≤ c && c ≤ 'Z') || c == '-' || c == '_'

/-- The text before the first character of which `stray` holds, which must not be there. -/
def refuse (stray : Char → Bool) : (text rest : List Char) → Except Trouble (List Char)
  | [], _ => .ok []
  | c :: text, rest =>
    if stray c then fail (.strayChar c) (c :: text ++ rest)
    else (refuse stray text rest).map (c :: ·)

/-- A comment up to the end of its line, if one stands here. -/
def skipComment : List Char → Except Trouble (List Char)
  | '#' :: cs =>
    let line := cs.takeWhile (· != '\n')
    let rest := cs.drop line.length
    (refuse isIllegal line rest).map fun _ => rest
  | cs => .ok cs

/-- Blanks, line ends and comments between the items of an array. -/
def skipFiller : Nat → List Char → Except Trouble (List Char)
  | 0, cs => .ok cs
  | fuel + 1, cs => do
    let rest ← skipComment (cs.dropWhile isSpaceOrLineEnd)
    if rest.length = cs.length then pure rest else skipFiller fuel rest

def hexValue (cs : List Char) : Nat :=
  cs.foldl (fun n c =>
    16 * n + (if isDecimal c then c.toNat - 48 else if 'a' ≤ c then c.toNat - 87
      else c.toNat - 55)) 0

/-- A character given by its code point in `width` hexadecimal digits. -/
def hexChar (width : Nat) : Read Char := fun cs =>
  let digits := cs.take width
  if digits.length = width && digits.all isHex then
    let n := hexValue digits
    if n < 0xd800 || (0xdfff < n && n ≤ 0x10ffff) then .ok (Char.ofNat n, cs.drop width)
    else fail .notScalar (cs.drop width)
  else fail .badHex cs

/-- What follows a backslash: one character, or none where it joins two lines. -/
def escape (multiline : Bool) : Read (List Char)
  | c :: cs =>
    if multiline && isSpaceOrLineEnd c then
      if c == '\n' then .ok ([], cs.dropWhile isSpaceOrLineEnd)
      else
        match skipSpaces cs with
        | [] => .ok ([], [])
        | '\n' :: rest => .ok ([], rest.dropWhile isSpaceOrLineEnd)
        | rest => fail .badEscape rest
    else
      match c with
      | 'u' => (hexChar 4 cs).map fun r => ([r.1], r.2)
      | 'U' => (hexChar 8 cs).map fun r => ([r.1], r.2)
      | 'b' => .ok (['\x08'], cs)
      | 't' => .ok (['\t'], cs)
      | 'n' => .ok (['\n'], cs)
      | 'f' => .ok (['\x0c'], cs)
      | 'r' => .ok (['\r'], cs)
      | '"' => .ok (['"'], cs)
      | '\\' => .ok (['\\'], cs)
      | _ => fail .badEscape cs
  | [] => fail .badEscape []

/-- A string with escapes, from behind its opening quotes to behind its closing ones. -/
def basicBody (multiline : Bool) : Nat → List Char → List Char →
    Except Trouble (List Char × List Char)
  | 0, _, cs => fail .openString cs
  | _ + 1, _, [] => fail .openString []
  | fuel + 1, taken, c :: cs =>
    if c == '"' then
      if !multiline then .ok (taken.reverse, cs)
      else
        match cs with
        | '"' :: '"' :: rest => .ok (taken.reverse, rest)
        | _ => basicBody multiline fuel (c :: taken) cs
    else if c == '\\' then
      match escape multiline cs with
      | .error e => .error e
      | .ok (es, rest) => basicBody multiline fuel (es.reverse ++ taken) rest
    else if (if multiline then isIllegalInLines c else isIllegal c) then
      fail (.illegalChar c) (c :: cs)
    else basicBody multiline fuel (c :: taken) cs

def basicString : Read String := fun cs =>
  (basicBody false (cs.length + 1) [] cs).map fun r => (String.ofList r.1, r.2)

/-- A string without escapes, from behind its opening quotes. -/
def literalBody (closing : List Char) (stray : Char → Bool) : Read (List Char) := fun cs =>
  match Text.breakAt closing cs with
  | none => fail (.expected (String.ofList closing)) []
  | some (text, rest) => (refuse stray text (closing ++ rest)).map fun t => (t, rest)

def literalString : Read String := fun cs =>
  (literalBody ['\x27'] isIllegal cs).map fun r => (String.ofList r.1, r.2)

/-- Up to two more quotes at the end of a string of several lines belong to the string. -/
def extraQuotes (quote : Char) : List Char → List Char × List Char
  | a :: b :: rest =>
    if a == quote then if b == quote then ([a, b], rest) else ([a], b :: rest)
    else ([], a :: b :: rest)
  | [a] => if a == quote then ([a], []) else ([], [a])
  | [] => ([], [])

/-- A line end right behind the opening quotes does not belong to the string. -/
def dropLineEnd : List Char → List Char
  | '\n' :: cs => cs
  | cs => cs

def multilineString (quote : Char) : Read String := fun opened => do
  let cs := dropLineEnd opened
  let (text, rest) ←
    if quote == '"' then basicBody true (cs.length + 1) [] cs
    else literalBody [quote, quote, quote] isIllegalInLines cs
  let (extra, rest) := extraQuotes quote rest
  pure (String.ofList (text ++ extra), rest)

def keyPart : Read String
  | '"' :: cs => basicString cs
  | '\x27' :: cs => literalString cs
  | cs =>
    let bare := cs.takeWhile isBareKeyChar
    if bare.isEmpty then fail .badKeyStart cs
    else .ok (String.ofList bare, cs.drop bare.length)

/-- The parts of a key that follow the first one, and the blanks behind each. -/
def keyTail : Nat → Read Key
  | 0, cs => .ok ([], cs)
  | fuel + 1, '.' :: cs => do
    let (part, rest) ← keyPart (skipSpaces cs)
    let (parts, rest) ← keyTail fuel (skipSpaces rest)
    pure (part :: parts, rest)
  | _ + 1, cs => .ok ([], cs)

def key : Read Key := fun cs => do
  let (part, rest) ← keyPart cs
  let (parts, rest) ← keyTail (rest.length + 1) (skipSpaces rest)
  pure (part :: parts, rest)

/-- Digits, of which two neighbours may have one underscore between them. -/
def groups (p : Char → Bool) : List Char → List Char × List Char
  | '_' :: c :: cs => if p c then let r := groups p cs; (c :: r.1, r.2) else ([], '_' :: c :: cs)
  | c :: cs => if p c then let r := groups p cs; (c :: r.1, r.2) else ([], c :: cs)
  | [] => ([], [])

/-- A digit and the digits after it. -/
def digitGroup? (p : Char → Bool) : List Char → Option (List Char × List Char)
  | c :: cs => if p c then let r := groups p cs; some (c :: r.1, r.2) else none
  | [] => none

def valueIn (base : Nat) (cs : List Char) : Nat := cs.foldl (fun n c => base * n + hexValue [c]) 0

/-- The sign in front of a number, true for a minus. -/
def sign : List Char → Bool × List Char
  | '-' :: cs => (true, cs)
  | '+' :: cs => (false, cs)
  | cs => (false, cs)

def wholePart? : List Char → Option (List Char × List Char)
  | '0' :: cs => some (['0'], cs)
  | cs => digitGroup? isDecimal cs

def fractionPart : List Char → List Char × List Char
  | '.' :: cs => (digitGroup? isDecimal cs).getD ([], '.' :: cs)
  | cs => ([], cs)

def exponentPart? : List Char → Option (Int × List Char)
  | c :: cs =>
    if c == 'e' || c == 'E' then
      let (negative, ds) := sign cs
      (digitGroup? isDecimal ds).map fun r =>
        (if negative then -(valueIn 10 r.1 : Int) else valueIn 10 r.1, r.2)
    else none
  | [] => none

def signed (negative : Bool) (x : Float) : Float := if negative then -x else x

/-- A whole number in decimal digits, of which there must not be too many. -/
def wholeNumber (negative : Bool) (digits : List Char) : Except Cause Value :=
  if digits.length ≤ Text.maxDigits then
    let n : Int := valueIn 10 digits
    .ok (.integer (if negative then -n else n))
  else .error (.longNumber digits.length)

def decimalNumber? (cs : List Char) : Option (Except Cause Value × List Char) :=
  let (negative, unsigned) := sign cs
  (wholePart? unsigned).map fun (whole, rest) =>
    let (fraction, rest) := fractionPart rest
    match fraction, exponentPart? rest with
    | [], none => (wholeNumber negative whole, rest)
    | _, power =>
      let digits := valueIn 10 (whole ++ fraction)
      let e := (power.map (·.1)).getD 0 - fraction.length
      (.ok (.float (signed negative (Decimal.toFloat digits e))), (power.map (·.2)).getD rest)

def inBase? (base : Nat) (p : Char → Bool) (cs : List Char) : Option (Value × List Char) :=
  (digitGroup? p cs).map fun r => (.integer (valueIn base r.1), r.2)

def number? (cs : List Char) : Option (Except Cause Value × List Char) :=
  let based := match cs with
    | '0' :: 'x' :: rest => inBase? 16 isHex rest
    | '0' :: 'b' :: rest => inBase? 2 (fun c => c == '0' || c == '1') rest
    | '0' :: 'o' :: rest => inBase? 8 (fun c => '0' ≤ c && c ≤ '7') rest
    | _ => none
  match based with
  | some (v, rest) => some (.ok v, rest)
  | none => decimalNumber? cs

def infinity : Float := 1.0 / 0.0

def notANumber : Float := 0.0 / 0.0

def specialFloat? (cs : List Char) : Option (Value × List Char) :=
  let (negative, rest) := sign cs
  match rest with
  | 'i' :: 'n' :: 'f' :: rest => some (.float (signed negative infinity), rest)
  | 'n' :: 'a' :: 'n' :: rest => some (.float notANumber, rest)
  | _ => none

/-- Exactly `width` digits whose value lies between two bounds. -/
def fixedNumber? (width low high : Nat) (cs : List Char) : Option (Nat × List Char) :=
  let ds := cs.take width
  let n := valueIn 10 ds
  if ds.length = width && ds.all isDecimal && low ≤ n && n ≤ high then some (n, cs.drop width)
  else none

def punctuation? (c : Char) : List Char → Option (List Char)
  | d :: cs => if c == d then some cs else none
  | [] => none

def datePart? (cs : List Char) : Option (Date × List Char) := do
  let (year, cs) ← fixedNumber? 4 0 9999 cs
  let (month, cs) ← fixedNumber? 2 1 12 (← punctuation? '-' cs)
  let (day, cs) ← fixedNumber? 2 1 31 (← punctuation? '-' cs)
  pure (⟨year, month, day⟩, cs)

/-- Of the digits behind the point of the seconds the first six count. -/
def microPart : List Char → Nat × List Char
  | '.' :: cs =>
    let ds := cs.takeWhile isDecimal
    if ds.isEmpty then (0, '.' :: cs)
    else
      let six := ds.take 6
      (valueIn 10 (six ++ List.replicate (6 - six.length) '0'), cs.drop ds.length)
  | cs => (0, cs)

def timePart? (cs : List Char) : Option (Time × List Char) := do
  let (hour, cs) ← fixedNumber? 2 0 23 cs
  let (minute, cs) ← fixedNumber? 2 0 59 (← punctuation? ':' cs)
  let (second, cs) ← fixedNumber? 2 0 59 (← punctuation? ':' cs)
  let (micro, cs) := microPart cs
  pure (⟨hour, minute, second, micro⟩, cs)

def offsetPart? : List Char → Option (Int × List Char)
  | 'Z' :: cs => some (0, cs)
  | 'z' :: cs => some (0, cs)
  | c :: cs =>
    if c == '+' || c == '-' then do
      let (hours, cs) ← fixedNumber? 2 0 23 cs
      let (minutes, cs) ← fixedNumber? 2 0 59 (← punctuation? ':' cs)
      let n : Int := hours * 60 + minutes
      pure (if c == '-' then -n else n, cs)
    else none
  | [] => none

def isLeap (year : Nat) : Bool := year % 4 = 0 && (year % 100 ≠ 0 || year % 400 = 0)

def monthLength (year month : Nat) : Nat :=
  if month = 2 then if isLeap year then 29 else 28
  else if month ∈ [4, 6, 9, 11] then 30 else 31

def Date.exists (d : Date) : Bool := 1 ≤ d.year && d.day ≤ monthLength d.year d.month

/-- A date, with a time behind it if one follows. -/
def dateOrMoment? (cs : List Char) : Option (Value × Date × List Char) :=
  (datePart? cs).map fun (date, rest) =>
    let timed := match rest with
      | c :: more => if c == 'T' || c == 't' || c == ' ' then timePart? more else none
      | [] => none
    match timed with
    | none => (.date date, date, rest)
    | some (time, rest) =>
      match offsetPart? rest with
      | none => (.moment date time none, date, rest)
      | some (offset, rest) => (.moment date time (some offset), date, rest)

end IdiomLint.Toml
