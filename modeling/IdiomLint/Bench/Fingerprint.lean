import IdiomLint.Bench.Value
import IdiomLint.Decimal.Round
import IdiomLint.Hash.Sha256

/-! Fingerprints of values: the hash of the bytes that a value is written as. -/
namespace IdiomLint.Bench

def utf8 (s : String) : List UInt8 := s.toUTF8.toList

/-- Items of a list beyond this count do not matter. -/
def maxItems : Nat := 2000

/-- Values in this many lists or more do not matter. -/
def maxDepth : Nat := 8

/-- Decimal places of a number that matter. -/
def comparedPlaces : Nat := 6

/-- The kind of a container and the number of its items. -/
def heading (kind : String) (count : Nat) : List UInt8 := utf8 (kind ++ toString count)

mutual

/-- The bytes of a value that lies in a number of containers. Texts and bytes have the same mark
before them; whole numbers stand as they are and others rounded, with nothing between one and the
next. -/
def encode (depth : Nat) : Value → List UInt8
  | .float x => utf8 (Decimal.text (Decimal.round comparedPlaces x))
  | .str s => utf8 ("s" ++ s)
  | .bytes _ bs => utf8 "s" ++ bs
  | .list items =>
    heading "L" items.length ++
      (if depth < maxDepth then encodeAll (depth + 1) items maxItems else [])
  | .tuple items =>
    heading "L" items.length ++
      (if depth < maxDepth then encodeAll (depth + 1) items maxItems else [])
  | .set items =>
    heading "S" items.length ++
      (if depth < maxDepth then encodeAll (depth + 1) items maxItems else [])
  | .dict entries =>
    heading "D" entries.length ++
      (if depth < maxDepth then encodeEntries (depth + 1) entries maxItems else [])
  | .record fields =>
    heading "R" fields.length ++
      (if depth < maxDepth then encodeFields (depth + 1) fields maxItems else [])
  | .object name => utf8 name
  | v => utf8 v.literal

def encodeAll (depth : Nat) : List Value → Nat → List UInt8
  | [], _ => []
  | _ :: _, 0 => []
  | v :: vs, count + 1 => encode depth v ++ encodeAll depth vs count

def encodeEntries (depth : Nat) : List (Value × Value) → Nat → List UInt8
  | [], _ => []
  | _ :: _, 0 => []
  | (k, v) :: es, count + 1 => encode depth k ++ encode depth v ++ encodeEntries depth es count

def encodeFields (depth : Nat) : List (String × Value) → Nat → List UInt8
  | [], _ => []
  | _ :: _, 0 => []
  | (k, v) :: fs, count + 1 => utf8 ("s" ++ k) ++ encode depth v ++ encodeFields depth fs count

end

def fingerprint (v : Value) : String := Sha256.hex (encode 0 v)

end IdiomLint.Bench
