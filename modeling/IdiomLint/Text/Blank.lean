/-! Classes of characters, given by ranges of code points or by a test; blank characters and the
trimming of text. -/
namespace IdiomLint.Text

/-- First and last code point of each range. -/
abbrev Ranges := List (Nat × Nat)

def Ranges.has (rs : Ranges) (c : Char) : Bool :=
  rs.any fun r => r.1 ≤ c.toNat && c.toNat ≤ r.2

/-- Letters, digits, underscores and all that is not ASCII. -/
def isWordChar (c : Char) : Bool := c.isAlphanum || c == '_' || 128 ≤ c.toNat

def blankRanges : Ranges :=
  [
    (9, 13), (28, 32), (133, 133), (160, 160), (5760, 5760), (8192, 8202), (8232, 8233),
    (8239, 8239), (8287, 8287), (12288, 12288)
  ]

def isBlank (c : Char) : Bool := blankRanges.has c

/-- The blanks of the core library are blanks. -/
theorem isBlank_of_isWhitespace {c : Char} (h : c.isWhitespace = true) : isBlank c = true := by
  simp only [Char.isWhitespace, Bool.or_eq_true, decide_eq_true_eq] at h
  rcases h with ((rfl | rfl) | rfl) | rfl <;> decide

def trimStartBy (p : Char → Bool) (cs : List Char) : List Char := cs.dropWhile p

def trimEndBy (p : Char → Bool) (cs : List Char) : List Char := (cs.reverse.dropWhile p).reverse

def trimBy (p : Char → Bool) (cs : List Char) : List Char := trimEndBy p (trimStartBy p cs)

def trim (s : String) : String := String.ofList (trimBy isBlank s.toList)

def trimEnd (s : String) : String := String.ofList (trimEndBy isBlank s.toList)

/-- The words of a text: what stands between blanks. -/
def words (s : String) : List String :=
  ((s.toList.splitBy fun a b => isBlank a == isBlank b).filter fun w =>
    w.any fun c => !isBlank c).map String.ofList

end IdiomLint.Text
