import IdiomLint.Bench.Value
import IdiomLint.Json.Parse
import IdiomLint.Syntax.SourceText
import Mathlib.Tactic.SplitIfs

/-! Literals read back. A reader for literals in double quotes goes over the text character by
character and knows the escapes of the language, but for characters given by their names. The text
of a string or of a byte string is such a literal on one line, and the reader gets back the value it
was printed for. -/
namespace IdiomLint

namespace Scanner

section

variable {σ α β : Type} (step : σ → α → Option (List β × σ))

/-- What the steps of a scanner complete, one step a symbol, and the state after them. -/
def run : σ → List α → Option (List β × σ)
  | s, [] => some ([], s)
  | s, a :: rest => (step s a).bind fun r => (run r.2 rest).map fun t => (r.1 ++ t.1, t.2)

end

section

variable {σ α β : Type} {step : σ → α → Option (List β × σ)} {s t u : σ} {a : α} {as rest : List α}
variable {xs ys : List β}

theorem run_cons (known : step s a = some (xs, t)) :
    run step s (a :: rest) = (run step t rest).map fun r => (xs ++ r.1, r.2) := by
  rw [run, known]
  rfl

/-- A step that completes nothing. -/
theorem run_next (known : step s a = some ([], t)) :
    run step s (a :: rest) = run step t rest := by
  rw [run_cons known]
  exact Option.map_id'

theorem run_stuck (known : step s a = none) : run step s (a :: rest) = none := by
  rw [run, known]
  rfl

theorem run_append (s : σ) (as rest : List α) :
    run step s (as ++ rest)
      = (run step s as).bind fun r => (run step r.2 rest).map fun t => (r.1 ++ t.1, t.2) := by
  induction as generalizing s with
  | nil => simp [run]
  | cons a as ih =>
    rw [List.cons_append]
    cases known : step s a with
    | none => simp [run_stuck known]
    | some r =>
      obtain ⟨xs, t⟩ := r
      rw [run_cons known, run_cons known, ih]
      cases run step t as with
      | none => rfl
      | some r => simp [Function.comp_def]

theorem run_trans (first : run step s as = some (xs, t)) (second : run step t rest = some (ys, u)) :
    run step s (as ++ rest) = some (xs ++ ys, u) := by
  rw [run_append, first, Option.bind_some, second]
  rfl

/-- Pieces that each lead back to the state they started from. -/
theorem run_flatMap {γ : Type} {cs : List γ} {write : γ → List α} {out : γ → List β}
    (each : ∀ c ∈ cs, run step s (write c) = some (out c, s)) :
    run step s (cs.flatMap write) = some (cs.flatMap out, s) := by
  induction cs with
  | nil => rfl
  | cons c cs ih =>
    have rest := ih fun d mem => each d (List.mem_cons_of_mem c mem)
    exact run_trans (each c List.mem_cons_self) rest

theorem run_map {γ : Type} {cs : List γ} {write : γ → List α} {out : γ → β}
    (each : ∀ c ∈ cs, run step s (write c) = some ([out c], s)) :
    run step s (cs.flatMap write) = some (cs.map out, s) := by
  rw [List.map_eq_flatMap]
  exact run_flatMap each

end

end Scanner

namespace Literal

inductive Kind where
  | text | bytes
deriving DecidableEq

/-- A character of a literal, and whether it was written as itself. -/
structure Mark where
  char : Char
  raw : Bool
deriving DecidableEq

/-- Where the reader is: between characters, after a backslash, in a code of digits of which `left`
are to come, in an octal code that can have `left` more digits, or behind the closing quote. -/
inductive Mode where
  | text
  | escape
  | code (left value : Nat)
  | octal (left value : Nat)
  | closed
deriving DecidableEq

/-- The characters that end a line of a program or that no program holds. -/
def isBreak (c : Char) : Bool := c == '\n' || c == '\r' || c == '\x00'

def escapes : List (Char × Char) :=
  [('\\', '\\'), ('\x27', '\x27'), ('"', '"'), ('a', '\x07'), ('b', '\x08'), ('f', '\x0c'),
    ('n', '\n'), ('r', '\r'), ('t', '\t'), ('v', '\x0b')]

def Kind.codeWidth? : Kind → Char → Option Nat
  | _, 'x' => some 2
  | .text, 'u' => some 4
  | .text, 'U' => some 8
  | _, _ => none

def octalValue? (c : Char) : Option Nat := (Json.Parse.hexValue? c).filter (· < 8)

def coded? (code : Nat) : Option Mark :=
  if code.isValidChar then some ⟨Char.ofNat code, false⟩ else none

def plain (kind : Kind) (c : Char) : Option (List Mark × Mode) :=
  if c = '"' then some ([], .closed)
  else if c = '\\' then some ([], .escape)
  else if isBreak c || (kind = .bytes && 128 ≤ c.toNat) then none
  else some ([⟨c, true⟩], .text)

/-- A character after a backslash. A line break is left out with its backslash; a backslash that
begins no escape is kept. -/
def escaped (kind : Kind) (c : Char) : Option (List Mark × Mode) :=
  match escapes.lookup c, kind.codeWidth? c, octalValue? c with
  | some d, _, _ => some ([⟨d, false⟩], .text)
  | none, some width, _ => some ([], .code width 0)
  | none, none, some value => some ([], .octal 2 value)
  | none, none, none =>
    if c = '\n' then some ([], .text)
    else if kind = .text && c = 'N' then none
    else (plain kind c).map fun r => (⟨'\\', true⟩ :: r.1, r.2)

def step (kind : Kind) : Mode → Char → Option (List Mark × Mode)
  | .text, c => plain kind c
  | .escape, c => escaped kind c
  | .code left value, c => do
    let digit ← Json.Parse.hexValue? c
    let code := 16 * value + digit
    if left ≤ 1 then return ([← coded? code], .text) else return ([], .code (left - 1) code)
  | .octal left value, c =>
    match left, octalValue? c with
    | left + 1, some digit => some ([], .octal left (8 * value + digit))
    | _, _ => do
      let m ← coded? (if kind = .bytes then value % 256 else value)
      let (marks, mode) ← plain kind c
      return (m :: marks, mode)
  | .closed, _ => none

/-- The characters up to the closing quote, with which the text ends. -/
def read (kind : Kind) (cs : List Char) : Option (List Mark) :=
  (Scanner.run (step kind) .text cs).bind fun r => if r.2 = .closed then some r.1 else none

def text? (literal : String) : Option String :=
  match literal.toList with
  | '"' :: rest => (read .text rest).map fun marks => String.ofList (marks.map Mark.char)
  | _ => none

def bytes? (literal : String) : Option (List UInt8) :=
  match literal.toList with
  | 'b' :: '"' :: rest =>
    (read .bytes rest).map fun marks => marks.map fun m => UInt8.ofNat m.char.toNat
  | _ => none

section

open Scanner

variable {kind : Kind} {c : Char} {cs : List Char} {ms : List Mark}

/-- The closing quote. -/
theorem read_closed (h : run (step kind) .text cs = some (ms, .text)) :
    read kind (cs ++ ['"']) = some ms := by
  have ends : run (step kind) .text ['"'] = some ([], .closed) := rfl
  rw [read, run_trans h ends]
  simp

def codes : Nat → Nat
  | 0 => 1
  | width + 1 => 16 * codes width

theorem hexValue?_hexDigit (n : Nat) :
    Json.Parse.hexValue? (Text.hexDigit n) = some (n % 16) := by
  have all : ∀ d : Fin 16, Json.Parse.hexValue? (Nat.digitChar d) = some d.val := by decide
  exact all ⟨n % 16, Nat.mod_lt n (by decide)⟩

theorem exists_digit_of_mem {width n : Nat} (mem : c ∈ Text.hexPadded width n) :
    ∃ d : Fin 16, c = Nat.digitChar d := by
  induction width generalizing n with
  | zero => cases mem
  | succ width ih =>
    rcases List.mem_append.1 mem with inside | last
    · exact ih inside
    · exact ⟨⟨n % 16, Nat.mod_lt n (by decide)⟩, List.mem_singleton.1 last⟩

theorem mod_codes_succ (width n : Nat) :
    n % codes (width + 1) = 16 * (n / 16 % codes width) + n % 16 := by
  rw [codes, Nat.mod_mul, Nat.add_comm]

theorem run_hexPadded (width left n value : Nat) :
    run (step kind) (.code (width + (left + 1)) value) (Text.hexPadded width n)
      = some ([], .code (left + 1) (codes width * value + n % codes width)) := by
  -- The last digit is printed last, so that all digits before it leave one more to come.
  induction width generalizing left n with
  | zero => simp [Text.hexPadded, codes, Nat.mod_one, run]
  | succ width ih =>
    have more : width + 1 + (left + 1) = width + (left + 1 + 1) := by omega
    have digit : step kind (.code (left + 1 + 1) (codes width * value + n / 16 % codes width))
        (Text.hexDigit n)
          = some ([], .code (left + 1) (codes (width + 1) * value + n % codes (width + 1))) := by
      rw [mod_codes_succ, codes, Nat.mul_assoc, ← Nat.add_assoc, ← Nat.mul_add]
      simp [step, hexValue?_hexDigit]
    rw [Text.hexPadded, more]
    exact run_trans (ih (left + 1) (n / 16)) (run_next digit)

inductive Written (kind : Kind) (c : Char) : List Char → Prop
  | self (h : plain kind c = some ([⟨c, true⟩], .text)) : Written kind c [c]
  | escape {name : Char} (h : (name, c) ∈ escapes) : Written kind c ['\\', name]
  | code {letter : Char} {width : Nat} (h : kind.codeWidth? letter = some (width + 1))
      (other : escapes.lookup letter = none) (small : c.toNat < codes (width + 1)) :
      Written kind c ('\\' :: letter :: Text.hexPadded (width + 1) c.toNat)

theorem lookup_escapes {e : Char × Char} (h : e ∈ escapes) : escapes.lookup e.1 = some e.2 := by
  have all : escapes.all (fun e => escapes.lookup e.1 == some e.2) = true := by decide
  exact beq_iff_eq.1 (List.all_eq_true.1 all e h)

def Mark.of (c : Char) (cs : List Char) : Mark := ⟨c, cs == [c]⟩

theorem coded?_toNat (c : Char) : coded? c.toNat = some ⟨c, false⟩ := by
  have valid : c.toNat.isValidChar := c.valid
  rw [coded?, if_pos valid, Char.ofNat_toNat]

theorem Written.run (h : Written kind c cs) :
    run (step kind) .text cs = some ([Mark.of c cs], .text) := by
  have opens : step kind .text '\\' = some ([], .escape) := rfl
  cases h with
  | self h =>
    rw [run_cons h]
    simp [Scanner.run, Mark.of]
  | @escape name h =>
    have ends : step kind .escape name = some ([⟨c, false⟩], .text) := by
      simp [step, escaped, lookup_escapes h]
    rw [run_next opens, run_cons ends]
    simp [Scanner.run, Mark.of]
  | @code letter width h other small =>
    have begins : step kind .escape letter = some ([], .code (width + 1) 0) := by
      simp [step, escaped, other, h]
    have ends : step kind (.code 1 (c.toNat / 16 % codes width)) (Text.hexDigit c.toNat)
        = some ([⟨c, false⟩], .text) := by
      have value : 16 * (c.toNat / 16 % codes width) + c.toNat % 16 = c.toNat := by
        rw [← mod_codes_succ, Nat.mod_eq_of_lt small]
      simp [step, hexValue?_hexDigit, value, coded?_toNat]
    rw [run_next opens, run_next begins, Text.hexPadded, run_append, run_hexPadded width 0,
      Nat.mul_zero, Nat.zero_add, Nat.zero_add, Option.bind_some, run_cons ends]
    simp [Scanner.run, Mark.of]

theorem any_isBreak_hexPadded (width n : Nat) :
    (Text.hexPadded width n).any isBreak = false := by
  have all : ∀ d : Fin 16, ¬ isBreak (Nat.digitChar d) := by decide
  refine List.any_eq_false.2 fun c mem => ?_
  obtain ⟨d, rfl⟩ := exists_digit_of_mem mem
  exact all d

theorem isBreak_of_plain (h : plain kind c = some (ms, .text)) : isBreak c = false := by
  unfold plain at h
  split_ifs at h with quote slash line
  · cases h
  · cases h
  · simp only [Bool.or_eq_true, not_or, Bool.not_eq_true] at line
    exact line.1

theorem isBreak_of_mem_escapes {e : Char × Char} (h : e ∈ escapes) : isBreak e.1 = false := by
  have all : escapes.all (fun e => !isBreak e.1) = true := by decide
  simpa using List.all_eq_true.1 all e h

theorem isBreak_of_codeWidth? {letter : Char} {width : Nat}
    (h : kind.codeWidth? letter = some width) : isBreak letter = false := by
  unfold Kind.codeWidth? at h
  split at h
  all_goals first | rfl | cases h

theorem Written.any_isBreak (h : Written kind c cs) : cs.any isBreak = false := by
  have backslash : isBreak '\\' = false := rfl
  cases h with
  | self h => simp [isBreak_of_plain h]
  | escape h => simp [backslash, isBreak_of_mem_escapes h]
  | code h => simp [backslash, isBreak_of_codeWidth? h, any_isBreak_hexPadded]

theorem any_isBreak_flatMap {α : Type} {as : List α} {char : α → Char} {write : α → List Char}
    (each : ∀ a ∈ as, Written kind (char a) (write a)) :
    (as.flatMap write).any isBreak = false := by
  induction as with
  | nil => rfl
  | cons a as ih =>
    have rest := ih fun b hb => each b (List.mem_cons_of_mem a hb)
    simp [(each a List.mem_cons_self).any_isBreak, rest]

open Text (escapeDoubleQuotes)

theorem escapeDoubleQuotes_flatMap {α : Type} (as : List α) (write : α → List Char) :
    escapeDoubleQuotes (as.flatMap write) = as.flatMap fun a => escapeDoubleQuotes (write a) :=
  List.flatMap_assoc

theorem escapeDoubleQuotes_cons (c : Char) (cs : List Char) :
    escapeDoubleQuotes (c :: cs)
      = (if c = '"' then ['\\', '"'] else [c]) ++ escapeDoubleQuotes cs := by
  simp [escapeDoubleQuotes]

theorem escapeDoubleQuotes_of_notMem (h : '"' ∉ cs) : escapeDoubleQuotes cs = cs := by
  induction cs with
  | nil => rfl
  | cons c cs ih =>
    have other : c ≠ '"' := fun same => h (same ▸ List.mem_cons_self)
    have rest : '"' ∉ cs := fun mem => h (List.mem_cons_of_mem c mem)
    rw [escapeDoubleQuotes_cons, if_neg other, ih rest, List.singleton_append]

theorem notMem_hexPadded (width n : Nat) : '"' ∉ Text.hexPadded width n := by
  have all : ∀ d : Fin 16, '"' ≠ Nat.digitChar d := by decide
  intro mem
  obtain ⟨d, same⟩ := exists_digit_of_mem mem
  exact all d same

/-- A character that is printed as itself, up to the backslash before a double quote. -/
theorem Written.printed (other : c ≠ '\\') (line : isBreak c = false)
    (ascii : kind = .bytes → c.toNat < 128) : Written kind c (escapeDoubleQuotes [c]) := by
  by_cases quote : c = '"'
  · subst quote
    exact .escape (by simp [escapes])
  · have known : plain kind c = some ([⟨c, true⟩], .text) := by
      simpa [plain, quote, other, line] using ascii
    rw [escapeDoubleQuotes_of_notMem (by simpa using Ne.symm quote)]
    exact .self known

theorem Written.printedCode {letter : Char} {width : Nat}
    (known : kind.codeWidth? letter = some (width + 1)) (other : escapes.lookup letter = none)
    (small : c.toNat < codes (width + 1)) :
    Written kind c
      (escapeDoubleQuotes ('\\' :: letter :: Text.hexPadded (width + 1) c.toNat)) := by
  have quote : '"' ≠ letter := by
    rintro rfl
    cases other
  have free : '"' ∉ '\\' :: letter :: Text.hexPadded (width + 1) c.toNat := by
    simp [quote, notMem_hexPadded]
  rw [escapeDoubleQuotes_of_notMem free]
  exact .code known other small

/-- The escapes that texts and byte strings have in common. The quote is cut off later, and so a
double quote must not be among the characters if it is the quote. -/
theorem Written.common {quote : Char} (either : quote = '"' ∨ quote = '\x27')
    (other : quote = '"' → c ≠ '"')
    (rest : c ≠ '\\' → c ≠ '\n' → c ≠ '\r' → c ≠ '\t' → Written kind c (escapeDoubleQuotes cs)) :
    Written kind c (escapeDoubleQuotes
      (if c = '\\' ∨ c = quote then ['\\', c]
      else if c = '\n' then ['\\', 'n']
      else if c = '\r' then ['\\', 'r']
      else if c = '\t' then ['\\', 't']
      else cs)) := by
  have named {name : Char} (known : (name, c) ∈ escapes) (free : '"' ≠ name) :
      Written kind c (escapeDoubleQuotes ['\\', name]) := by
    rw [escapeDoubleQuotes_of_notMem (by simp [free])]
    exact .escape known
  split_ifs with marked feed back tab
  · rcases marked with rfl | rfl
    · exact named (by simp [escapes]) (by decide)
    · rcases either with rfl | rfl
      · exact absurd rfl (other rfl)
      · exact named (by simp [escapes]) (by decide)
  · subst feed
    exact named (by simp [escapes]) (by decide)
  · subst back
    exact named (by simp [escapes]) (by decide)
  · subst tab
    exact named (by simp [escapes]) (by decide)
  · exact rest (fun h => marked (.inl h)) feed back tab

theorem isBreak_of_isPrintable (h : Text.isPrintable c) : isBreak c = false := by
  refine Bool.eq_false_iff.2 fun line => ?_
  have cases : (c = '\n' ∨ c = '\r') ∨ c = '\x00' := by simpa [isBreak] using line
  rcases cases with (rfl | rfl) | rfl
  all_goals exact absurd h (by decide)

theorem toNat_lt_codes (c : Char) : c.toNat < codes 8 := by
  have valid : c.toNat.isValidChar := c.valid
  have all : codes 8 = 0x100000000 := rfl
  unfold Nat.isValidChar at valid
  omega

theorem written_escapeChar {quote : Char} (either : quote = '"' ∨ quote = '\x27')
    (other : quote = '"' → c ≠ '"') :
    Written .text c (escapeDoubleQuotes (Text.escapeChar quote c)) := by
  simp only [Text.escapeChar, beq_iff_eq, Bool.or_eq_true]
  refine .common either other fun slash feed back tab => ?_
  split_ifs with shown short middle
  · exact .printed slash (isBreak_of_isPrintable shown) (by simp)
  · exact .printedCode rfl rfl short
  · exact .printedCode rfl rfl middle
  · exact .printedCode rfl rfl (toNat_lt_codes c)

theorem toNat_ofNat_byte (b : UInt8) : (Char.ofNat b.toNat).toNat = b.toNat := by
  have small : b.toNat < 256 := b.toNat_lt
  have valid : b.toNat.isValidChar := Or.inl (by omega)
  rw [Char.ofNat, dif_pos valid]
  rfl

theorem written_byteText {quote : Char} {b : UInt8} (either : quote = '"' ∨ quote = '\x27')
    (other : quote = '"' → Char.ofNat b.toNat ≠ '"') :
    Written .bytes (Char.ofNat b.toNat) (escapeDoubleQuotes (Bench.Value.byteText quote b)) := by
  have swap : (Char.ofNat b.toNat = quote ∨ Char.ofNat b.toNat = '\\')
      = (Char.ofNat b.toNat = '\\' ∨ Char.ofNat b.toNat = quote) := propext or_comm
  simp only [Bench.Value.byteText, Bool.or_eq_true, decide_eq_true_eq, swap]
  refine .common either other fun slash feed back tab => ?_
  have code := toNat_ofNat_byte b
  split_ifs with shown
  · have bounds : 32 ≤ b.toNat ∧ b.toNat < 127 := by simpa using shown
    have printable : Text.isPrintable (Char.ofNat b.toNat) := by
      simp [Text.isPrintable, code, bounds]
    exact .printed slash (isBreak_of_isPrintable printable) fun _ => by omega
  · have small : (Char.ofNat b.toNat).toNat < codes 2 := by
      rw [code]
      exact b.toNat_lt
    have written : Written .bytes (Char.ofNat b.toNat)
        (escapeDoubleQuotes ('\\' :: 'x' :: Text.hexPadded 2 (Char.ofNat b.toNat).toNat)) :=
      .printedCode rfl rfl small
    rwa [code] at written

/-- The quote around a text is double only if there is no double quote in it. -/
theorem quoteFor_cases (cs : List Char) :
    (Text.quoteFor cs = '"' ∨ Text.quoteFor cs = '\x27') ∧
      ∀ c ∈ cs, Text.quoteFor cs = '"' → c ≠ '"' := by
  unfold Text.quoteFor
  split_ifs with single
  · have none : '"' ∉ cs := by simp_all
    exact ⟨.inl rfl, fun c mem _ same => none (same ▸ mem)⟩
  · exact ⟨.inr rfl, fun _ _ same => absurd same (by decide)⟩

theorem written_of_mem (h : c ∈ cs) :
    Written .text c (escapeDoubleQuotes (Text.escapeChar (Text.quoteFor cs) c)) :=
  written_escapeChar (quoteFor_cases cs).1 ((quoteFor_cases cs).2 c h)

/-- The characters of a text, and for each of them whether it is printed as itself. -/
def marks (cs : List Char) : List Mark :=
  cs.map fun c => Mark.of c (escapeDoubleQuotes (Text.escapeChar (Text.quoteFor cs) c))

theorem map_char_marks (cs : List Char) : (marks cs).map Mark.char = cs := by
  simp [marks, Mark.of, Function.comp_def]

theorem run_quotedBody (cs : List Char) :
    run (step .text) .text (escapeDoubleQuotes (Text.quotedBody cs)) = some (marks cs, .text) := by
  rw [Text.quotedBody, escapeDoubleQuotes_flatMap]
  exact run_map fun c mem => (written_of_mem mem).run

theorem any_isBreak_quotedBody (cs : List Char) :
    (escapeDoubleQuotes (Text.quotedBody cs)).any isBreak = false := by
  rw [Text.quotedBody, escapeDoubleQuotes_flatMap]
  exact any_isBreak_flatMap fun c mem => written_of_mem mem

theorem text?_doubleQuoted (s : String) :
    text? (Text.doubleQuoted s) = some s ∧ (Text.doubleQuoted s).toList.any isBreak = false := by
  have known := read_closed (run_quotedBody s.toList)
  have shown : (Text.doubleQuoted s).toList
      = '"' :: (escapeDoubleQuotes (Text.quotedBody s.toList) ++ ['"']) := String.toList_ofList
  have quote : isBreak '"' = false := rfl
  refine ⟨?_, by simp [shown, any_isBreak_quotedBody, quote]⟩
  rw [text?, shown]
  simp [known, map_char_marks]

def bytesBody (bs : List UInt8) : String :=
  String.ofList (((Bench.Value.bytesText bs).toList.drop 2).dropLast)

theorem toList_bytesBody (bs : List UInt8) :
    (bytesBody bs).toList = bs.flatMap
      (Bench.Value.byteText (Text.quoteFor (bs.map fun b => Char.ofNat b.toNat))) := by
  simp [bytesBody, Bench.Value.bytesText, Text.quoteFor]

theorem written_of_mem_bytes {bs : List UInt8} {b : UInt8} (h : b ∈ bs) :
    Written .bytes (Char.ofNat b.toNat) (escapeDoubleQuotes
      (Bench.Value.byteText (Text.quoteFor (bs.map fun b => Char.ofNat b.toNat)) b)) :=
  have cases := quoteFor_cases (bs.map fun b => Char.ofNat b.toNat)
  written_byteText cases.1 (cases.2 _ (List.mem_map_of_mem h))

theorem bytes?_bytesLiteral (bs : List UInt8) :
    bytes? (SourceText.bytesLiteral (bytesBody bs)) = some bs ∧
      (SourceText.bytesLiteral (bytesBody bs)).toList.any isBreak = false := by
  have shown : (SourceText.bytesLiteral (bytesBody bs)).toList
      = 'b' :: '"' :: (escapeDoubleQuotes (bytesBody bs).toList ++ ['"']) := by
    simp [SourceText.bytesLiteral]
  have each : ∀ b ∈ bs, Written .bytes _ _ := fun b mem => written_of_mem_bytes mem
  rw [toList_bytesBody, escapeDoubleQuotes_flatMap] at shown
  have known := read_closed (run_map fun b mem => (each b mem).run)
  have values : bs.map (fun b => UInt8.ofNat (Char.ofNat b.toNat).toNat) = bs := by
    simp [toNat_ofNat_byte]
  have quote : isBreak '"' = false := rfl
  have letter : isBreak 'b' = false := rfl
  refine ⟨?_, by simp [shown, any_isBreak_flatMap each, quote, letter]⟩
  rw [bytes?, shown]
  simp only [known, Option.map_some, List.map_map, Function.comp_def, Mark.of, values]

end

end Literal

/-- The text of a string is a literal in double quotes, on one line, for this string, and the text
of a byte string is one for this byte string. -/
theorem literals_read_back :
    (∀ (i : Info) (s : String), ∃ text, Node.sourceText? ⟨i, .str s⟩ = some text ∧
      Literal.text? text = some s ∧ text.toList.any Literal.isBreak = false) ∧
    ∀ (i : Info) (bs : List UInt8), ∃ text,
      Node.sourceText? ⟨i, .bytes (Literal.bytesBody bs)⟩ = some text ∧
      Literal.bytes? text = some bs ∧ text.toList.any Literal.isBreak = false :=
  ⟨fun _ s => ⟨Text.doubleQuoted s, rfl, Literal.text?_doubleQuoted s⟩,
    fun _ bs => ⟨SourceText.bytesLiteral (Literal.bytesBody bs), rfl,
      Literal.bytes?_bytesLiteral bs⟩⟩

end IdiomLint
