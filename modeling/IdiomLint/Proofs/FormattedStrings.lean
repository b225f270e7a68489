import IdiomLint.Proofs.ExpressionText
import IdiomLint.Proofs.StringLiterals
import Mathlib.Data.List.Forall2

/-! Formatted strings read back. Within the quotes two braces stand for one, and a name in braces,
with or without a format, is a field. The text of a formatted string has the parts of the string
again only if there are no braces in its literal texts, as these are not doubled, and no line breaks
in its formats, as these are not escaped. -/
namespace IdiomLint

open Text (isWordChar)

namespace Formatted

open Literal (Mark)

def isBrace (c : Char) : Bool := c == '\x7b' || c == '\x7d'

/-- A part of a formatted string: literal text, or the value of a name in some format. -/
inductive Piece where
  | literal (text : String)
  | field (name spec : String)
deriving DecidableEq

namespace Piece

/-- A part in front of others. Adjacent literal texts become one, and an empty one is no part. -/
def before : Piece → List Piece → List Piece
  | literal s, literal t :: rest => literal (s ++ t) :: rest
  | literal s, rest => if s = "" then rest else literal s :: rest
  | p, rest => p :: rest

def text : Piece → String
  | literal s => SourceText.literalBody s
  | field name spec => SourceText.fieldText name spec

/-- The formats here have no braces, quotes or backslashes. -/
def isPlain : Piece → Bool
  | literal _ => true
  | field name spec =>
    isIdentifier name
      && spec.toList.all fun c => !isBrace c && c != '"' && c != '\x27' && c != '\\'

def chars : Piece → List Char
  | literal s => s.toList
  | field _ _ => []

def format : Piece → List Char
  | literal _ => []
  | field _ spec => spec.toList

/-- No braces in literal text, no line breaks in formats. -/
def isClean (p : Piece) : Bool := !p.chars.any isBrace && !p.format.any Literal.isBreak

end Piece

def merge (ps : List Piece) : List Piece := ps.foldr Piece.before []

/-- Where the reader is: in literal text, in a name, in a format, or behind a closing brace that
needs another one behind it. -/
inductive Mode where
  | text
  | name (read : List Char)
  | spec (name : String) (read : List Char)
  | shut
deriving DecidableEq

def own (c : Char) : Mark := ⟨c, true⟩

/-- Braces that come from an escape are literal text. -/
def step : Mode → Mark → Option (List Piece × Mode)
  | .text, m =>
    if m = own '\x7b' then some ([], .name [])
    else if m = own '\x7d' then some ([], .shut)
    else some ([.literal (String.ofList [m.char])], .text)
  | .name read, m =>
    if m.raw && isWordChar m.char then some ([], .name (read ++ [m.char]))
    else if m = own '\x7b' && read.isEmpty then
      some ([.literal (String.ofList ['\x7b'])], .text)
    else if !isIdentifier (String.ofList read) then none
    else if m = own ':' then some ([], .spec (String.ofList read) [])
    else if m = own '\x7d' then some ([.field (String.ofList read) ""], .text)
    else none
  | .spec name read, m =>
    if m = own '\x7d' then some ([.field name (String.ofList read)], .text)
    else if m = own '\x7b' then none
    else some ([], .spec name (read ++ [m.char]))
  | .shut, m =>
    if m = own '\x7d' then some ([.literal (String.ofList ['\x7d'])], .text) else none

def pieces? (marks : List Mark) : Option (List Piece) :=
  (Scanner.run step .text marks).bind fun r => if r.2 = .text then some (merge r.1) else none

/-- The parts of a formatted string in double quotes. -/
def parts? (literal : String) : Option (List Piece) :=
  match literal.toList with
  | 'f' :: '"' :: rest => (Literal.read .text rest).bind pieces?
  | _ => none

namespace Piece

def isField : Piece → Bool
  | literal _ => false
  | field _ _ => true

def spread : Piece → List Piece
  | literal s => s.toList.map fun c => literal (String.ofList [c])
  | field name spec => [field name spec]

theorem before_empty (ps : List Piece) : before (literal "") ps = ps := by
  cases ps with
  | nil => rfl
  | cons p rest =>
    cases p with
    | literal u => simp [before]
    | field name spec => rfl

/-- Literal text in front of literal text. -/
theorem before_before (s t : String) (ps : List Piece) :
    before (literal s) (before (literal t) ps) = before (literal (s ++ t)) ps := by
  cases ps with
  | nil => by_cases none : t = "" <;> simp [before, none]
  | cons p rest =>
    cases p with
    | literal u => simp [before, String.append_assoc]
    | field name spec => by_cases none : t = "" <;> simp [before, none]

theorem foldr_spread (p : Piece) (ps : List Piece) : p.spread.foldr before ps = before p ps := by
  cases p with
  | field name spec => rfl
  | literal s =>
    have all (cs : List Char) :
        (cs.map fun c => literal (String.ofList [c])).foldr before ps
          = before (literal (String.ofList cs)) ps := by
      induction cs with
      | nil => exact (before_empty ps).symm
      | cons c cs ih =>
        rw [List.map_cons, List.foldr_cons, ih, before_before, ← String.ofList_append,
          List.singleton_append]
    simpa [spread] using all s.toList

theorem flatMap_chars_before (p : Piece) (ps : List Piece) :
    (before p ps).flatMap chars = p.chars ++ ps.flatMap chars := by
  unfold before
  split
  · simp [chars]
  · split_ifs with none
    · simp [chars, none]
    · rfl
  · rfl

theorem countP_isField_before (p : Piece) (ps : List Piece) :
    (before p ps).countP isField = (p :: ps).countP isField := by
  unfold before
  split
  · simp [isField]
  · split_ifs with none
    · simp [isField]
    · rfl
  · rfl

end Piece

theorem merge_spread (ps : List Piece) : merge (ps.flatMap Piece.spread) = merge ps := by
  induction ps with
  | nil => rfl
  | cons p ps ih =>
    rw [List.flatMap_cons, merge, List.foldr_append, ← merge, ih, Piece.foldr_spread]
    rfl

/-- How many braces there are in literal text, and how many fields. -/
def weight (ps : List Piece) : Nat :=
  (ps.flatMap Piece.chars).countP isBrace + ps.countP Piece.isField

theorem weight_append (ps qs : List Piece) : weight (ps ++ qs) = weight ps + weight qs := by
  simp only [weight, List.flatMap_append, List.countP_append]
  omega

theorem weight_merge (ps : List Piece) : weight (merge ps) = weight ps := by
  induction ps with
  | nil => rfl
  | cons p ps ih =>
    have parts : weight (Piece.before p (merge ps)) = weight (p :: merge ps) := by
      rw [weight, weight, Piece.flatMap_chars_before, Piece.countP_isField_before,
        List.flatMap_cons]
    calc weight (merge (p :: ps)) = weight ([p] ++ merge ps) := parts
      _ = weight [p] + weight ps := by rw [weight_append, ih]
      _ = weight (p :: ps) := (weight_append [p] ps).symm

/-- Everything but literal text begins with a brace that has not been matched. -/
def Mode.pending : Mode → Nat
  | .text => 0
  | _ => 1

def braces (ms : List Mark) : Nat := (ms.map Mark.char).countP isBrace

theorem braces_append (ms ns : List Mark) : braces (ms ++ ns) = braces ms + braces ns := by
  rw [braces, List.map_append, List.countP_append, ← braces, ← braces]

theorem isBrace_iff {c : Char} : isBrace c ↔ c = '\x7b' ∨ c = '\x7d' := by simp [isBrace]

theorem isBrace_eq_false_iff {c : Char} : isBrace c = false ↔ c ≠ '\x7b' ∧ c ≠ '\x7d' := by
  simp [isBrace]

/-- The special characters are no part of names. -/
theorem ne_of_isWordChar {c d : Char} (word : isWordChar c) (other : isWordChar d = false) :
    c ≠ d := by
  rintro rfl
  rw [word] at other
  cases other

theorem not_isBrace_of_isWordChar {c : Char} (word : isWordChar c) : isBrace c = false :=
  isBrace_eq_false_iff.2 ⟨ne_of_isWordChar word (by decide), ne_of_isWordChar word (by decide)⟩

theorem not_isBrace {m : Mark} (raw : isBrace m.char → m.raw) (opens : m ≠ own '\x7b')
    (closes : m ≠ own '\x7d') : isBrace m.char = false := by
  refine Bool.eq_false_iff.2 fun brace => ?_
  obtain ⟨c, shown⟩ := m
  have itself : shown = true := raw brace
  subst itself
  rcases isBrace_iff.1 brace with rfl | rfl
  · exact opens rfl
  · exact closes rfl

/-- A literal brace and a field take two braces each. -/
theorem step_weight {s t : Mode} {m : Mark} {ps : List Piece} (raw : isBrace m.char → m.raw)
    (h : step s m = some (ps, t)) :
    braces [m] + s.pending = 2 * weight ps + t.pending := by
  have other (h : isBrace m.char = false) : braces [m] = 0 := by simp [braces, h]
  cases s with
  | text =>
    simp only [step] at h
    split_ifs at h with opens closes
    · subst opens
      cases h
      rfl
    · subst closes
      cases h
      rfl
    · have plain := not_isBrace raw opens closes
      cases h
      simp [other plain, weight, Piece.chars, Piece.isField, plain]
  | name read =>
    simp only [step] at h
    split_ifs at h with word opens unknown colon closes
    · obtain ⟨-, word⟩ := Bool.and_eq_true_iff.1 word
      cases h
      rw [other (not_isBrace_of_isWordChar word)]
      rfl
    · obtain ⟨opens, -⟩ := Bool.and_eq_true_iff.1 opens
      cases h
      rw [of_decide_eq_true opens]
      rfl
    · subst colon
      cases h
      rfl
    · subst closes
      cases h
      rfl
  | spec name read =>
    simp only [step] at h
    split_ifs at h with closes opens
    · subst closes
      cases h
      rfl
    · cases h
      rw [other (not_isBrace raw opens closes)]
      rfl
  | shut =>
    simp only [step] at h
    split_ifs at h with closes
    subst closes
    cases h
    rfl

theorem run_weight {s t : Mode} {ms : List Mark} {ps : List Piece}
    (raw : ∀ m ∈ ms, isBrace m.char → m.raw) (h : Scanner.run step s ms = some (ps, t)) :
    braces ms + s.pending = 2 * weight ps + t.pending := by
  induction ms generalizing s ps with
  | nil =>
    cases h
    rfl
  | cons m ms ih =>
    obtain ⟨⟨qs, u⟩, first, h⟩ := Option.bind_eq_some_iff.1 h
    obtain ⟨⟨rs, v⟩, rest, same⟩ := Option.map_eq_some_iff.1 h
    obtain ⟨rfl, rfl⟩ : qs ++ rs = ps ∧ v = t := Prod.mk.inj same
    have here := step_weight (raw m List.mem_cons_self) first
    have later : braces ms + u.pending = 2 * weight rs + v.pending :=
      ih (fun n mem => raw n (List.mem_cons_of_mem m mem)) rest
    rw [← List.singleton_append (l := ms), braces_append, weight_append]
    omega

section

open Scanner (run run_cons run_next run_stuck run_trans run_append run_flatMap)

variable {name spec : String} {cs : List Char} {ms : List Mark} {p : Piece} {ps : List Piece}

/-- Characters without escapes are read as they are, up to the end of the line. -/
theorem run_own (quotes : ∀ c ∈ cs, c ≠ '"' ∧ c ≠ '\\') :
    run (Literal.step .text) .text cs
      = if cs.any Literal.isBreak then none else some (cs.map own, .text) := by
  induction cs with
  | nil => rfl
  | cons c cs ih =>
    obtain ⟨⟨quote, slash⟩, rest⟩ := List.forall_mem_cons.1 quotes
    cases line : Literal.isBreak c with
    | true =>
      have stuck : Literal.step .text .text c = none := by
        simp [Literal.step, Literal.plain, quote, slash, line]
      simp [run_stuck stuck, line]
    | false =>
      have read : Literal.step .text .text c = some ([own c], .text) := by
        simp [Literal.step, Literal.plain, quote, slash, line, own]
      rw [run_cons read, ih rest, List.any_cons, line, Bool.false_or]
      split_ifs <;> rfl

/-- Literal text without braces. -/
theorem run_literal (plain : ∀ m ∈ ms, isBrace m.char = false) :
    run step .text ms = some (ms.map fun m => .literal (String.ofList [m.char]), .text) := by
  induction ms with
  | nil => rfl
  | cons m ms ih =>
    obtain ⟨here, rest⟩ := List.forall_mem_cons.1 plain
    have opens : m ≠ own '\x7b' := by
      rintro rfl
      cases here
    have closes : m ≠ own '\x7d' := by
      rintro rfl
      cases here
    have read : step .text m = some ([.literal (String.ofList [m.char])], .text) := by
      simp [step, opens, closes]
    rw [run_cons read, ih rest]
    rfl

/-- A mode that only collects characters. -/
theorem run_collecting {mode : List Char → Mode}
    (next : ∀ c ∈ cs, ∀ read, step (mode read) (own c) = some ([], mode (read ++ [c])))
    (read : List Char) : run step (mode read) (cs.map own) = some ([], mode (read ++ cs)) := by
  induction cs generalizing read with
  | nil => simp [run]
  | cons c cs ih =>
    obtain ⟨here, rest⟩ := List.forall_mem_cons.1 next
    rw [List.map_cons, run_next (here read), ih rest, List.append_assoc, List.singleton_append]

theorem run_name (word : ∀ c ∈ cs, isWordChar c) (read : List Char) :
    run step (.name read) (cs.map own) = some ([], .name (read ++ cs)) :=
  run_collecting (fun c hc _ => by simp [step, own, word c hc]) read

theorem run_spec (plain : ∀ c ∈ cs, isBrace c = false) (read : List Char) :
    run step (.spec name read) (cs.map own) = some ([], .spec name (read ++ cs)) := by
  refine run_collecting (fun c hc _ => ?_) read
  obtain ⟨opens, closes⟩ := isBrace_eq_false_iff.1 (plain c hc)
  simp [step, own, opens, closes]

theorem toList_fieldText (name spec : String) :
    (SourceText.fieldText name spec).toList = '\x7b' :: (name.toList
      ++ ((if spec = "" then [] else ':' :: spec.toList) ++ ['\x7d'])) := by
  by_cases none : spec = "" <;> simp [SourceText.fieldText, none]

theorem run_field (identifier : isIdentifier name) (plain : ∀ c ∈ spec.toList, isBrace c = false) :
    run step .text ((SourceText.fieldText name spec).toList.map own)
      = some ([.field name spec], .text) := by
  obtain ⟨-, word, -, -⟩ := Token.identifier identifier
  have opens : step .text (own '\x7b') = some ([], .name []) := rfl
  have read : run step (.name []) (name.toList.map own) = some ([], .name name.toList) :=
    run_name word []
  rw [toList_fieldText, List.map_cons, run_next opens, List.map_append]
  refine run_trans read ?_
  by_cases none : spec = ""
  · have brace : isWordChar '\x7d' = false := by decide
    have closes : step (.name name.toList) (own '\x7d') = some ([.field name ""], .text) := by
      simp [step, own, brace, identifier]
    rw [if_pos none, none]
    exact run_cons closes
  · have mark : isWordChar ':' = false := by decide
    have colon : step (.name name.toList) (own ':') = some ([], .spec name []) := by
      simp [step, own, mark, identifier]
    have format : run step (.spec name []) (spec.toList.map own)
        = some ([], .spec name spec.toList) := run_spec plain []
    have closes : step (.spec name spec.toList) (own '\x7d')
        = some ([.field name spec], .text) := by
      simp [step, own]
    rw [if_neg none, List.cons_append, List.map_cons, run_next colon, List.map_append]
    exact run_trans format (run_cons closes)

theorem mem_fieldText {c : Char} (mem : c ∈ (SourceText.fieldText name spec).toList) :
    c = '\x7b' ∨ c = '\x7d' ∨ c = ':' ∨ c ∈ name.toList ∨ c ∈ spec.toList := by
  rw [toList_fieldText] at mem
  split_ifs at mem <;> simp only [List.mem_cons, List.mem_append, List.not_mem_nil] at mem <;> tauto

namespace Piece

/-- The characters of a printed part, and which of them are written as themselves. -/
def marks : Piece → List Mark
  | literal s => Literal.marks s.toList
  | field name spec => (SourceText.fieldText name spec).toList.map own

theorem plain_field (plain : (field name spec).isPlain) :
    isIdentifier name ∧ ∀ c ∈ spec.toList, isBrace c = false ∧ c ≠ '"' ∧ c ≠ '\\' := by
  obtain ⟨identifier, format⟩ := Bool.and_eq_true_iff.1 plain
  refine ⟨identifier, fun c mem => ?_⟩
  have free := List.all_eq_true.1 format c mem
  simp only [Bool.and_eq_true, Bool.not_eq_true', bne_iff_ne] at free
  exact ⟨free.1.1.1, free.1.1.2, free.2⟩

theorem not_isBreak_of_isWordChar {c : Char} (word : isWordChar c) :
    Literal.isBreak c = false := by
  have feed := ne_of_isWordChar word (d := '\n') (by decide)
  have back := ne_of_isWordChar word (d := '\r') (by decide)
  have null := ne_of_isWordChar word (d := '\x00') (by decide)
  simp [Literal.isBreak, feed, back, null]

theorem any_isBreak_fieldText (identifier : isIdentifier name) :
    (SourceText.fieldText name spec).toList.any Literal.isBreak
      = spec.toList.any Literal.isBreak := by
  obtain ⟨-, word, -, -⟩ := Token.identifier identifier
  have free : name.toList.any Literal.isBreak = false :=
    List.any_eq_false.2 fun c mem => by simp [not_isBreak_of_isWordChar (word c mem)]
  have opens : Literal.isBreak '\x7b' = false := rfl
  have closes : Literal.isBreak '\x7d' = false := rfl
  have colon : Literal.isBreak ':' = false := rfl
  rw [toList_fieldText]
  by_cases none : spec = "" <;> simp [none, free, opens, closes, colon]

/-- A part is read character by character if its format is on one line. -/
theorem run_text (plain : p.isPlain) :
    run (Literal.step .text) .text p.text.toList
      = if p.format.any Literal.isBreak then none else some (p.marks, .text) := by
  cases p with
  | literal s =>
    rw [text, SourceText.literalBody, String.toList_ofList]
    exact Literal.run_quotedBody s.toList
  | field name spec =>
    obtain ⟨identifier, free⟩ := plain_field plain
    obtain ⟨-, word, -, -⟩ := Token.identifier identifier
    have quotes : ∀ c ∈ (SourceText.fieldText name spec).toList, c ≠ '"' ∧ c ≠ '\\' := by
      intro c mem
      rcases mem_fieldText mem with rfl | rfl | rfl | inName | inSpec
      · decide
      · decide
      · decide
      · have here := word c inName
        exact ⟨ne_of_isWordChar here (by decide), ne_of_isWordChar here (by decide)⟩
      · exact (free c inSpec).2
    rw [text, run_own quotes, any_isBreak_fieldText identifier]
    rfl

theorem run_marks (plain : p.isPlain) (clean : p.chars.any isBrace = false) :
    run step .text p.marks = some (p.spread, .text) := by
  cases p with
  | literal s =>
    have same := Literal.map_char_marks s.toList
    have each : ∀ m ∈ Literal.marks s.toList, isBrace m.char = false := by
      intro m mem
      have inText : m.char ∈ s.toList := same ▸ List.mem_map_of_mem mem
      exact Bool.eq_false_iff.2 (List.any_eq_false.1 clean m.char inText)
    have read := run_literal each
    have shown : (Literal.marks s.toList).map (fun m => literal (String.ofList [m.char]))
        = (literal s).spread := by
      rw [spread, ← same, List.map_map, same]
      rfl
    rwa [shown] at read
  | field name spec =>
    obtain ⟨identifier, free⟩ := plain_field plain
    exact run_field identifier fun c mem => (free c mem).1

/-- Braces are written as themselves. -/
theorem raw_of_mem_marks {m : Mark} (mem : m ∈ p.marks) (brace : isBrace m.char) : m.raw := by
  cases p with
  | literal s =>
    obtain ⟨c, -, rfl⟩ := List.mem_map.1 mem
    rcases (Literal.quoteFor_cases s.toList).1 with quote | quote
    all_goals
      rw [quote]
      rcases isBrace_iff.1 brace with rfl | rfl
      all_goals decide
  | field name spec =>
    obtain ⟨c, -, rfl⟩ := List.mem_map.1 mem
    rfl

theorem braces_fieldText (plain : (field name spec).isPlain) :
    (SourceText.fieldText name spec).toList.countP isBrace = 2 := by
  obtain ⟨identifier, free⟩ := plain_field plain
  obtain ⟨-, word, -, -⟩ := Token.identifier identifier
  have inName : name.toList.countP isBrace = 0 :=
    List.countP_eq_zero.2 fun c mem => by simp [not_isBrace_of_isWordChar (word c mem)]
  have inSpec : spec.toList.countP isBrace = 0 :=
    List.countP_eq_zero.2 fun c mem => by simp [(free c mem).1]
  have opens : isBrace '\x7b' = true := rfl
  have closes : isBrace '\x7d' = true := rfl
  have colon : isBrace ':' = false := rfl
  rw [toList_fieldText]
  split_ifs <;> simp [inName, inSpec, opens, closes, colon]

/-- A brace in literal text is written once, and the braces of a field are two. -/
theorem braces_marks (plain : p.isPlain) :
    braces p.marks = weight [p] + [p].countP isField := by
  cases p with
  | literal s =>
    rw [braces, marks, Literal.map_char_marks]
    simp [weight, chars, isField]
  | field name spec =>
    have same : (marks (field name spec)).map Mark.char
        = (SourceText.fieldText name spec).toList := by
      simp [marks, own, Function.comp_def]
    rw [braces, same, braces_fieldText plain]
    rfl

end Piece

def whole (ps : List Piece) : String := "f\"" ++ String.join (ps.map Piece.text) ++ "\""

theorem toList_whole (ps : List Piece) :
    (whole ps).toList = 'f' :: '"' :: (ps.flatMap (fun p => p.text.toList) ++ ['"']) := by
  simp [whole, String.toList_join, List.flatMap_map]

theorem run_texts (plain : ∀ p ∈ ps, p.isPlain) :
    run (Literal.step .text) .text (ps.flatMap fun p => p.text.toList)
      = if ps.any (fun p => p.format.any Literal.isBreak) then none
        else some (ps.flatMap Piece.marks, .text) := by
  induction ps with
  | nil => rfl
  | cons p ps ih =>
    obtain ⟨here, rest⟩ := List.forall_mem_cons.1 plain
    rw [List.flatMap_cons, run_append, Piece.run_text here, List.any_cons]
    cases p.format.any Literal.isBreak with
    | true => rfl
    | false =>
      rw [if_neg (by simp), Option.bind_some, ih rest, Bool.false_or]
      split_ifs <;> rfl

theorem braces_flatMap_marks (plain : ∀ p ∈ ps, p.isPlain) :
    braces (ps.flatMap Piece.marks) = weight ps + ps.countP Piece.isField := by
  induction ps with
  | nil => rfl
  | cons p ps ih =>
    obtain ⟨here, rest⟩ := List.forall_mem_cons.1 plain
    rw [List.flatMap_cons, braces_append, Piece.braces_marks here, ih rest,
      ← List.singleton_append (l := ps), weight_append, List.countP_append]
    omega

theorem read_texts (plain : ∀ p ∈ ps, p.isPlain) :
    Literal.read .text (ps.flatMap (fun p => p.text.toList) ++ ['"'])
      = if ps.any (fun p => p.format.any Literal.isBreak) then none
        else some (ps.flatMap Piece.marks) := by
  have known := run_texts plain
  split_ifs at known ⊢ with broken
  · rw [Literal.read, run_append, known]
    rfl
  · exact Literal.read_closed known

/-- Literal braces are read in pairs but were written once each. -/
theorem pieces?_marks_iff (plain : ∀ p ∈ ps, p.isPlain) :
    pieces? (ps.flatMap Piece.marks) = some (merge ps) ↔ ∀ p ∈ ps, p.chars.any isBrace = false := by
  constructor
  -- What was read weighs as much as what was printed, and every brace of literal text is counted
  -- twice when it is read but was printed once.
  · intro h
    obtain ⟨⟨qs, mode⟩, read, same⟩ := Option.bind_eq_some_iff.1 h
    obtain ⟨rfl, merged⟩ : mode = .text ∧ some (merge qs) = some (merge ps) :=
      Option.ite_none_right_eq_some.1 same
    have raw : ∀ m ∈ ps.flatMap Piece.marks, isBrace m.char → m.raw := by
      intro m mem brace
      obtain ⟨p, -, inPart⟩ := List.mem_flatMap.1 mem
      exact Piece.raw_of_mem_marks inPart brace
    have counted : braces (ps.flatMap Piece.marks) + 0 = 2 * weight qs + 0 := run_weight raw read
    have kept : weight qs = weight ps := by
      rw [← weight_merge qs, Option.some.inj merged, weight_merge]
    have written := braces_flatMap_marks plain
    have none : (ps.flatMap Piece.chars).countP isBrace = 0 := by
      unfold weight at *
      omega
    intro p mem
    refine List.any_eq_false.2 fun c inText => ?_
    exact List.countP_eq_zero.1 none c (List.mem_flatMap_of_mem mem inText)
  · intro clean
    have read := run_flatMap fun p mem => Piece.run_marks (plain p mem) (clean p mem)
    rw [pieces?, read, Option.bind_some, if_pos rfl, merge_spread]

/-- The text of a formatted string has its parts again if and only if the parts are clean. -/
theorem parts?_whole_iff (plain : ∀ p ∈ ps, p.isPlain) :
    parts? (whole ps) = some (merge ps) ↔ ∀ p ∈ ps, p.isClean := by
  have shown : parts? (whole ps)
      = (Literal.read .text (ps.flatMap (fun p => p.text.toList) ++ ['"'])).bind pieces? := by
    rw [parts?, toList_whole]
    rfl
  rw [shown, read_texts plain]
  split_ifs with broken
  · obtain ⟨p, mem, line⟩ := List.any_eq_true.1 broken
    constructor
    · intro h
      cases h
    · intro clean
      simpa [Piece.isClean, line] using clean p mem
  · have lines : ∀ p ∈ ps, p.format.any Literal.isBreak = false := by
      simpa using broken
    rw [Option.bind_some, pieces?_marks_iff plain]
    constructor
    · intro free p mem
      simp [Piece.isClean, free p mem, lines p mem]
    · intro clean p mem
      have here := clean p mem
      simp only [Piece.isClean, lines p mem, Bool.and_eq_true, Bool.not_eq_true'] at here
      exact here.1

end

end Formatted

namespace FormatPart

open SourceText Formatted

inductive Prints : FormatPart → Option String → Prop
  | literal {i : Info} {s : String} : Prints (.literal ⟨i, .str s⟩) (some (literalBody s))
  | field {value : Node} {spec : String} :
      Prints (.field value spec) ((strict? value).map (fieldText · spec))

/-- A part that is literal text or a field with a plain name. -/
inductive Is : FormatPart → Piece → Prop
  | literal {i : Info} {s : String} : Is (.literal ⟨i, .str s⟩) (.literal s)
  | field {i : Info} {ref : Ref} {binding} {spec : String} :
      Is (.field ⟨i, .name ref binding⟩ spec) (.field (unmangle ref.name) spec)

theorem eq_nil_iff {parts : List FormatPart} {texts : List (Option String)}
    (h : List.Forall₂ Prints parts texts) : parts = [] ↔ texts = [] := by
  cases h <;> simp

/-- Both fail, or the same fields are found and the parts are printed one by one. -/
def Agree (found : Option (Bool × List FormatPart))
    (printed : Option (Bool × List (Option String))) : Prop :=
  Option.Rel (fun r t => r.1 = t.1 ∧ List.Forall₂ Prints r.2 t.2) found printed

theorem Agree.map {found : Option (Bool × List FormatPart)}
    {printed : Option (Bool × List (Option String))} (h : Agree found printed)
    {f : Bool × List FormatPart → Bool × List FormatPart}
    {g : Bool × List (Option String) → Bool × List (Option String)}
    (each : ∀ r t, r.1 = t.1 → List.Forall₂ Prints r.2 t.2 →
      (f r).1 = (g t).1 ∧ List.Forall₂ Prints (f r).2 (g t).2) :
    Agree (found.map f) (printed.map g) := by
  cases h with
  | none => exact .none
  | some h => exact .some (each _ _ h.1 h.2)

theorem Agree.eq_none {printed : Option (Bool × List (Option String))}
    (h : Agree none printed) : printed = none := by
  cases h
  rfl

theorem Agree.exists_some {found : Bool} {parts : List FormatPart}
    {printed : Option (Bool × List (Option String))} (h : Agree (some (found, parts)) printed) :
    ∃ texts, printed = some (found, texts) ∧ List.Forall₂ Prints parts texts := by
  cases h with
  | @some _ t h =>
    obtain ⟨flag, texts⟩ := t
    obtain ⟨rfl, each⟩ := h
    exact ⟨texts, rfl, each⟩

section

variable {item : Node} {rest : List Node}

theorem ofItems_cons (other : ∀ i text, item ≠ ⟨i, .str text⟩) (given : ofNode item ≠ []) :
    ofItems (item :: rest) = (ofItems rest).map fun r => (true, ofNode item ++ r.2) := by
  rw [ofItems.eq_3 item rest other]
  split
  · contradiction
  · rfl

theorem itemPieces_call {i : Info} {callee : Node} {args : List (CallArg Node)}
    {analyzed : Option Node} (given : formatPieces callee args ≠ []) :
    itemPieces (⟨i, .call callee args analyzed⟩ :: rest)
      = (itemPieces rest).map fun r => (true, formatPieces callee args ++ r.2) := by
  rw [itemPieces]
  split
  · contradiction
  · rfl

theorem itemPieces_other (other : ∀ i text, item ≠ ⟨i, .str text⟩)
    (plain : ¬ ∃ i callee args analyzed, item = ⟨i, .call callee args analyzed⟩) :
    itemPieces (item :: rest) = none := by
  apply itemPieces.eq_4
  · simp
  · intro i text rest same
    exact other i text (List.cons.inj same).1
  · intro i callee args analyzed rest same
    exact plain ⟨i, callee, args, analyzed, (List.cons.inj same).1⟩

end

/-- The parts of a formatted string are printed one by one. -/
theorem prints_parts :
    (∀ n : Node, ∀ i callee args analyzed, n = ⟨i, .call callee args analyzed⟩ →
      List.Forall₂ Prints (ofNode n) (formatPieces callee args)) ∧
    (∀ (callee : Node) (args : List (CallArg Node)),
      List.Forall₂ Prints (ofCall callee args) (formatPieces callee args)) ∧
    ∀ items : List Node, Agree (ofItems items) (itemPieces items) := by
  apply ofNode.mutual_induct
  case case1 =>
    intro info callee args analyzed ih i callee' args' analyzed' same
    cases same
    exact ih
  case case2 =>
    intro n other i callee args analyzed same
    exact absurd same (other i callee args analyzed)
  case case3 => exact .some ⟨rfl, .nil⟩
  case case4 =>
    intro i text rest ih
    exact ih.map fun r t same each => ⟨same, .cons .literal each⟩
  case case5 =>
    intro item rest other empty ih
    rw [ofItems.eq_3 item rest other, empty]
    by_cases call : ∃ i callee args analyzed, item = ⟨i, .call callee args analyzed⟩
    · obtain ⟨i, callee, args, analyzed, rfl⟩ := call
      rw [itemPieces, (eq_nil_iff (ih i callee args analyzed rfl)).1 empty]
      exact .none
    · rw [itemPieces_other other call]
      exact .none
  case case6 =>
    intro item rest other given first ih
    have call : ∃ i callee args analyzed, item = ⟨i, .call callee args analyzed⟩ := by
      by_contra plain
      refine given (ofNode.eq_2 item fun i callee args analyzed same => ?_)
      exact plain ⟨i, callee, args, analyzed, same⟩
    obtain ⟨i, callee, args, analyzed, rfl⟩ := call
    have here := first i callee args analyzed rfl
    have printed : formatPieces callee args ≠ [] := fun h => given ((eq_nil_iff here).2 h)
    rw [ofItems_cons other given, itemPieces_call printed]
    exact ih.map fun r t _ each => ⟨rfl, List.rel_append here each⟩
  case case7 =>
    intro callee value name info spec name' template
    rw [ofCall, formatPieces, if_pos template, if_pos template]
    exact .cons .field .nil
  case case8 =>
    intro callee value name info spec name' template
    rw [ofCall, formatPieces, if_neg template, if_neg template]
    exact .nil
  case case9 =>
    intro callee info items name template parts known ih
    rw [known] at ih
    obtain ⟨texts, printed, each⟩ := ih.exists_some
    rw [ofCall, formatPieces, if_pos template, if_pos template, known, printed]
    exact each
  case case10 =>
    intro callee info items name template other ih
    rw [ofCall, formatPieces, if_pos template, if_pos template]
    cases known : ofItems items with
    | none =>
      rw [known] at ih
      rw [ih.eq_none]
      exact .nil
    | some r =>
      obtain ⟨found, parts⟩ := r
      rw [known] at ih
      obtain ⟨texts, printed, -⟩ := ih.exists_some
      cases found with
      | true => exact absurd known (other parts)
      | false =>
        rw [printed]
        exact .nil
  case case11 =>
    intro callee info items name template
    rw [ofCall, formatPieces, if_neg template, if_neg template]
    exact .nil
  case case12 =>
    intro args callee field join
    rw [ofCall.eq_3 callee args field join, formatPieces.eq_3 callee args field join]
    exact .nil

theorem Prints.eq_text {part : FormatPart} {piece : Piece} {text : Option String}
    (h : part.Is piece) (printed : Prints part text) : text = some piece.text := by
  cases h with
  | literal =>
    cases printed
    rfl
  | field =>
    cases printed
    rfl

theorem eq_texts {parts : List FormatPart} {pieces : List Piece} {texts : List (Option String)}
    (h : List.Forall₂ Is parts pieces) (printed : List.Forall₂ Prints parts texts) :
    texts = (pieces.map Piece.text).map some := by
  induction h generalizing texts with
  | nil =>
    cases printed
    rfl
  | cons first _ ih =>
    cases printed with
    | cons text rest => rw [text.eq_text first, ih rest, List.map_cons, List.map_cons]

theorem sequence_map_some (texts : List String) :
    SourceText.sequence (texts.map some) = some texts := by
  induction texts with
  | nil => rfl
  | cons text texts ih => rw [List.map_cons, SourceText.sequence, ih, Option.map_some]

/-- A formatted string always has a text. -/
theorem sourceText?_eq_whole {n : Node} {pieces : List Piece} (given : pieces ≠ [])
    (h : List.Forall₂ Is (ofNode n) pieces) : n.sourceText? = some (whole pieces) := by
  have found : ofNode n ≠ [] := by
    intro none
    rw [none] at h
    cases h
    exact given rfl
  have call : ∃ i callee args analyzed, n = ⟨i, .call callee args analyzed⟩ := by
    by_contra plain
    refine found (ofNode.eq_2 n fun i callee args analyzed same => ?_)
    exact plain ⟨i, callee, args, analyzed, same⟩
  obtain ⟨i, callee, args, analyzed, rfl⟩ := call
  have texts := eq_texts h (prints_parts.1 _ i callee args analyzed rfl)
  have printed : formatPieces callee args ≠ [] := by simpa [texts] using given
  rw [Node.sourceText?, strict?_formatted printed, texts, sequence_map_some]
  rfl

end FormatPart

/-- A formatted string with the given parts has a text. Read as a formatted string, this text has
the same parts if and only if there are no braces in literal text and no line breaks in formats. -/
theorem formatted_string_reads_back_iff {n : Node} {pieces : List Formatted.Piece}
    (given : pieces ≠ []) (parts : List.Forall₂ FormatPart.Is (FormatPart.ofNode n) pieces)
    (plain : ∀ p ∈ pieces, p.isPlain) :
    ∃ text, n.sourceText? = some text ∧
      (Formatted.parts? text = some (Formatted.merge pieces) ↔ ∀ p ∈ pieces, p.isClean) :=
  ⟨Formatted.whole pieces, FormatPart.sourceText?_eq_whole given parts,
    Formatted.parts?_whole_iff plain⟩

def joinedAt (i : Info) (items : List Node) : Node :=
  ⟨i, .call ⟨i, .member ⟨i, .str ""⟩ ⟨"join", "", none, false⟩⟩
    [⟨⟨i, .list items⟩, .pos, none⟩] none⟩

def fieldAt (i : Info) (value : Node) (spec : String) : Node :=
  ⟨i, .call ⟨i, .member ⟨i, .str "\x7b:\x7b\x7d\x7d"⟩ ⟨"format", "", none, false⟩⟩
    [⟨value, .pos, none⟩, ⟨⟨i, .str spec⟩, .pos, none⟩] none⟩

/-- A formatted string in another one. The second name has the mark of a redefined variable. -/
def greetingAt (i : Info) : Node :=
  joinedAt i [⟨i, .str "say \""⟩, fieldAt i (Node.nameAt i "a") "",
    joinedAt i [⟨i, .str "\""⟩, ⟨i, .str ", "⟩, fieldAt i (Node.nameAt i "b'") ">3"]]

def greeting : List Formatted.Piece :=
  [.literal "say \"", .field "a" "", .literal "\"", .literal ", ", .field "b" ">3"]

theorem is_greeting (i : Info) :
    List.Forall₂ FormatPart.Is (FormatPart.ofNode (greetingAt i)) greeting := by
  have first : unmangle "a" = "a" := by decide +kernel
  have second : unmangle "b'" = "b" := by decide +kernel
  have parts : FormatPart.ofNode (greetingAt i)
      = [.literal ⟨i, .str "say \""⟩, .field (Node.nameAt i "a") "", .literal ⟨i, .str "\""⟩,
        .literal ⟨i, .str ", "⟩, .field (Node.nameAt i "b'") ">3"] := rfl
  rw [parts, greeting, ← first, ← second]
  exact .cons .literal (.cons .field (.cons .literal (.cons .literal (.cons .field .nil))))

theorem formatted_string_reads_back_iff_nested :
    ∃ text, (greetingAt Node.firstLine).sourceText? = some text ∧ Formatted.parts? text
      = some [.literal "say \"", .field "a" "", .literal "\", ", .field "b" ">3"] := by
  obtain ⟨text, known, reads⟩ := formatted_string_reads_back_iff (by decide)
    (is_greeting Node.firstLine) (by decide +kernel)
  have merged : Formatted.merge greeting
      = [.literal "say \"", .field "a" "", .literal "\", ", .field "b" ">3"] := by decide +kernel
  exact ⟨text, known, merged ▸ reads.2 (by decide +kernel)⟩

/-- The text `{x}` and the field `y`. -/
def bracedAt (i : Info) : Node :=
  joinedAt i [⟨i, .str "\x7bx\x7d"⟩, fieldAt i (Node.nameAt i "y") ""]

/-- Braces in literal text are not doubled, so that it can become a field. -/
theorem literal_braces_become_field :
    FormatPart.ofNode (bracedAt Node.firstLine)
      = [.literal ⟨Node.firstLine, .str "\x7bx\x7d"⟩, .field (Node.nameAt Node.firstLine "y") ""] ∧
    (bracedAt Node.firstLine).sourceText? = some "f\"\x7bx\x7d\x7by\x7d\"" ∧
    Formatted.parts? "f\"\x7bx\x7d\x7by\x7d\"" = some [.field "x" "", .field "y" ""] := by
  have text : (bracedAt Node.firstLine).sourceText? = some "f\"\x7bx\x7d\x7by\x7d\"" := by
    decide +kernel
  have parts : Formatted.parts? "f\"\x7bx\x7d\x7by\x7d\""
      = some [.field "x" "", .field "y" ""] := by
    decide +kernel
  exact ⟨rfl, text, parts⟩

end IdiomLint
