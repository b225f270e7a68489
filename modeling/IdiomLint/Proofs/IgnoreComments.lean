import IdiomLint.Output.Ignore
import IdiomLint.Proofs.JoinedSettings
import Mathlib.Data.List.Basic

/-! Comments that ask to ignore what is found on their line. The scan takes the first mark that
nothing follows but what may, and a quote behind a mark shows that it stands in a string. -/
namespace IdiomLint

namespace Text

/-- What stands between two neighbouring separators, or between a separator and an end. -/
def IsPiece {α : Type} (separates : α → Prop) (l piece : List α) : Prop :=
  ∃ before after, l = before ++ piece ++ after ∧ (∀ a ∈ piece, ¬ separates a)
    ∧ (∀ a ∈ before.getLast?, separates a) ∧ ∀ a ∈ after.head?, separates a

section

variable {α : Type} {separates : α → Prop} {l free rest piece : List α} {a : α}

theorem isPiece_append_cons (hfree : ∀ b ∈ free, ¬ separates b) (ha : separates a) :
    IsPiece separates (free ++ a :: rest) piece
      ↔ piece = free ∨ IsPiece separates rest piece := by
  constructor
  · rintro ⟨before, after, split, inside, left, right⟩
    rcases before.eq_nil_or_concat with rfl | ⟨front, b, rfl⟩
    · -- the piece starts with the list, and so does the part before the first separator
      left
      rcases List.append_eq_append_iff.1 split with ⟨more, rfl, starts⟩ | ⟨more, rfl, starts⟩
      · cases more with
        | nil => simp
        | cons b more => cases starts; exact absurd ha (inside a (by simp))
      · cases more with
        | nil => simp
        | cons b more =>
          subst starts
          exact absurd (right b rfl) (hfree b (by simp))
    · -- a separator stands before the piece, so the first one does
      right
      have hb : separates b := left b (by simp)
      rw [List.append_assoc] at split
      rcases List.append_eq_append_iff.1 split with ⟨more, ends, starts⟩ | ⟨more, rfl, -⟩
      · cases more with
        | nil =>
          rw [List.append_nil] at ends
          exact absurd hb (hfree b (ends ▸ by simp))
        | cons c more =>
          cases starts
          refine ⟨more, after, by simp, inside, fun c hc => ?_, right⟩
          apply left
          rw [ends, List.getLast?_append, List.getLast?_cons, Option.mem_def.1 hc]
          rfl
      · exact absurd hb (hfree b (by simp))
  · rintro (rfl | ⟨before, after, rfl, inside, left, right⟩)
    · exact ⟨[], a :: rest, rfl, hfree, by simp, by simpa using ha⟩
    · refine ⟨free ++ a :: before, after, by simp, inside, fun b hb => ?_, right⟩
      rw [List.getLast?_append, List.getLast?_cons] at hb
      cases last : before.getLast? with
      | none => simp_all
      | some c => exact left b (by simp_all)

theorem isPiece_of_free (hfree : ∀ b ∈ l, ¬ separates b) :
    IsPiece separates l piece ↔ piece = l := by
  constructor
  · rintro ⟨before, after, rfl, -, left, right⟩
    have noneBefore : before = [] := by
      rcases before.eq_nil_or_concat with rfl | ⟨front, b, rfl⟩
      · rfl
      · exact absurd (left b (by simp)) (hfree b (by simp))
    have noneAfter : after = [] := by
      cases after with
      | nil => rfl
      | cons b more => exact absurd (right b rfl) (hfree b (by simp))
    simp [noneBefore, noneAfter]
  · rintro rfl
    exact ⟨[], [], by simp, hfree, by simp, by simp⟩

/-- Separators in front only add empty pieces. -/
theorem isPiece_append_of_separates {between : List α} (hall : ∀ b ∈ between, separates b)
    (given : piece ≠ []) :
    IsPiece separates (between ++ rest) piece ↔ IsPiece separates rest piece := by
  induction between with
  | nil => rfl
  | cons b between ih =>
    obtain ⟨hb, hall⟩ := List.forall_mem_cons.1 hall
    have first : IsPiece separates ([] ++ b :: (between ++ rest)) piece
        ↔ piece = [] ∨ IsPiece separates (between ++ rest) piece :=
      isPiece_append_cons (by simp) hb
    rwa [or_iff_right given, ih hall] at first

/-- Replacing one separator by another changes no piece. -/
theorem isPiece_map {separates' : α → Prop} {f : α → α} (hf : ∀ b, separates' (f b) ↔ separates b)
    (kept : ∀ b, ¬ separates b → f b = b) :
    IsPiece separates' (l.map f) piece ↔ IsPiece separates l piece := by
  have unchanged {l : List α} (hl : ∀ b ∈ l, ¬ separates b) : l.map f = l := by
    simpa using List.map_congr_left fun b hb => kept b (hl b hb)
  constructor
  · rintro ⟨before, after, whole, inside, left, right⟩
    obtain ⟨front, after', rfl, inFront, rfl⟩ := List.map_eq_append_iff.1 whole
    obtain ⟨before', piece', rfl, rfl, rfl⟩ := List.map_eq_append_iff.1 inFront
    have inside' : ∀ b ∈ piece', ¬ separates b := fun b hb =>
      mt (hf b).2 (inside _ (List.mem_map_of_mem hb))
    rw [unchanged inside']
    refine ⟨before', after', rfl, inside', fun b hb => ?_, fun b hb => ?_⟩
    · exact (hf b).1 (left _ (by simp [Option.mem_def.1 hb]))
    · exact (hf b).1 (right _ (by simp [Option.mem_def.1 hb]))
  · rintro ⟨before, after, rfl, inside, left, right⟩
    refine ⟨before.map f, after.map f, by simp [unchanged inside], fun b hb => ?_, ?_, ?_⟩
    · rw [← kept b (inside b hb), hf]
      exact inside b hb
    · intro c hc
      obtain ⟨b, hb, rfl⟩ := Option.map_eq_some_iff.1 (List.getLast?_map ▸ hc)
      exact (hf b).2 (left b hb)
    · intro c hc
      obtain ⟨b, hb, rfl⟩ := Option.map_eq_some_iff.1 (List.head?_map ▸ hc)
      exact (hf b).2 (right b hb)

variable [BEq α] [LawfulBEq α]

theorem splitOn_append_cons {separator : α} (hfree : separator ∉ free) :
    splitOn separator (free ++ separator :: rest) = free :: splitOn separator rest := by
  induction free with
  | nil =>
    obtain ⟨piece, pieces, found, next⟩ := exists_splitOn_cons separator separator rest
    rw [List.nil_append, next, if_pos (beq_self_eq_true separator), found]
  | cons b free ih =>
    obtain ⟨other, hfree⟩ := not_or.1 (mt List.mem_cons.2 hfree)
    have unlike : (b == separator) = false := by simpa using Ne.symm other
    rw [List.cons_append, splitOn, ih hfree]
    simp [unlike]

theorem splitOn_of_not_mem {separator : α} (hfree : separator ∉ l) :
    splitOn separator l = [l] := by
  induction l with
  | nil => rfl
  | cons b l ih =>
    obtain ⟨other, hfree⟩ := not_or.1 (mt List.mem_cons.2 hfree)
    have unlike : (b == separator) = false := by simpa using Ne.symm other
    rw [splitOn, ih hfree]
    simp [unlike]

theorem mem_splitOn_iff {separator : α} :
    piece ∈ splitOn separator l ↔ IsPiece (· = separator) l piece := by
  -- one separator fewer in each step
  induction h : l.length using Nat.strongRecOn generalizing l with
  | _ n ih =>
    by_cases found : separator ∈ l
    · obtain ⟨free, rest, rfl, hfree⟩ := List.eq_append_cons_of_mem found
      have shorter : rest.length < n := by
        rw [← h]
        simp only [List.length_append, List.length_cons]
        omega
      rw [splitOn_append_cons hfree, List.mem_cons, ih _ shorter rfl,
        isPiece_append_cons (fun b hb => ne_of_mem_of_not_mem hb hfree) rfl]
    · rw [splitOn_of_not_mem found, List.mem_singleton,
        isPiece_of_free fun b hb => ne_of_mem_of_not_mem hb found]

end

theorem trimEndBy_append_cons {p : Char → Bool} {c : Char} (kept : p c = false)
    (before after : List Char) :
    trimEndBy p (before ++ c :: after) = before ++ c :: trimEndBy p after := by
  simp only [trimEndBy, List.reverse_append, List.reverse_cons, List.append_assoc,
    List.singleton_append, List.dropWhile_append]
  split
  · rename_i none
    simp [List.isEmpty_iff.1 none, kept]
  · simp

end Text

open Text

def DividesCodes (c : Char) : Prop := c = ',' ∨ c = ' '

instance : DecidablePred DividesCodes := fun c => inferInstanceAs (Decidable (c = ',' ∨ c = ' '))

def IsQuote (c : Char) : Prop := c = '\x27' ∨ c = '"'

instance : DecidablePred IsQuote := fun c => inferInstanceAs (Decidable (c = '\x27' ∨ c = '"'))

theorem mem_listedCodes_iff {text : List Char} {w : String} :
    w ∈ listedCodes text ↔ IsPiece DividesCodes text w.toList := by
  have blanked : IsPiece (· = ' ') (text.map fun c => if c = ',' then ' ' else c) w.toList
      ↔ IsPiece DividesCodes text w.toList := by
    refine isPiece_map (fun c => ?_) fun c hc => if_neg fun comma => hc (.inl comma)
    by_cases comma : c = ',' <;> simp [DividesCodes, comma]
  rw [← blanked, ← mem_splitOn_iff, listedCodes, List.mem_map]
  constructor
  · rintro ⟨piece, found, rfl⟩
    simpa using found
  · exact fun found => ⟨w.toList, found, String.ofList_toList⟩

namespace Code

/-- The series of a code holds nothing that divides codes or ends a string. -/
def IsListable (code : Code) : Prop := ∀ c ∈ code.series.toList, ¬ DividesCodes c ∧ ¬ IsQuote c

instance : DecidablePred IsListable := fun code =>
  decidable_of_iff (code.series.toList.all
    (fun c => !decide (DividesCodes c) && !decide (IsQuote c)) = true) (by simp [IsListable])

theorem toList_toText (code : Code) :
    code.toText.toList = code.series.toList ++ Nat.toDigits 10 code.number := by
  rw [toText, String.toList_append]
  exact congrArg _ Nat.toList_repr

theorem toText_ne_nil (code : Code) : code.toText.toList ≠ [] := by
  simp [toList_toText, Nat.toDigits_ne_nil]

theorem isDigit_of_mem_number {code : Code} {c : Char} (h : c ∈ Nat.toDigits 10 code.number) :
    c.isDigit = true :=
  Nat.isDigit_of_mem_toDigits (by decide) (by decide) h

theorem not_of_isDigit {c : Char} (h : c.isDigit = true) :
    ¬ DividesCodes c ∧ ¬ IsQuote c ∧ isBlank c = false := by
  have apart : ∀ d : Char, d.isDigit = false → c ≠ d := by
    rintro d other rfl
    rw [h] at other
    cases other
  refine ⟨?_, ?_, ?_⟩
  · rintro (same | same)
    · exact apart ',' (by decide) same
    · exact apart ' ' (by decide) same
  · rintro (same | same)
    · exact apart '\x27' (by decide) same
    · exact apart '"' (by decide) same
  · simp only [Char.isDigit, Bool.and_eq_true, decide_eq_true_eq, ge_iff_le, UInt32.le_iff_toNat_le]
      at h
    have low : 48 ≤ c.toNat := h.1
    have high : c.toNat ≤ 57 := h.2
    simp only [isBlank, Ranges.has, blankRanges, List.any_cons, List.any_nil, Bool.or_false,
      Bool.or_eq_false_iff, Bool.and_eq_false_iff, decide_eq_false_iff_not]
    omega

theorem IsListable.toText {code : Code} (h : code.IsListable) :
    ∀ c ∈ code.toText.toList, ¬ DividesCodes c ∧ ¬ IsQuote c := by
  intro c hc
  rw [toList_toText, List.mem_append] at hc
  rcases hc with hc | hc
  · exact h c hc
  · obtain ⟨divides, quote, -⟩ := not_of_isDigit (isDigit_of_mem_number hc)
    exact ⟨divides, quote⟩

/-- The text of a code ends with a digit, which no trimming takes away. -/
theorem exists_toText_eq_append (code : Code) :
    ∃ front c, code.toText.toList = front ++ [c] ∧ isBlank c = false := by
  have given : Nat.toDigits 10 code.number ≠ [] := Nat.toDigits_ne_nil
  refine ⟨code.series.toList ++ (Nat.toDigits 10 code.number).dropLast,
    (Nat.toDigits 10 code.number).getLast given, ?_, ?_⟩
  · rw [toList_toText, List.append_assoc, List.dropLast_concat_getLast]
  · exact (not_of_isDigit (isDigit_of_mem_number (List.getLast_mem given))).2.2

end Code

/-- Codes written in a row, with commas and spaces between each two. -/
inductive Listing : List Code → String → Prop where
  | none : Listing [] ""
  | one (code : Code) : Listing [code] code.toText
  | more {codes : List Code} {between rest : String} (code : Code) (apart : between ≠ "")
      (divides : ∀ c ∈ between.toList, DividesCodes c) (given : codes ≠ [])
      (listing : Listing codes rest) : Listing (code :: codes) (code.toText ++ between ++ rest)

namespace Listing

variable {codes : List Code} {list : String}

theorem isPiece_iff (h : Listing codes list) (listable : ∀ code ∈ codes, code.IsListable)
    (code : Code) : IsPiece DividesCodes list.toList code.toText.toList
      ↔ ∃ listed ∈ codes, listed.toText = code.toText := by
  induction h with
  | none => simpa [isPiece_of_free] using code.toText_ne_nil
  | one own =>
    have free := (listable own (by simp)).toText
    rw [isPiece_of_free fun c hc => (free c hc).1]
    simp [String.toList_inj, eq_comm]
  | @more codes between rest own apart divides given _ ih =>
    obtain ⟨own', others⟩ := List.forall_mem_cons.1 listable
    have free := own'.toText
    obtain ⟨c, more, starts⟩ := List.exists_cons_of_ne_nil (mt String.toList_eq_nil_iff.1 apart)
    rw [starts] at divides
    obtain ⟨hc, hmore⟩ := List.forall_mem_cons.1 divides
    have split : (own.toText ++ between ++ rest).toList
        = own.toText.toList ++ c :: (more ++ rest.toList) := by
      simp [String.toList_append, starts]
    rw [split, isPiece_append_cons (fun c hc => (free c hc).1) hc,
      isPiece_append_of_separates hmore code.toText_ne_nil, ih others]
    simp [String.toList_inj, eq_comm]

theorem not_isQuote (h : Listing codes list) (listable : ∀ code ∈ codes, code.IsListable) :
    ∀ c ∈ list.toList, ¬ IsQuote c := by
  induction h with
  | none => simp
  | one own => exact fun c hc => ((listable own (by simp)).toText c hc).2
  | more own _ divides _ _ ih =>
    obtain ⟨own', others⟩ := List.forall_mem_cons.1 listable
    intro c hc
    simp only [String.toList_append, List.mem_append] at hc
    rcases hc with (hc | hc) | hc
    · exact (own'.toText c hc).2
    · rcases divides c hc with rfl | rfl <;> simp [IsQuote]
    · exact ih others c hc

theorem exists_eq_append (h : Listing codes list) (given : codes ≠ []) :
    ∃ front c, list.toList = front ++ [c] ∧ isBlank c = false := by
  induction h with
  | none => exact absurd rfl given
  | one own => exact own.exists_toText_eq_append
  | @more codes between rest own _ _ others _ ih =>
    obtain ⟨front, c, ends, kept⟩ := ih others
    exact ⟨own.toText.toList ++ between.toList ++ front, c, by simp [String.toList_append, ends],
      kept⟩

end Listing

/-- What may follow a mark: nothing, or a colon, a space and text without quotes. -/
inductive FollowsMark : List Char → Prop where
  | nothing : FollowsMark []
  | codes {text : List Char} (unquoted : ∀ c ∈ text, ¬ IsQuote c) : FollowsMark (':' :: ' ' :: text)

theorem FollowsMark.not_isQuote {rest : List Char} (h : FollowsMark rest) :
    ∀ c ∈ rest, ¬ IsQuote c := by
  cases h with
  | nothing => simp
  | codes unquoted => simpa [IsQuote] using unquoted

/-- A mark in a line that only what may follow it follows. -/
structure MarkAt (line before rest : List Char) : Prop where
  split : line = before ++ ignoreMark ++ rest
  follows : FollowsMark rest

/-- No such mark stands further to the front. -/
structure FirstMark (line before rest : List Char) : Prop extends MarkAt line before rest where
  first : ∀ {before' rest'}, MarkAt line before' rest' → before.length ≤ before'.length

/-- A line asks to ignore a code: its first mark, blanks at the end of the line aside, is followed
by nothing or by a list of words that the code is among. -/
def AsksToIgnore (line : String) (code : Code) : Prop :=
  ∃ before rest, FirstMark (trimEnd line).toList before rest
    ∧ (rest = [] ∨ ∃ text, rest = ':' :: ' ' :: text
      ∧ IsPiece DividesCodes text code.toText.toList)

section

variable {line before rest : List Char}

theorem markedCodes?_codes {text : List Char} (unquoted : ∀ c ∈ text, ¬ IsQuote c) :
    markedCodes? (':' :: ' ' :: text) = some (some text) := by
  have shown : markedCodes? (':' :: ' ' :: text) =
      if text.all fun c => c != '\x27' && c != '"' then some (some text) else none := rfl
  rw [shown, if_pos]
  refine List.all_eq_true.2 fun c hc => ?_
  have other := unquoted c hc
  simp only [IsQuote, not_or] at other
  simp [other]

theorem isSome_markedCodes?_iff : (markedCodes? rest).isSome ↔ FollowsMark rest := by
  constructor
  · intro h
    unfold markedCodes? at h
    split at h
    · exact .nothing
    · rename_i text
      split at h
      · rename_i unquoted
        refine .codes fun c hc => ?_
        have other := List.all_eq_true.1 unquoted c hc
        simpa [IsQuote] using other
      · cases h
    · cases h
  · intro h
    cases h with
    | nothing => rfl
    | codes unquoted => rw [markedCodes?_codes unquoted]; rfl

theorem MarkAt.cons (c : Char) (h : MarkAt line before rest) :
    MarkAt (c :: line) (c :: before) rest :=
  ⟨by rw [h.split]; rfl, h.follows⟩

theorem ignoreComment?_cons (c : Char) (cs : List Char) :
    ignoreComment? (c :: cs) = (if ignoreMark.isPrefixOf (c :: cs)
      then markedCodes? ((c :: cs).drop ignoreMark.length) else none).or (ignoreComment? cs) := by
  rw [ignoreComment?]
  split <;> simp_all

/-- A mark at the start of a line is the first one. -/
theorem ignoreComment?_of_markAt_nil (h : MarkAt line [] rest) :
    ignoreComment? line = markedCodes? rest := by
  obtain ⟨codes, known⟩ := Option.isSome_iff_exists.1 (isSome_markedCodes?_iff.2 h.follows)
  have starts : line = '#' :: (" noqa".toList ++ rest) := h.split
  have found : ignoreMark.isPrefixOf line = true := by simp [h.split]
  have behind : line.drop ignoreMark.length = rest := by simp [h.split]
  rw [starts, ignoreComment?_cons, ← starts, found, behind, if_pos rfl, known, Option.some_or]

/-- Where no mark counts at the start of a line, the scan goes on behind its first character. -/
theorem ignoreComment?_of_not_markAt_nil {c : Char} {cs : List Char}
    (h : ∀ rest, ¬ MarkAt (c :: cs) [] rest) : ignoreComment? (c :: cs) = ignoreComment? cs := by
  rw [ignoreComment?_cons]
  split
  · rename_i starts
    obtain ⟨rest, split⟩ := List.isPrefixOf_iff_prefix.1 starts
    have behind : (c :: cs).drop ignoreMark.length = rest := by rw [← split, List.drop_left]
    have refused : ¬ FollowsMark rest := fun follows => h rest ⟨split.symm, follows⟩
    rw [behind, Option.not_isSome_iff_eq_none.1 (mt isSome_markedCodes?_iff.1 refused),
      Option.none_or]
  · rw [Option.none_or]

theorem ignoreComment?_of_firstMark (h : FirstMark line before rest) :
    ignoreComment? line = markedCodes? rest := by
  induction before generalizing line with
  | nil => exact ignoreComment?_of_markAt_nil h.toMarkAt
  | cons c before ih =>
    have split := h.split
    subst split
    have later : FirstMark (before ++ ignoreMark ++ rest) before rest :=
      ⟨⟨rfl, h.follows⟩, fun at_ => Nat.le_of_succ_le_succ (h.first (at_.cons c))⟩
    rw [← ih later]
    exact ignoreComment?_of_not_markAt_nil fun rest' at_ => absurd (h.first at_) (by simp)

theorem ignoreComment?_eq_none (h : ∀ before rest, ¬ MarkAt line before rest) :
    ignoreComment? line = none := by
  induction line with
  | nil => rfl
  | cons c cs ih =>
    rw [ignoreComment?_of_not_markAt_nil (h []), ih fun before rest at_ => h _ _ (at_.cons c)]

theorem exists_firstMark (h : MarkAt line before rest) :
    ∃ before rest, FirstMark line before rest := by
  -- the shortest part of the line that a mark stands behind
  induction n : before.length using Nat.strongRecOn generalizing before rest with
  | _ n ih =>
    by_cases earlier : ∃ before' rest', MarkAt line before' rest' ∧ before'.length < before.length
    · obtain ⟨before', rest', at_, shorter⟩ := earlier
      exact ih _ (n ▸ shorter) at_ rfl
    · exact ⟨before, rest, h, fun {before' rest'} at_ =>
        Nat.le_of_not_lt fun shorter => earlier ⟨before', rest', at_, shorter⟩⟩

end

theorem lineIgnores_of_firstMark {line : String} {before rest : List Char}
    (h : FirstMark (trimEnd line).toList before rest) (code : Code) :
    lineIgnores line code = true
      ↔ rest = [] ∨ ∃ text, rest = ':' :: ' ' :: text
        ∧ IsPiece DividesCodes text code.toText.toList := by
  unfold lineIgnores
  rw [ignoreComment?_of_firstMark h]
  cases h.follows with
  | nothing =>
    have bare : markedCodes? [] = some none := rfl
    simp [bare]
  | codes unquoted =>
    rw [markedCodes?_codes unquoted]
    simp [mem_listedCodes_iff]

theorem lineIgnores_of_unmarked {line : String}
    (h : ∀ before rest, ¬ MarkAt (trimEnd line).toList before rest) (code : Code) :
    lineIgnores line code = false := by
  unfold lineIgnores
  rw [ignoreComment?_eq_none h]

theorem lineIgnores_iff (line : String) (code : Code) :
    lineIgnores line code = true ↔ AsksToIgnore line code := by
  constructor
  · intro ignores
    by_cases marked : ∃ before rest, MarkAt (trimEnd line).toList before rest
    · obtain ⟨before, rest, at_⟩ := marked
      obtain ⟨before, rest, first⟩ := exists_firstMark at_
      exact ⟨before, rest, first, (lineIgnores_of_firstMark first code).1 ignores⟩
    · simp only [not_exists] at marked
      rw [lineIgnores_of_unmarked marked] at ignores
      cases ignores
  · rintro ⟨before, rest, first, asks⟩
    exact (lineIgnores_of_firstMark first code).2 asks

def HasMark (text : String) : Prop := ignoreMark <:+: text.toList

instance : DecidablePred HasMark := fun text =>
  inferInstanceAs (Decidable (ignoreMark <:+: text.toList))

section

variable {line before rest before' rest' : List Char}

/-- No mark starts within another one, so the first mark that is appended to a text without marks
is the first of all. -/
theorem length_le_of_unmarked (unmarked : ¬ ignoreMark <:+: before)
    (h : before ++ ignoreMark ++ rest = before' ++ ignoreMark ++ rest') :
    before.length ≤ before'.length := by
  rw [List.append_assoc, List.append_assoc] at h
  rcases List.append_eq_append_iff.1 h with ⟨more, rfl, -⟩ | ⟨more, rfl, starts⟩
  · simp
  · rcases List.append_eq_append_iff.1 starts with ⟨more', rfl, -⟩ | ⟨more', overlap, starts⟩
    · exact absurd ⟨before', more', by simp⟩ unmarked
    · -- what the two marks share starts with a number sign, which a mark has only once
      cases more with
      | nil => simp
      | cons c more =>
        have once : '#' ∉ ignoreMark.tail := by decide
        have tail : ignoreMark.tail = more ++ more' := by rw [overlap]; rfl
        cases more' with
        | nil => exact absurd ⟨before', [], by simp [overlap]⟩ unmarked
        | cons d more' =>
          have sign : d = '#' := (List.cons.inj starts).1.symm
          exact absurd (tail ▸ by simp [sign]) once

theorem firstMark_append (unmarked : ¬ ignoreMark <:+: before) (follows : FollowsMark rest) :
    FirstMark (before ++ ignoreMark ++ rest) before rest :=
  ⟨⟨rfl, follows⟩, fun at_ => length_le_of_unmarked unmarked at_.split⟩

/-- A colon alone may not follow a mark. -/
theorem not_markAt_append_colon (unmarked : ¬ ignoreMark <:+: before) :
    ¬ MarkAt (before ++ ignoreMark ++ [':']) before' rest := by
  rintro ⟨split, follows⟩
  obtain ⟨more, rfl⟩ : ∃ more, before' = before ++ more := by
    rw [List.append_assoc, List.append_assoc] at split
    exact List.prefix_of_prefix_length_le ⟨_, split⟩ ⟨_, rfl⟩
      (length_le_of_unmarked unmarked (by simpa using split)) |>.imp fun _ => Eq.symm
  rw [List.append_assoc, List.append_assoc, List.append_assoc, List.append_cancel_left_eq] at split
  cases more with
  | nil =>
    obtain rfl : [':'] = rest := List.append_cancel_left split
    cases follows
  | cons c more =>
    have behind : ignoreMark.tail ++ [':'] = more ++ (ignoreMark ++ rest) := (List.cons.inj split).2
    have sign : '#' ∈ ignoreMark.tail ++ [':'] := by
      rw [behind]
      exact List.mem_append_right _ (List.mem_append_left _ (by decide))
    exact absurd sign (by decide)

/-- What stands before a quote is no mark. -/
theorem markAt_append_quote {inside : List Char} {quote : Char} (hq : IsQuote quote) :
    MarkAt (inside ++ quote :: line) before rest
      ↔ ∃ before', before = inside ++ quote :: before' ∧ MarkAt line before' rest := by
  constructor
  · rintro ⟨split, follows⟩
    have noMark : quote ∉ ignoreMark := by rcases hq with rfl | rfl <;> decide
    rw [List.append_assoc] at split
    rcases List.append_eq_append_iff.1 split with ⟨more, rfl, starts⟩ | ⟨more, rfl, starts⟩
    · cases more with
      | nil =>
        have sign : quote = '#' := (List.cons.inj starts).1
        exact absurd (sign ▸ by decide) noMark
      | cons c more =>
        cases starts
        exact ⟨more, rfl, by simp, follows⟩
    · have found : quote ∈ ignoreMark ++ rest := starts ▸ by simp
      rcases List.mem_append.1 found with found | found
      · exact absurd found noMark
      · exact absurd hq (follows.not_isQuote quote found)
  · rintro ⟨before', rfl, at_⟩
    exact ⟨by simp [at_.split], at_.follows⟩

theorem firstMark_append_quote {inside : List Char} {quote : Char} (hq : IsQuote quote) :
    FirstMark (inside ++ quote :: line) before rest
      ↔ ∃ before', before = inside ++ quote :: before' ∧ FirstMark line before' rest := by
  constructor
  · intro h
    obtain ⟨before', rfl, at_⟩ := (markAt_append_quote hq).1 h.toMarkAt
    refine ⟨before', rfl, at_, fun other => ?_⟩
    have le := h.first ((markAt_append_quote hq).2 ⟨_, rfl, other⟩)
    simp only [List.length_append, List.length_cons] at le
    omega
  · rintro ⟨before', rfl, first⟩
    refine ⟨(markAt_append_quote hq).2 ⟨before', rfl, first.toMarkAt⟩, fun other => ?_⟩
    obtain ⟨before'', rfl, at_⟩ := (markAt_append_quote hq).1 other
    have le := first.first at_
    simp only [List.length_append, List.length_cons]
    omega

end

theorem toList_trimEnd (line : String) : (trimEnd line).toList = trimEndBy isBlank line.toList := by
  rw [trimEnd, String.toList_ofList]

theorem isBlank_of_isQuote {c : Char} (h : IsQuote c) : isBlank c = false := by
  rcases h with rfl | rfl <;> decide

/-- Of a line with a quote, only what stands behind it counts. -/
theorem asksToIgnore_append_quote (inside rest : String) {quote : Char} (hq : IsQuote quote)
    (code : Code) :
    AsksToIgnore (inside ++ String.singleton quote ++ rest) code ↔ AsksToIgnore rest code := by
  have trimmed : (trimEnd (inside ++ String.singleton quote ++ rest)).toList
      = inside.toList ++ quote :: (trimEnd rest).toList := by
    rw [toList_trimEnd, toList_trimEnd, ← trimEndBy_append_cons (isBlank_of_isQuote hq)]
    simp
  unfold AsksToIgnore
  simp only [trimmed, firstMark_append_quote hq]
  constructor
  · rintro ⟨_, rest, ⟨before, -, first⟩, asks⟩
    exact ⟨before, rest, first, asks⟩
  · rintro ⟨before, rest, first, asks⟩
    exact ⟨_, rest, ⟨before, rfl, first⟩, asks⟩

/-- A line without a mark asks for nothing. -/
theorem not_asksToIgnore {line : String} (unmarked : ¬ HasMark line) (code : Code) :
    ¬ AsksToIgnore line code := by
  rintro ⟨before, rest, first, -⟩
  obtain ⟨blanks, whole⟩ : (trimEnd line).toList <+: line.toList := by
    rw [toList_trimEnd, trimEndBy, ← List.reverse_suffix, List.reverse_reverse]
    exact List.dropWhile_suffix _
  exact unmarked ⟨before, rest ++ blanks, by rw [← whole, first.split, ← List.append_assoc]⟩

theorem ignoreMark_eq_append : ignoreMark = ['#', ' ', 'n', 'o', 'q'] ++ ['a'] := by decide

theorem toList_markedList : "# noqa: ".toList = ignoreMark ++ [':', ' '] := by decide

theorem lineIgnores_append_mark {before : String} (unmarked : ¬ HasMark before) (code : Code) :
    lineIgnores (before ++ "# noqa") code = true := by
  have trimmed : (trimEnd (before ++ "# noqa")).toList = before.toList ++ ignoreMark ++ [] := by
    have whole : (before ++ "# noqa").toList = before.toList ++ ignoreMark := String.toList_append
    rw [toList_trimEnd, whole, ignoreMark_eq_append, ← List.append_assoc,
      trimEndBy_append_cons (by decide), List.append_nil]
    rfl
  have first := firstMark_append unmarked .nothing
  rw [← trimmed] at first
  exact (lineIgnores_of_firstMark first code).2 (.inl rfl)

theorem lineIgnores_append_listing {before list : String} {codes : List Code}
    (unmarked : ¬ HasMark before) (listing : Listing codes list)
    (listable : ∀ code ∈ codes, code.IsListable) (code : Code) :
    lineIgnores (before ++ "# noqa: " ++ list) code = true
      ↔ ∃ listed ∈ codes, listed.toText = code.toText := by
  have whole : (before ++ "# noqa: " ++ list).toList
      = before.toList ++ ignoreMark ++ ':' :: ' ' :: list.toList := by
    rw [String.toList_append, String.toList_append, toList_markedList]
    simp only [List.append_assoc, List.cons_append, List.nil_append]
  by_cases none : codes = []
  · -- the space goes with the blanks, and a lone colon may not follow a mark
    subst none
    cases listing
    have trimmed : (trimEnd (before ++ "# noqa: " ++ "")).toList
        = before.toList ++ ignoreMark ++ [':'] := by
      rw [toList_trimEnd, whole, trimEndBy_append_cons (by decide)]
      rfl
    have ignoresNone : lineIgnores (before ++ "# noqa: " ++ "") code = false := by
      apply lineIgnores_of_unmarked
      intro before' rest
      rw [trimmed]
      exact not_markAt_append_colon unmarked
    simp only [ignoresNone, List.not_mem_nil, false_and, exists_false, Bool.false_eq_true]
  · obtain ⟨front, c, ends, kept⟩ := listing.exists_eq_append none
    have trimmed : (trimEnd (before ++ "# noqa: " ++ list)).toList
        = before.toList ++ ignoreMark ++ ':' :: ' ' :: list.toList := by
      have last : before.toList ++ ignoreMark ++ ':' :: ' ' :: list.toList
          = (before.toList ++ ignoreMark ++ ':' :: ' ' :: front) ++ [c] := by
        rw [ends, List.append_assoc _ (':' :: ' ' :: front)]
        rfl
      rw [toList_trimEnd, whole, last, trimEndBy_append_cons kept]
      rfl
    have first := firstMark_append unmarked (.codes (listing.not_isQuote listable))
    rw [← trimmed] at first
    rw [lineIgnores_of_firstMark first code, ← listing.isPiece_iff listable code]
    simp

/-- The line with a number, in the file of a name. -/
def SourceLine (fs : Files) (file : String) (number : Int) (line : String) : Prop :=
  ∃ text, fs.read (Path.ofText file) = .ok text ∧ numberedLine? (lines text) number = some line

theorem ignoredByComment_of_sourceLine {fs : Files} {r : Report} {file line : String}
    (here : SourceLine fs file r.finding.line line) :
    ignoredByComment fs r file = .ok (lineIgnores line r.code) := by
  obtain ⟨text, read, found⟩ := here
  unfold ignoredByComment
  rw [read]
  simp only [found]

/-- A report is ignored by a comment exactly if its line asks for it. In particular, a mark with a
list of codes behind a line without marks ignores the listed codes and no others, a bare mark all of
them, and a mark with a quote behind it counts for nothing. -/
theorem comment_ignores_iff {fs : Files} {r : Report} {file line : String}
    (here : SourceLine fs file r.finding.line line) :
    ∃ ignored, ignoredByComment fs r file = .ok ignored
      ∧ (ignored = true ↔ AsksToIgnore line r.code)
      ∧ (∀ before codes list, line = before ++ "# noqa: " ++ list → ¬ HasMark before →
          Listing codes list → (∀ code ∈ codes, code.IsListable) →
          (ignored = true ↔ ∃ listed ∈ codes, listed.toText = r.code.toText))
      ∧ (∀ before, line = before ++ "# noqa" → ¬ HasMark before → ignored = true)
      ∧ ∀ before inside quote after,
          line = before ++ "# noqa" ++ inside ++ String.singleton quote ++ after → IsQuote quote →
          (ignored = true ↔ AsksToIgnore after r.code) ∧ (¬ HasMark after → ignored = false) := by
  refine ⟨lineIgnores line r.code, ignoredByComment_of_sourceLine here, lineIgnores_iff line r.code,
    ?_, ?_, ?_⟩
  · rintro before codes list rfl unmarked listing listable
    exact lineIgnores_append_listing unmarked listing listable r.code
  · rintro before rfl unmarked
    exact lineIgnores_append_mark unmarked r.code
  · rintro before inside quote after rfl hq
    have behind := asksToIgnore_append_quote (before ++ "# noqa" ++ inside) after hq r.code
    rw [lineIgnores_iff, behind]
    refine ⟨Iff.rfl, fun unmarked => ?_⟩
    rw [← Bool.not_eq_true, lineIgnores_iff, behind]
    exact not_asksToIgnore unmarked r.code

theorem comment_ignores_iff_second :
    SourceLine (.single "d.py" "x = not not int(0)  # noqa: FURB114, FURB123\n") "d.py" 1
        "x = not not int(0)  # noqa: FURB114, FURB123"
      ∧ ignoredByComment (.single "d.py" "x = not not int(0)  # noqa: FURB114, FURB123\n")
        ⟨⟨"FURB", 123⟩, [], .startingAt 1 12 ""⟩ "d.py" = .ok true := by
  have here : SourceLine (.single "d.py" "x = not not int(0)  # noqa: FURB114, FURB123\n") "d.py" 1
      "x = not not int(0)  # noqa: FURB114, FURB123" := ⟨_, rfl, by decide +kernel⟩
  obtain ⟨ignored, found, -, listed, -⟩ :=
    comment_ignores_iff (r := ⟨⟨"FURB", 123⟩, [], .startingAt 1 12 ""⟩) here
  have listing : Listing [⟨"FURB", 114⟩, ⟨"FURB", 123⟩]
      (Code.toText ⟨"FURB", 114⟩ ++ ", " ++ Code.toText ⟨"FURB", 123⟩) :=
    .more _ (by decide) (by simp [DividesCodes]) (by decide) (.one _)
  have asked : ignored = true :=
    (listed "x = not not int(0)  " _ _ (by decide +kernel) (by decide +kernel) listing
      (by decide +kernel)).2 ⟨_, List.mem_cons_of_mem _ List.mem_cons_self, rfl⟩
  exact ⟨here, asked ▸ found⟩

end IdiomLint
