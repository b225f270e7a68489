import IdiomLint.Proofs.Outline
import IdiomLint.Syntax.Equivalence
import Mathlib.Logic.Relation

/-! String literals that are printed alike. An outline shows a literal in printable ASCII: it
doubles the backslash of every four-digit escape in the text, and writes all other characters as
escapes of four digits or more. So a character behind a backslash is printed like its own escape,
and a character with more than four digits like the one with the first of them in front of the
others. Two texts are printed alike exactly if such respellings lead from one to the other. -/
namespace IdiomLint

namespace Outline

def isShown (c : Char) : Bool := 32 ≤ c.toNat && c.toNat ≤ 126

def printed (cs : List Char) : List Char := (markEscapes cs).flatMap escapeOutside

/-- The digits of an escape that may stand in a text. -/
structure IsCode (digits : List Char) : Prop where
  length : digits.length = 4
  hex : ∀ d ∈ digits, isHexDigit d

/-- One spelling of a text for another: the escape for the character behind a backslash, or a
character with the first digits of a code in front of its other digits. -/
inductive Respelled : List Char → List Char → Prop where
  | escape (before after : List Char) {c : Char} (outside : isShown c = false) :
      Respelled (before ++ '\\' :: c :: after)
        (before ++ '\\' :: 'u' :: (codePoint c.toNat ++ after))
  | cut (before after : List Char) {c d : Char} {digits : List Char} (long : isShown c = false)
      (short : isShown d = false) (more : digits ≠ [])
      (codes : codePoint c.toNat = codePoint d.toNat ++ digits) :
      Respelled (before ++ c :: after) (before ++ d :: (digits ++ after))

def digitValue (c : Char) : Nat := if c.toNat < 97 then c.toNat - 48 else c.toNat - 87

def codeValue (start : Nat) (digits : List Char) : Nat :=
  digits.foldl (fun n c => 16 * n + digitValue c) start

theorem digitChar_facts (d : Nat) (h : d < 16) :
    digitValue d.digitChar = d ∧ isHexDigit d.digitChar = true := by
  revert d
  decide

theorem toDigits_facts (n : Nat) :
    codeValue 0 (Nat.toDigits 16 n) = n ∧ ∀ c ∈ Nat.toDigits 16 n, isHexDigit c := by
  rw [Nat.toDigits_eq_if (by decide)]
  split
  case isTrue small =>
    obtain ⟨value, hex⟩ := digitChar_facts n small
    rw [codeValue, List.foldl_cons, List.foldl_nil, value, List.forall_mem_singleton]
    exact ⟨by omega, hex⟩
  case isFalse large =>
    obtain ⟨value, hex⟩ := digitChar_facts (n % 16) (Nat.mod_lt n (by decide))
    obtain ⟨values, hexes⟩ := toDigits_facts (n / 16)
    rw [codeValue] at values
    rw [codeValue, List.foldl_append, values, List.foldl_cons, List.foldl_nil, value,
      List.forall_mem_append, List.forall_mem_singleton]
    exact ⟨by omega, hexes, hex⟩
termination_by n

theorem isHexDigit_of_mem_codePoint {n : Nat} {c : Char} (hc : c ∈ codePoint n) : isHexDigit c := by
  rcases List.mem_append.1 hc with hc | hc
  · rw [(List.mem_replicate.1 hc).2]
    decide
  · exact (toDigits_facts n).2 c hc

theorem four_le_length_codePoint (n : Nat) : 4 ≤ (codePoint n).length := by
  rw [codePoint, List.length_append, List.length_replicate]
  omega

theorem codeValue_codePoint (n : Nat) : codeValue 0 (codePoint n) = n := by
  have zeros (k : Nat) : codeValue 0 (List.replicate k '0') = 0 := by
    induction k with
    | zero => rfl
    | succ k ih => exact ih
  rw [codePoint, codeValue, List.foldl_append, ← codeValue, ← codeValue, zeros,
    (toDigits_facts n).1]

theorem codePoint_inj {m n : Nat} (h : codePoint m = codePoint n) : m = n := by
  rw [← codeValue_codePoint m, h, codeValue_codePoint]

/-- A code begins with one that may stand in a text. -/
theorem exists_isCode_codePoint (n : Nat) :
    ∃ digits more, codePoint n = digits ++ more ∧ IsCode digits := by
  refine ⟨(codePoint n).take 4, (codePoint n).drop 4, (List.take_append_drop 4 _).symm, ?_, ?_⟩
  · rw [List.length_take]
    have := four_le_length_codePoint n
    omega
  · exact fun d hd => isHexDigit_of_mem_codePoint (List.mem_of_mem_take hd)

/-- A character that can neither go on with nor end what stands before it. -/
def isFresh (c : Char) : Bool := c != 'u' && !isHexDigit c

theorem isVerbatim_of_isHexDigit {c : Char} (h : isHexDigit c) : isVerbatim c := by
  have ranges : 48 ≤ c.toNat ∧ c.toNat ≤ 57 ∨ 97 ≤ c.toNat ∧ c.toNat ≤ 102
      ∨ 65 ≤ c.toNat ∧ c.toNat ≤ 70 := by
    simpa [isHexDigit, Char.le_def, UInt32.le_iff_toNat_le, or_assoc] using h
  have other : c ≠ '\\' := by
    rintro rfl
    exact absurd ranges (by decide)
  simp only [isVerbatim, Bool.and_eq_true, decide_eq_true_eq, bne_iff_ne]
  exact ⟨by omega, other⟩

theorem isVerbatim_of_codePoint {n : Nat} {digits more : List Char}
    (codes : codePoint n = digits ++ more) : ∀ d ∈ more, isVerbatim d := fun _ hd =>
  isVerbatim_of_isHexDigit (isHexDigit_of_mem_codePoint (codes ▸ List.mem_append_right digits hd))

/-- Whether an escape stands at the start of a text. -/
def BeginsEscape (cs : List Char) : Prop :=
  ∃ digits rest, IsCode digits ∧ cs = '\\' :: 'u' :: (digits ++ rest)

/-- The three ways in which a text goes on. -/
inductive Begins : List Char → Prop where
  | escape {digits : List Char} (rest : List Char) (code : IsCode digits) :
      Begins ('\\' :: 'u' :: (digits ++ rest))
  | outside {c : Char} (rest : List Char) (outside : isShown c = false) : Begins (c :: rest)
  | shown {c : Char} (rest : List Char) (shown : isShown c) (single : ¬ BeginsEscape (c :: rest)) :
      Begins (c :: rest)

theorem begins (c : Char) (rest : List Char) : Begins (c :: rest) := by
  by_cases escape : BeginsEscape (c :: rest)
  · obtain ⟨digits, more, code, same⟩ := escape
    rw [same]
    exact .escape more code
  · cases known : isShown c with
    | true => exact .shown rest known escape
    | false => exact .outside rest known

theorem markEscapes_cons {c : Char} {rest : List Char} (single : ¬ BeginsEscape (c :: rest)) :
    markEscapes (c :: rest) = c :: markEscapes rest := by
  rw [markEscapes.eq_def]
  split
  case h_1 w x y z more same =>
    cases same
    split
    case isTrue hex =>
      simp only [Bool.and_eq_true] at hex
      refine absurd ⟨[w, x, y, z], more, ⟨rfl, ?_⟩, rfl⟩ single
      simpa [and_assoc] using hex
    case isFalse => rfl
  case h_2 same =>
    cases same
    rfl
  case h_3 same => cases same

theorem printed_outside {c : Char} (outside : isShown c = false) (rest : List Char) :
    printed (c :: rest) = '\\' :: 'u' :: (codePoint c.toNat ++ printed rest) := by
  have single : ¬ BeginsEscape (c :: rest) := by
    rintro ⟨digits, more, -, same⟩
    cases same
    exact absurd outside (by decide)
  have escaped : escapeOutside c = '\\' :: 'u' :: codePoint c.toNat :=
    if_neg (by simpa [isShown] using outside)
  rw [printed, markEscapes_cons single, List.flatMap_cons, escaped]
  rfl

theorem printed_shown {c : Char} {rest : List Char} (shown : isShown c)
    (single : ¬ BeginsEscape (c :: rest)) : printed (c :: rest) = c :: printed rest := by
  have kept : escapeOutside c = [c] := if_pos shown
  rw [printed, markEscapes_cons single, List.flatMap_cons, kept]
  rfl

theorem printed_escape {digits : List Char} (code : IsCode digits) (rest : List Char) :
    printed ('\\' :: 'u' :: (digits ++ rest))
      = '\\' :: '\\' :: 'u' :: (digits ++ printed rest) := by
  have verbatim := flatMap_escapeOutside_eq_self fun d hd =>
    isVerbatim_of_isHexDigit (code.hex d hd)
  have marked : markEscapes ('\\' :: 'u' :: (digits ++ rest))
      = ['\\', '\\', 'u'] ++ digits ++ markEscapes rest := by
    obtain ⟨length, hex⟩ := code
    rcases digits with _ | ⟨a, _ | ⟨b, _ | ⟨c, _ | ⟨d, _ | ⟨e, more⟩⟩⟩⟩⟩ <;> try cases length
    simp only [List.forall_mem_cons] at hex
    simp [markEscapes, hex]
  rw [printed, marked, List.flatMap_append, List.flatMap_append, verbatim]
  rfl

theorem printed_verbatim {cs : List Char} (verbatim : ∀ c ∈ cs, isVerbatim c) (rest : List Char) :
    printed (cs ++ rest) = cs ++ printed rest := by
  induction cs with
  | nil => rfl
  | cons c cs ih =>
    obtain ⟨first, others⟩ := List.forall_mem_cons.1 verbatim
    simp only [isVerbatim, Bool.and_eq_true, bne_iff_ne] at first
    have single : ¬ BeginsEscape (c :: (cs ++ rest)) := by
      rintro ⟨digits, more, -, same⟩
      exact first.2 (List.cons.inj same).1
    rw [List.cons_append, printed_shown (by simpa [isShown] using first.1) single, ih others,
      List.cons_append]

/-- What is printed from characters that are no backslash is these characters. -/
theorem exists_of_printed_eq {cs v rest : List Char} (verbatim : ∀ c ∈ cs, isVerbatim c)
    (h : printed v = cs ++ rest) : ∃ w, v = cs ++ w ∧ printed w = rest := by
  induction cs generalizing v with
  | nil => exact ⟨v, rfl, h⟩
  | cons c cs ih =>
    obtain ⟨first, others⟩ := List.forall_mem_cons.1 verbatim
    have other : c ≠ '\\' := by
      rintro rfl
      cases first
    cases v with
    | nil => cases h
    | cons d v =>
      rcases begins d v with ⟨more, code⟩ | ⟨_, outside⟩ | ⟨_, shown, single⟩
      · rw [printed_escape code] at h
        exact absurd (List.cons.inj h).1.symm other
      · rw [printed_outside outside] at h
        exact absurd (List.cons.inj h).1.symm other
      · rw [printed_shown shown single] at h
        obtain ⟨rfl, same⟩ := List.cons.inj h
        obtain ⟨w, rfl, printedRest⟩ := ih others same
        exact ⟨w, rfl, printedRest⟩

/-- An escape is printed behind a backslash only if it stands in the text. -/
theorem beginsEscape_of_printed {digits v rest : List Char} (code : IsCode digits)
    (h : printed v = 'u' :: (digits ++ rest)) : BeginsEscape ('\\' :: v) := by
  have verbatim : ∀ c ∈ 'u' :: digits, isVerbatim c :=
    List.forall_mem_cons.2 ⟨rfl, fun d hd => isVerbatim_of_isHexDigit (code.hex d hd)⟩
  obtain ⟨w, rfl, -⟩ := exists_of_printed_eq verbatim h
  exact ⟨digits, w, code, rfl⟩

theorem isFresh_of_outside {c : Char} (outside : isShown c = false) : isFresh c := by
  rw [isFresh, Bool.and_eq_true, bne_iff_ne, Bool.not_eq_true']
  constructor
  · rintro rfl
    cases outside
  · cases hex : isHexDigit c with
    | false => rfl
    | true =>
      have verbatim := isVerbatim_of_isHexDigit hex
      simp only [isVerbatim, Bool.and_eq_true] at verbatim
      simp [isShown, verbatim.1] at outside

theorem not_isFresh_of_mem {digits : List Char} {c : Char} (code : IsCode digits)
    (hc : c ∈ 'u' :: digits) : isFresh c = false := by
  rcases List.mem_cons.1 hc with rfl | hc
  · rfl
  · simp [isFresh, code.hex c hc]

/-- No escape goes on into a text that begins with a fresh character. -/
theorem BeginsEscape.of_append {a c : Char} {cs rest : List Char} (fresh : isFresh c)
    (h : BeginsEscape (a :: cs ++ c :: rest)) : BeginsEscape (a :: cs) := by
  obtain ⟨digits, more, code, same⟩ := h
  obtain ⟨rfl, parts⟩ := List.cons.inj same
  change cs ++ c :: rest = ('u' :: digits) ++ more at parts
  rcases List.append_eq_append_iff.1 parts with ⟨tail, whole, past⟩ | ⟨tail, rfl, -⟩
  · cases tail with
    | nil => exact ⟨digits, [], code, by simpa using whole.symm⟩
    | cons d tail =>
      obtain ⟨rfl, -⟩ := List.cons.inj past
      have inside : c ∈ 'u' :: digits := whole ▸ List.mem_append_right cs List.mem_cons_self
      rw [not_isFresh_of_mem code inside] at fresh
      cases fresh
  · exact ⟨digits, tail, code, rfl⟩

theorem printed_append {c : Char} (fresh : isFresh c) (before rest : List Char) :
    printed (before ++ c :: rest) = printed before ++ printed (c :: rest) := by
  cases before with
  | nil => rfl
  | cons a before =>
    rcases begins a before with ⟨tail, code⟩ | ⟨_, outside⟩ | ⟨_, shown, single⟩
    · have shorter := printed_append fresh tail rest
      rw [List.cons_append, List.cons_append, List.append_assoc, printed_escape code,
        printed_escape code, shorter]
      simp only [List.cons_append, List.append_assoc]
    · rw [List.cons_append, printed_outside outside, printed_outside outside,
        printed_append fresh before rest]
      simp only [List.cons_append, List.append_assoc]
    · have alone : ¬ BeginsEscape (a :: (before ++ c :: rest)) := fun h =>
        single (.of_append fresh h)
      rw [List.cons_append, printed_shown shown alone, printed_shown shown single,
        printed_append fresh before rest, List.cons_append]
termination_by before.length

theorem printed_eq_of_respelled {u v : List Char} (h : Respelled u v) : printed u = printed v := by
  cases h with
  | @escape before after c outside =>
    have single : ¬ BeginsEscape ('\\' :: c :: after) := by
      rintro ⟨digits, more, -, same⟩
      cases same
      cases outside
    obtain ⟨digits, more, codes, code⟩ := exists_isCode_codePoint c.toNat
    rw [printed_append (by decide), printed_append (by decide), printed_shown rfl single,
      printed_outside outside, codes, List.append_assoc, List.append_assoc, printed_escape code,
      printed_verbatim (isVerbatim_of_codePoint codes)]
  | @cut before after c d digits long short more codes =>
    rw [printed_append (isFresh_of_outside long), printed_append (isFresh_of_outside short),
      printed_outside long, printed_outside short,
      printed_verbatim (isVerbatim_of_codePoint codes), codes, List.append_assoc]

section

open Relation

variable {u v : List Char}

theorem Respelled.append_left (h : Respelled u v) (before : List Char) :
    Respelled (before ++ u) (before ++ v) := by
  cases h with
  | escape front after outside =>
    rw [← List.append_assoc, ← List.append_assoc]
    exact .escape (before ++ front) after outside
  | cut front after long short more codes =>
    rw [← List.append_assoc, ← List.append_assoc]
    exact .cut (before ++ front) after long short more codes

theorem eqvGen_append_left (h : EqvGen Respelled u v) (before : List Char) :
    EqvGen Respelled (before ++ u) (before ++ v) := by
  induction h with
  | rel u v h => exact .rel _ _ (h.append_left before)
  | refl u => exact .refl _
  | symm u v _ ih => exact .symm _ _ ih
  | trans u v w _ _ first second => exact .trans _ _ _ first second

theorem printed_ne_nil (c : Char) (cs : List Char) : printed (c :: cs) ≠ [] := by
  rcases begins c cs with ⟨rest, code⟩ | ⟨_, outside⟩ | ⟨_, shown, single⟩
  · simp [printed_escape code]
  · simp [printed_outside outside]
  · simp [printed_shown shown single]

/-- Shorter texts that are printed alike are known to be respelled. -/
def RespelledBelow (n : Nat) : Prop :=
  ∀ u v : List Char, u.length + v.length < n → printed u = printed v → EqvGen Respelled u v

/-- A character is printed like another one and what follows it. -/
theorem eqvGen_of_codes {c d : Char} {digits : List Char}
    (known : RespelledBelow ((c :: u).length + (d :: v).length)) (long : isShown c = false)
    (short : isShown d = false) (codes : codePoint c.toNat = codePoint d.toNat ++ digits)
    (same : printed v = digits ++ printed u) : EqvGen Respelled (c :: u) (d :: v) := by
  obtain ⟨w, rfl, alike⟩ := exists_of_printed_eq (isVerbatim_of_codePoint codes) same
  have rest : EqvGen Respelled u w := known u w (by simp; omega) alike.symm
  have respelled : EqvGen Respelled (c :: u) (d :: (digits ++ u)) := by
    by_cases more : digits = []
    · subst more
      rw [List.append_nil] at codes
      have equal : c = d := Char.toNat_inj.1 (codePoint_inj codes)
      rw [equal]
      exact .refl _
    · exact .rel _ _ (.cut [] u long short more codes)
  exact .trans _ _ _ respelled (eqvGen_append_left rest (d :: digits))

/-- A code that begins with a given one, in front of texts that are printed alike. -/
theorem exists_of_code {n : Nat} {digits : List Char} (code : IsCode digits)
    (same : digits ++ u = codePoint n ++ v) :
    ∃ more, codePoint n = digits ++ more ∧ u = more ++ v := by
  rcases List.append_eq_append_iff.1 same with ⟨more, codes, rest⟩ | ⟨more, codes, rest⟩
  · exact ⟨more, codes, rest⟩
  · have short : more = [] := by
      have length := congrArg List.length codes
      rw [List.length_append, code.length] at length
      have := four_le_length_codePoint n
      exact List.length_eq_zero_iff.1 (by omega)
    subst short
    exact ⟨[], by simpa using codes.symm, by simpa using rest.symm⟩

/-- An escape is printed like a backslash with the character behind it. -/
theorem eqvGen_of_escape {c : Char} {digits : List Char} (code : IsCode digits)
    (known : RespelledBelow (('\\' :: 'u' :: (digits ++ u)).length + (c :: v).length))
    (shown : isShown c) (single : ¬ BeginsEscape (c :: v))
    (same : printed ('\\' :: 'u' :: (digits ++ u)) = printed (c :: v)) :
    EqvGen Respelled ('\\' :: 'u' :: (digits ++ u)) (c :: v) := by
  rw [printed_escape code, printed_shown shown single] at same
  obtain ⟨rfl, inner⟩ := List.cons.inj same
  clear same
  cases v with
  | nil => cases inner
  | cons d w =>
    rcases begins d w with ⟨tail, other⟩ | ⟨_, outside⟩ | ⟨_, again, alone⟩
    · rw [printed_escape other] at inner
      exact absurd (List.cons.inj (List.cons.inj inner).2).1 (by decide)
    · rw [printed_outside outside] at inner
      obtain ⟨more, codes, behind⟩ := exists_of_code code (List.cons.inj (List.cons.inj inner).2).2
      obtain ⟨x, rfl, alike⟩ := exists_of_printed_eq (isVerbatim_of_codePoint codes) behind
      have rest : EqvGen Respelled x w := known x w (by simp; omega) alike
      have respelled : Respelled ('\\' :: d :: w) ('\\' :: 'u' :: (codePoint d.toNat ++ w)) :=
        .escape [] w outside
      rw [codes, List.append_assoc] at respelled
      refine .trans _ _ _ ?_ (.symm _ _ (.rel _ _ respelled))
      have longer := eqvGen_append_left rest ('\\' :: 'u' :: (digits ++ more))
      simpa only [List.cons_append, List.append_assoc] using longer
    · rw [printed_shown again alone] at inner
      obtain ⟨rfl, behind⟩ := List.cons.inj inner
      exact absurd (beginsEscape_of_printed code behind.symm) alone

/-- A backslash is never printed like a character outside of printable ASCII. -/
theorem printed_shown_ne_outside {c d : Char} (shown : isShown c)
    (single : ¬ BeginsEscape (c :: u)) (outside : isShown d = false) :
    printed (c :: u) ≠ printed (d :: v) := by
  intro same
  rw [printed_shown shown single, printed_outside outside] at same
  obtain ⟨rfl, behind⟩ := List.cons.inj same
  obtain ⟨digits, more, codes, code⟩ := exists_isCode_codePoint d.toNat
  rw [codes, List.append_assoc] at behind
  exact single (beginsEscape_of_printed code behind)

theorem eqvGen_of_printed_eq (u v : List Char) (same : printed u = printed v) :
    EqvGen Respelled u v := by
  have known : RespelledBelow (u.length + v.length) := fun u' v' _ alike =>
    eqvGen_of_printed_eq u' v' alike
  cases u with
  | nil =>
    cases v with
    | nil => exact .refl _
    | cons d v => exact absurd same.symm (printed_ne_nil d v)
  | cons c u =>
    cases v with
    | nil => exact absurd same (printed_ne_nil c u)
    | cons d v =>
      rcases begins c u with ⟨u, code⟩ | ⟨_, outside⟩ | ⟨_, shown, single⟩
      · rcases begins d v with ⟨v, code'⟩ | ⟨_, outside'⟩ | ⟨_, shown', single'⟩
        · rw [printed_escape code, printed_escape code'] at same
          have behind := (List.cons.inj (List.cons.inj (List.cons.inj same).2).2).2
          obtain ⟨rfl, alike⟩ := List.append_inj behind (code.length.trans code'.length.symm)
          have rest : EqvGen Respelled u v := known u v (by simp; omega) alike
          exact eqvGen_append_left rest ('\\' :: 'u' :: _)
        · rw [printed_escape code, printed_outside outside'] at same
          exact absurd (List.cons.inj (List.cons.inj same).2).1 (by decide)
        · exact eqvGen_of_escape code known shown' single' same
      · rcases begins d v with ⟨v, code'⟩ | ⟨_, outside'⟩ | ⟨_, shown', single'⟩
        · rw [printed_escape code', printed_outside outside] at same
          exact absurd (List.cons.inj (List.cons.inj same).2).1 (by decide)
        · rw [printed_outside outside, printed_outside outside'] at same
          have behind := (List.cons.inj (List.cons.inj same).2).2
          -- one code goes on where the other one ends
          rcases List.append_eq_append_iff.1 behind with ⟨more, codes, rest⟩ | ⟨more, codes, rest⟩
          · have swapped := Nat.add_comm _ _ ▸ known
            exact .symm _ _ (eqvGen_of_codes swapped outside' outside codes rest)
          · exact eqvGen_of_codes known outside outside' codes rest
        · exact absurd same.symm (printed_shown_ne_outside shown' single' outside)
      · rcases begins d v with ⟨v, code'⟩ | ⟨_, outside'⟩ | ⟨_, shown', single'⟩
        · have swapped := Nat.add_comm _ _ ▸ known
          exact .symm _ _ (eqvGen_of_escape code' swapped shown single same.symm)
        · exact absurd same (printed_shown_ne_outside shown single outside')
        · rw [printed_shown shown single, printed_shown shown' single'] at same
          obtain ⟨rfl, behind⟩ := List.cons.inj same
          exact eqvGen_append_left (known u v (by simp; omega) behind) [c]
termination_by u.length + v.length

theorem printed_eq_iff : printed u = printed v ↔ EqvGen Respelled u v := by
  refine ⟨eqvGen_of_printed_eq u v, fun h => ?_⟩
  induction h with
  | rel u v h => exact printed_eq_of_respelled h
  | refl u => rfl
  | symm u v _ ih => exact ih.symm
  | trans u v w _ _ first second => exact first.trans second

/-- A text that no respelling touches is no other's respelling. -/
theorem eq_of_eqvGen (h : EqvGen Respelled u v) :
    ((∀ w, ¬ Respelled u w ∧ ¬ Respelled w u) → u = v)
      ∧ ((∀ w, ¬ Respelled v w ∧ ¬ Respelled w v) → u = v) := by
  induction h with
  | rel u v h => exact ⟨fun alone => absurd h (alone v).1, fun alone => absurd h (alone u).2⟩
  | refl u => exact ⟨fun _ => rfl, fun _ => rfl⟩
  | symm u v _ ih => exact ⟨fun alone => (ih.2 alone).symm, fun alone => (ih.1 alone).symm⟩
  | trans u v w _ _ first second =>
    refine ⟨fun alone => ?_, fun alone => ?_⟩
    · obtain rfl := first.1 alone
      exact second.1 alone
    · obtain rfl := second.2 alone
      exact first.2 alone

/-- A respelling makes a text longer. -/
theorem Respelled.length_lt (h : Respelled u v) : u.length < v.length := by
  cases h with
  | @escape before after c outside =>
    have := four_le_length_codePoint c.toNat
    simp only [List.length_append, List.length_cons]
    omega
  | @cut before after c d digits long short more codes =>
    have := List.length_pos_iff.2 more
    simp only [List.length_append, List.length_cons]
    omega

end

end Outline

open Outline Relation

theorem equivalent_str_iff {i j : Info} {u v : String} :
    (⟨i, .str u⟩ : Node).equivalent ⟨j, .str v⟩ = true ↔ EqvGen Respelled u.toList v.toList := by
  have compared : (⟨i, .str u⟩ : Node).equivalent ⟨j, .str v⟩
      = ((⟨i, .str u⟩ : Node).outline == (⟨j, .str v⟩ : Node).outline) := rfl
  rw [compared, beq_iff_eq, outline_str, outline_str, enclosed_inj, ← printed_eq_iff]
  exact String.ofList_inj

/-- Two string literals are taken to be the same if and only if respellings lead from one to the
other. So a literal is taken for itself alone if and only if no respelling leads from it or to it. -/
theorem string_literals_same_iff (i : Info) (u : String) :
    (∀ (j : Info) (v : String), (⟨i, .str u⟩ : Node).equivalent ⟨j, .str v⟩ = true
      ↔ EqvGen Respelled u.toList v.toList) ∧
    ((∀ (j : Info) (v : String), (⟨i, .str u⟩ : Node).equivalent ⟨j, .str v⟩ = true → u = v)
      ↔ ∀ w, ¬ Respelled u.toList w ∧ ¬ Respelled w u.toList) := by
  refine ⟨fun j v => equivalent_str_iff, fun only w => ?_, fun alone j v same => ?_⟩
  · have other {w : List Char} (h : EqvGen Respelled u.toList w) : u.toList.length = w.length := by
      have same := only i (String.ofList w) (equivalent_str_iff.2 (by rwa [String.toList_ofList]))
      rw [same, String.toList_ofList]
    constructor
    · intro h
      have := other (.rel _ _ h)
      have := h.length_lt
      omega
    · intro h
      have := other (.symm _ _ (.rel _ _ h))
      have := h.length_lt
      omega
  · exact String.toList_inj.1 ((eq_of_eqvGen (equivalent_str_iff.1 same)).1 alone)

/-- An escape and the character itself behind a backslash, and a character with five digits and one
with four in front of the fifth, are taken to be the same. -/
theorem different_literals_taken_as_same :
    (⟨default, .str "\\\x01"⟩ : Node).equivalent ⟨default, .str "\\u0001"⟩ = true ∧
      "\\\x01" ≠ "\\u0001" ∧
      (⟨default, .str "😀"⟩ : Node).equivalent ⟨default, .str "\u1f600"⟩ = true ∧
      "😀" ≠ "\u1f600" := by
  have escape : Respelled "\\\x01".toList "\\u0001".toList := .escape [] [] (c := '\x01') rfl
  have cut : Respelled "😀".toList "\u1f600".toList :=
    .cut [] [] (c := '😀') (d := '\u1f60') rfl rfl (by decide) rfl
  exact ⟨equivalent_str_iff.2 (.rel _ _ escape), by decide, equivalent_str_iff.2 (.rel _ _ cut),
    by decide⟩

end IdiomLint
