import IdiomLint.Proofs.CommandLine
import Mathlib.Data.List.Basic
import Mathlib.Data.List.TakeWhile

/-! Which texts are read as whole numbers: blanks around an optional sign and groups of digits of
any script, each but the first behind an underscore. -/
namespace IdiomLint

namespace Text

inductive Sign where
  | plus | minus
deriving DecidableEq

def Sign.char : Sign → Char
  | plus => '+'
  | minus => '-'

def IsGroup (g : List Char) : Prop := g ≠ [] ∧ ∀ c ∈ g, isDigit c

instance : DecidablePred IsGroup := fun g =>
  decidable_of_iff ((!g.isEmpty && g.all isDigit) = true) (by simp [IsGroup])

/-- Groups of digits, each but the first behind an underscore. -/
def grouped (first : List Char) (others : List (List Char)) : List Char :=
  first ++ others.flatMap ('_' :: ·)

def valuesOf (cs : List Char) : List Nat := cs.filterMap digitValue?

/-- A text that is a whole number: groups of digits behind an optional sign, with blanks around. -/
structure NumberText where
  before : List Char
  sign : Option Sign
  first : List Char
  others : List (List Char)
  after : List Char
  blanks : ∀ c ∈ before ++ after, isNumberBlank c
  groups : ∀ g ∈ first :: others, IsGroup g
  few : (first ++ others.flatten).length ≤ maxDigits

namespace NumberText

def digits (t : NumberText) : List Char := t.first ++ t.others.flatten

def signed (t : NumberText) : List Char := (t.sign.map Sign.char).toList ++ grouped t.first t.others

def text (t : NumberText) : List Char := t.before ++ t.signed ++ t.after

def magnitude (t : NumberText) : Nat := digitsValue (valuesOf t.digits)

def value (t : NumberText) : Int := if t.sign = some .minus then -t.magnitude else t.magnitude

end NumberText

theorem isSome_digitValue? (c : Char) : (digitValue? c).isSome = isDigit c := by
  rw [digitValue?, Option.isSome_map, Bool.eq_iff_iff, List.find?_isSome]
  simp [isDigit, Ranges.has]

theorem exists_digitValue? {c : Char} (h : isDigit c) : ∃ d, digitValue? c = some d :=
  Option.isSome_iff_exists.1 ((isSome_digitValue? c).trans h)

/-- No digit is a blank. -/
theorem isBlank_of_isDigit {c : Char} (h : isDigit c) : isBlank c = false := by
  have apart : ∀ r ∈ digitRanges, ∀ b ∈ blankRanges, r.2 < b.1 ∨ b.2 < r.1 := by decide +kernel
  simp only [isDigit, Ranges.has, List.any_eq_true, Bool.and_eq_true, decide_eq_true_eq] at h
  obtain ⟨r, hr, low, high⟩ := h
  rw [isBlank, Ranges.has, List.any_eq_false]
  intro b hb
  have := apart r hr b hb
  simp only [Bool.and_eq_true, decide_eq_true_eq]
  omega

theorem isBlank_of_isNumberBlank {c : Char} (h : isNumberBlank c) : isBlank c :=
  (Bool.and_eq_true_iff.1 h).1

theorem isNumberBlank_of_not_isBlank {c : Char} (h : isBlank c = false) :
    isNumberBlank c = false := by
  simp [isNumberBlank, h]

theorem ne_of_isDigit {c d : Char} (h : isDigit c) (hd : isDigit d = false) : c ≠ d := by
  rintro rfl
  simp [h] at hd

theorem ne_underscore_of_isDigit {c : Char} (h : isDigit c) : c ≠ '_' :=
  ne_of_isDigit h (by decide)

section

variable {p : Char → Bool} {before core after : List Char}

theorem dropWhile_append_of_head? {rest : List Char} (hb : ∀ c ∈ before, p c)
    (head : ∀ c ∈ rest.head?, p c = false) : (before ++ rest).dropWhile p = rest := by
  rw [List.dropWhile_append_of_pos hb]
  cases rest with
  | nil => rfl
  | cons c cs => exact List.dropWhile_cons_of_neg (by simp [head c rfl])

theorem trimBy_append (blanks : ∀ c ∈ before ++ after, p c) (given : core ≠ [])
    (head : ∀ c ∈ core.head?, p c = false) (last : ∀ c ∈ core.getLast?, p c = false) :
    trimBy p (before ++ core ++ after) = core := by
  obtain ⟨hb, ha⟩ := List.forall_mem_append.1 blanks
  have start : trimStartBy p (before ++ core ++ after) = core ++ after := by
    rw [trimStartBy, List.append_assoc]
    apply dropWhile_append_of_head? hb
    rwa [List.head?_append, Option.or_of_isSome (by simpa using given)]
  rw [trimBy, start, trimEndBy, List.reverse_append, dropWhile_append_of_head?,
    List.reverse_reverse]
  · exact fun c hc => ha c (List.mem_reverse.1 hc)
  · rwa [List.head?_reverse]

theorem exists_trimBy (p : Char → Bool) (cs : List Char) :
    ∃ before after, (∀ c ∈ before ++ after, p c) ∧ cs = before ++ trimBy p cs ++ after := by
  let rest := (cs.dropWhile p).reverse
  refine ⟨cs.takeWhile p, (rest.takeWhile p).reverse, ?_, ?_⟩
  · intro c hc
    rcases List.mem_append.1 hc with hc | hc
    · exact List.mem_takeWhile_imp hc
    · exact List.mem_takeWhile_imp (List.mem_reverse.1 hc)
  · have ends : (rest.dropWhile p).reverse ++ (rest.takeWhile p).reverse = cs.dropWhile p := by
      rw [← List.reverse_append, List.takeWhile_append_dropWhile, List.reverse_reverse]
    rw [trimBy, trimEndBy, trimStartBy, List.append_assoc, ends, List.takeWhile_append_dropWhile]

end

theorem digitRun_cons {c : Char} {d : Nat} (hd : digitValue? c = some d) {cs : List Char}
    (joined : cs.head? ≠ some '_') :
    digitRun (c :: cs) = (d :: (digitRun cs).1, (digitRun cs).2) := by
  rw [digitRun.eq_def]
  split
  · rename_i h
    cases h
  · rename_i h
    cases h
    simp at joined
  · rename_i h
    cases h
    simp [hd]

theorem digitRun_cons_underscore {c : Char} {d : Nat} (hd : digitValue? c = some d)
    (cs : List Char) :
    digitRun (c :: '_' :: cs) =
      if (digitRun cs).1.isEmpty then ([d], '_' :: cs)
      else (d :: (digitRun cs).1, (digitRun cs).2) := by
  rw [digitRun]
  simp [hd]

theorem digitRun_cons_of_none {c : Char} (hc : digitValue? c = none) (cs : List Char) :
    digitRun (c :: cs) = ([], c :: cs) := by
  rw [digitRun.eq_def]
  split
  · rename_i h
    cases h
  · rename_i h
    cases h
    simp [hc]
  · rename_i h
    cases h
    simp [hc]

/-- Where no digit is read, nothing is. -/
theorem digitRun_of_fst_eq_nil {cs rest : List Char} (h : digitRun cs = ([], rest)) :
    rest = cs := by
  cases cs with
  | nil => exact (Prod.mk.inj h).2.symm
  | cons c cs =>
    cases hd : digitValue? c with
    | none => exact (Prod.mk.inj ((digitRun_cons_of_none hd cs).symm.trans h)).2.symm
    | some d =>
      by_cases joined : cs.head? = some '_'
      · obtain ⟨cs, rfl⟩ := List.head?_eq_some_iff.1 joined
        rw [digitRun_cons_underscore hd] at h
        split at h <;> cases h
      · rw [digitRun_cons hd joined] at h
        cases h

theorem valuesOf_cons {c : Char} {d : Nat} (hd : digitValue? c = some d) (cs : List Char) :
    valuesOf (c :: cs) = d :: valuesOf cs := List.filterMap_cons_some hd

theorem valuesOf_append (cs ds : List Char) : valuesOf (cs ++ ds) = valuesOf cs ++ valuesOf ds :=
  List.filterMap_append

theorem length_valuesOf {cs : List Char} (digits : ∀ c ∈ cs, isDigit c) :
    (valuesOf cs).length = cs.length := by
  induction cs with
  | nil => rfl
  | cons c cs ih =>
    obtain ⟨hc, digits⟩ := List.forall_mem_cons.1 digits
    obtain ⟨d, hd⟩ := exists_digitValue? hc
    rw [valuesOf_cons hd, List.length_cons, ih digits, List.length_cons]

theorem IsGroup.valuesOf_ne_nil {g : List Char} (h : IsGroup g) : valuesOf g ≠ [] := by
  obtain ⟨given, digits⟩ := h
  cases g with
  | nil => exact absurd rfl given
  | cons c cs =>
    obtain ⟨d, hd⟩ := exists_digitValue? (digits c List.mem_cons_self)
    rw [valuesOf_cons hd]
    exact List.cons_ne_nil _ _

theorem digitRun_append {g rest : List Char} (digits : ∀ c ∈ g, isDigit c)
    (joined : rest.head? ≠ some '_') :
    digitRun (g ++ rest) = (valuesOf g ++ (digitRun rest).1, (digitRun rest).2) := by
  induction g with
  | nil => rfl
  | cons c g ih =>
    obtain ⟨hc, digits⟩ := List.forall_mem_cons.1 digits
    obtain ⟨d, hd⟩ := exists_digitValue? hc
    have next : (g ++ rest).head? ≠ some '_' := by
      cases g with
      | nil => exact joined
      | cons e g =>
        simpa using ne_underscore_of_isDigit (digits e List.mem_cons_self)
    rw [List.cons_append, digitRun_cons hd next, ih digits, valuesOf_cons hd]
    rfl

theorem digitRun_append_underscore {g rest : List Char} (hg : IsGroup g)
    (more : (digitRun rest).1 ≠ []) :
    digitRun (g ++ '_' :: rest) = (valuesOf g ++ (digitRun rest).1, (digitRun rest).2) := by
  obtain ⟨given, digits⟩ := hg
  -- the last digit of the group is the one that stands before the underscore
  obtain ⟨front, c, rfl⟩ := (List.eq_nil_or_concat' g).resolve_left given
  obtain ⟨inFront, hc⟩ := List.forall_mem_append.1 digits
  rw [List.forall_mem_singleton] at hc
  obtain ⟨d, hd⟩ := exists_digitValue? hc
  have separate : (c :: '_' :: rest).head? ≠ some '_' := by
    simpa using ne_underscore_of_isDigit hc
  rw [List.append_assoc, List.singleton_append, digitRun_append inFront separate,
    digitRun_cons_underscore hd, if_neg (by simpa using more), valuesOf_append, valuesOf_cons hd]
  simp [valuesOf]

theorem grouped_cons (first g : List Char) (others : List (List Char)) :
    grouped first (g :: others) = first ++ '_' :: grouped g others := by
  simp [grouped]

/-- Groups of digits are read to the end. -/
theorem digitRun_grouped {first : List Char} {others : List (List Char)}
    (h : ∀ g ∈ first :: others, IsGroup g) :
    digitRun (grouped first others) = (valuesOf (first ++ others.flatten), []) := by
  induction others generalizing first with
  | nil =>
    have digits := (h first List.mem_cons_self).2
    have read := @digitRun_append first [] digits (by simp)
    simpa [grouped, digitRun] using read
  | cons g others ih =>
    obtain ⟨here, below⟩ := List.forall_mem_cons.1 h
    have read := ih below
    have more : (digitRun (grouped g others)).1 ≠ [] := by
      rw [read, valuesOf_append]
      exact List.append_ne_nil_of_left_ne_nil (below g List.mem_cons_self).valuesOf_ne_nil _
    rw [grouped_cons, digitRun_append_underscore here more, read, List.flatten_cons,
      valuesOf_append first]

/-- What is read to the end are groups of digits. -/
theorem exists_grouped_of_digitRun {cs : List Char} {ds : List Nat} (h : digitRun cs = (ds, []))
    (given : ds ≠ []) :
    ∃ first others, (∀ g ∈ first :: others, IsGroup g) ∧ cs = grouped first others := by
  have single {c : Char} {d : Nat} (hd : digitValue? c = some d) : IsGroup [c] := by
    refine ⟨List.cons_ne_nil _ _, List.forall_mem_singleton.2 ?_⟩
    rw [← isSome_digitValue?, hd]
    rfl
  fun_induction digitRun cs generalizing ds
  case case1 => exact absurd (Prod.mk.inj h).1.symm given
  case case2 c rest hc => cases h
  case case3 c rest d hd r empty ih => cases h
  case case4 c rest d hd r more ih =>
    have below : digitRun rest = (r.1, []) := Prod.ext rfl (Prod.mk.inj h).2
    obtain ⟨first, others, groups, same⟩ := ih below (by simpa using more)
    refine ⟨[c], first :: others, List.forall_mem_cons.2 ⟨single hd, groups⟩, ?_⟩
    rw [grouped_cons, ← same]
    rfl
  case case5 c rest separate hc => cases h
  case case6 c rest separate d hd r ih =>
    have below : digitRun rest = (r.1, []) := Prod.ext rfl (Prod.mk.inj h).2
    by_cases last : r.1 = []
    · rw [last] at below
      rw [← digitRun_of_fst_eq_nil below]
      exact ⟨[c], [], List.forall_mem_singleton.2 (single hd), rfl⟩
    · obtain ⟨first, others, groups, rfl⟩ := ih below last
      obtain ⟨here, behind⟩ := List.forall_mem_cons.1 groups
      have longer : IsGroup (c :: first) :=
        ⟨List.cons_ne_nil _ _,
          List.forall_mem_cons.2 ⟨(single hd).2 c List.mem_cons_self, here.2⟩⟩
      exact ⟨c :: first, others, List.forall_mem_cons.2 ⟨longer, behind⟩, rfl⟩

theorem readDigits_eq_ok_iff {text : String} {cs : List Char} {k : Nat} :
    readDigits text cs = .ok k ↔
      ∃ ds, digitRun cs = (ds, []) ∧ ds ≠ [] ∧ ds.length ≤ maxDigits ∧ digitsValue ds = k := by
  obtain ⟨ds, rest, run⟩ : ∃ ds rest, digitRun cs = (ds, rest) := ⟨_, _, rfl⟩
  have shown : readDigits text cs =
      if rest.head? == some '_' then .error (.malformed text)
      else if maxDigits < ds.length then .error (.tooManyDigits ds.length)
      else if ds.isEmpty || !rest.isEmpty then .error (.malformed text)
      else .ok (digitsValue ds) := by
    rw [readDigits, run]
  rw [shown]
  constructor
  · intro h
    split at h
    · cases h
    split at h
    · cases h
    split at h
    · cases h
    rename_i few whole
    simp only [Bool.or_eq_true, List.isEmpty_iff, Bool.not_eq_true', not_or] at whole
    obtain rfl : rest = [] := by simpa using whole.2
    exact ⟨ds, run, whole.1, by omega, Except.ok.inj h⟩
  · rintro ⟨ds', same, given, few, rfl⟩
    cases run.symm.trans same
    simp [given, Nat.not_lt.2 few]

theorem isDigit_of_groups {first : List Char} {others : List (List Char)}
    (h : ∀ g ∈ first :: others, IsGroup g) : ∀ c ∈ first ++ others.flatten, isDigit c := by
  intro c hc
  rw [← List.flatten_cons] at hc
  obtain ⟨g, hg, hc⟩ := List.mem_flatten.1 hc
  exact (h g hg).2 c hc

namespace NumberText

variable (t : NumberText)

theorem isDigit_digits : ∀ c ∈ t.digits, isDigit c := isDigit_of_groups t.groups

theorem isDigit_or_of_mem_grouped {c : Char} (hc : c ∈ grouped t.first t.others) :
    isDigit c ∨ c = '_' := by
  rcases List.mem_append.1 hc with hc | hc
  · exact .inl (t.isDigit_digits c (List.mem_append_left _ hc))
  · obtain ⟨g, hg, hc⟩ := List.mem_flatMap.1 hc
    rcases List.mem_cons.1 hc with rfl | hc
    · exact .inr rfl
    · exact .inl (t.isDigit_digits c (List.mem_append_right _ (List.mem_flatten.2 ⟨g, hg, hc⟩)))

theorem isBlank_of_mem_signed {c : Char} (hc : c ∈ t.signed) : isBlank c = false := by
  rcases List.mem_append.1 hc with hc | hc
  · obtain ⟨sign, -, rfl⟩ := Option.map_eq_some_iff.1 (Option.mem_toList.1 hc)
    cases sign <;> decide
  · rcases t.isDigit_or_of_mem_grouped hc with hc | rfl
    · exact isBlank_of_isDigit hc
    · decide

theorem signed_ne_nil : t.signed ≠ [] := by
  have given := (t.groups t.first List.mem_cons_self).1
  simp [signed, grouped, given]

/-- Trimming leaves the number with its sign. -/
theorem trimBy_text {p : Char → Bool} (blanks : ∀ c ∈ t.before ++ t.after, p c)
    (narrow : ∀ c, isBlank c = false → p c = false) : trimBy p t.text = t.signed := by
  apply trimBy_append blanks t.signed_ne_nil
  · exact fun c hc => narrow c (t.isBlank_of_mem_signed (List.mem_of_mem_head? hc))
  · exact fun c hc => narrow c (t.isBlank_of_mem_signed (List.mem_of_getLast? hc))

theorem readDigits_grouped (text : String) :
    readDigits text (grouped t.first t.others) = .ok t.magnitude := by
  have filled := (t.groups t.first List.mem_cons_self).valuesOf_ne_nil
  refine readDigits_eq_ok_iff.2 ⟨valuesOf t.digits, digitRun_grouped t.groups, ?_, ?_, rfl⟩
  · rw [digits, valuesOf_append]
    exact List.append_ne_nil_of_left_ne_nil filled _
  · exact (List.length_filterMap_le _ _).trans t.few

theorem readInt_text {s : String} (same : t.text = s.toList) : readInt s = .ok t.value := by
  have read := t.readDigits_grouped s
  rw [readInt, ← same,
    t.trimBy_text t.blanks fun c => isNumberBlank_of_not_isBlank, signed, value]
  cases t.sign with
  | some sign => cases sign <;> simp [Sign.char, read, Except.map]
  | none =>
    have unsigned {sign : Char} {cs : List Char} (h : grouped t.first t.others = sign :: cs) :
        isDigit sign ∨ sign = '_' :=
      t.isDigit_or_of_mem_grouped (h ▸ List.mem_cons_self)
    simp only [Option.map_none, Option.toList_none, List.nil_append]
    split
    · rename_i h
      exact absurd (unsigned h) (by decide)
    · rename_i h
      exact absurd (unsigned h) (by decide)
    · simp [read, Except.map]

end NumberText

theorem exists_numberText {s : String} (sign : Option Sign) {cs : List Char} {m : Nat}
    (core : trimBy isNumberBlank s.toList = (sign.map Sign.char).toList ++ cs)
    (read : readDigits s cs = .ok m) :
    ∃ t : NumberText, t.text = s.toList ∧ t.sign = sign ∧ t.magnitude = m := by
  obtain ⟨before, after, blanks, same⟩ := exists_trimBy isNumberBlank s.toList
  obtain ⟨ds, run, given, few, rfl⟩ := readDigits_eq_ok_iff.1 read
  obtain ⟨first, others, groups, rfl⟩ := exists_grouped_of_digitRun run given
  obtain rfl : valuesOf (first ++ others.flatten) = ds :=
    (Prod.mk.inj ((digitRun_grouped groups).symm.trans run)).1
  rw [length_valuesOf (isDigit_of_groups groups)] at few
  refine ⟨⟨before, sign, first, others, after, blanks, groups, few⟩, ?_, rfl, rfl⟩
  rw [same, core]
  rfl

/-- A text is read as a number exactly if it is the text of one. -/
theorem readInt_eq_ok_iff {s : String} {k : Int} :
    readInt s = .ok k ↔ ∃ t : NumberText, t.text = s.toList ∧ t.value = k := by
  constructor
  · intro h
    rw [readInt] at h
    split at h
    · rename_i cs core
      obtain ⟨_, read, rfl⟩ := map_eq_ok h
      obtain ⟨m, digits, ⟨⟩⟩ := bind_eq_ok read
      obtain ⟨t, same, sign, rfl⟩ := exists_numberText (some .minus) core digits
      exact ⟨t, same, by rw [NumberText.value, if_pos sign]⟩
    · rename_i cs core
      obtain ⟨_, read, rfl⟩ := map_eq_ok h
      obtain ⟨m, digits, ⟨⟩⟩ := bind_eq_ok read
      obtain ⟨t, same, sign, rfl⟩ := exists_numberText (some .plus) core digits
      exact ⟨t, same, by rw [NumberText.value, if_neg (by simp [sign])]⟩
    · obtain ⟨_, read, rfl⟩ := map_eq_ok h
      obtain ⟨m, digits, ⟨⟩⟩ := bind_eq_ok read
      obtain ⟨t, same, sign, rfl⟩ := exists_numberText none rfl digits
      exact ⟨t, same, by rw [NumberText.value, if_neg (by simp [sign])]⟩
  · rintro ⟨t, same, rfl⟩
    exact t.readInt_text same

end Text

end IdiomLint
