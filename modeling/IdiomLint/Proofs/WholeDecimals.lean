import IdiomLint.Proofs.NumberTexts
import IdiomLint.Rules.Numbers

/-! Decimals made from text. A text that is read as a whole number is suggested as a number literal:
without blanks, without its plus and, unless it is zero, without the zeros in front. What is
suggested is a literal of the same value or no literal at all. It is none if a digit is of another
script, if zeros stand between a minus and the number, and if only zeros stand before the first
underscore. -/
namespace IdiomLint

namespace Text

def digitIn? (base : Nat) (c : Char) : Option Nat :=
  let digit? :=
    if c.isDigit then some (c.toNat - 48)
    else if 97 ≤ c.toNat ∧ c.toNat ≤ 102 then some (c.toNat - 87)
    else if 65 ≤ c.toNat ∧ c.toNat ≤ 70 then some (c.toNat - 55)
    else none
  digit?.filter (· < base)

/-- Digits of a base, with or without an underscore in front of each. -/
def digitsIn? (base : Nat) : List Char → Option (List Nat)
  | [] => some []
  | '_' :: c :: rest => (digitIn? base c).bind fun d => (digitsIn? base rest).map (d :: ·)
  | c :: rest => (digitIn? base c).bind fun d => (digitsIn? base rest).map (d :: ·)

/-- The value of a literal in base ten. It has no zeros in front of other digits, and not too many
digits. -/
def decimalLiteral? : List Char → Option Nat
  | [] => none
  | c :: rest =>
    (digitIn? 10 c).bind fun d => (digitsIn? 10 rest).bind fun ds =>
      if (d == 0 && ds.any (· != 0)) || maxDigits < ds.length + 1 then none
      else some (digitsValue (d :: ds))

def markedBase? : Char → Option Nat
  | 'b' | 'B' => some 2
  | 'o' | 'O' => some 8
  | 'x' | 'X' => some 16
  | _ => none

/-- The value of an integer literal. -/
def integerLiteral? (cs : List Char) : Option Nat :=
  match cs.tail.head?.bind markedBase? with
  | some base =>
    (digitsIn? base (cs.drop 2)).bind fun ds =>
      if cs.head? != some '0' || ds.isEmpty then none
      else some (ds.foldl (fun n d => base * n + d) 0)
  | none => decimalLiteral? cs

/-- The value of an integer literal with an optional minus. -/
def signedLiteral? : List Char → Option Int
  | '-' :: cs => (integerLiteral? cs).map fun (n : Nat) => -(n : Int)
  | cs => (integerLiteral? cs).map fun (n : Nat) => (n : Int)

/-- The digits of the first script. -/
theorem digitValue?_of_char_isDigit {c : Char} (h : c.isDigit) :
    digitValue? c = some (c.toNat - 48) ∧ c.toNat - 48 < 10 := by
  have low : 48 ≤ c.toNat ∧ c.toNat ≤ 57 := by
    simpa [Char.isDigit, UInt32.le_iff_toNat_le] using h
  have first : (digitRanges.find? fun r => r.1 ≤ c.toNat && c.toNat ≤ r.2) = some (48, 57) :=
    List.find?_cons_of_pos (by simpa using low)
  rw [digitValue?, first, Option.map_some]
  exact ⟨congrArg some (Nat.mod_eq_of_lt (by omega)), by omega⟩

/-- Digits of other scripts are no letters. -/
theorem toNat_of_isDigit {c : Char} (h : isDigit c) (other : c.isDigit = false) :
    128 ≤ c.toNat := by
  have high : ∀ r ∈ digitRanges.tail, 128 ≤ r.1 := by decide +kernel
  rw [isDigit, Ranges.has, List.any_eq_true] at h
  obtain ⟨r, hr, within⟩ := h
  simp only [Bool.and_eq_true, decide_eq_true_eq] at within
  rcases List.mem_cons.1 hr with rfl | hr
  · have : c.isDigit := by simpa [Char.isDigit, UInt32.le_iff_toNat_le] using within
    simp [this] at other
  · have := high r hr
    omega

/-- Of the digits of all scripts, literals have those of the first. -/
theorem digitIn?_ten {c : Char} (h : isDigit c) :
    digitIn? 10 c = if c.isDigit then digitValue? c else none := by
  cases first : c.isDigit with
  | true =>
    obtain ⟨value, small⟩ := digitValue?_of_char_isDigit first
    simp [digitIn?, first, value, small]
  | false =>
    have high := toNat_of_isDigit h first
    have lower : ¬(97 ≤ c.toNat ∧ c.toNat ≤ 102) := by omega
    have upper : ¬(65 ≤ c.toNat ∧ c.toNat ≤ 70) := by omega
    simp [digitIn?, first, lower, upper]

theorem digitsIn?_cons {base : Nat} {c : Char} (h : c ≠ '_') (rest : List Char) :
    digitsIn? base (c :: rest) =
      (digitIn? base c).bind fun d => (digitsIn? base rest).map (d :: ·) := by
  rw [digitsIn?.eq_def]
  split
  · rename_i same
    cases same
  · rename_i same
    cases same
    exact absurd rfl h
  · rename_i same
    cases same
    rfl

theorem digitsIn?_underscore (base : Nat) {c : Char} (h : c ≠ '_') (rest : List Char) :
    digitsIn? base ('_' :: c :: rest) = digitsIn? base (c :: rest) :=
  (digitsIn?_cons h rest).symm

theorem digitsIn?_append {g rest : List Char} {values : List Nat} {plain : Bool}
    (digits : ∀ c ∈ g, isDigit c)
    (below : digitsIn? 10 rest = if plain then some values else none) :
    digitsIn? 10 (g ++ rest) =
      if g.all Char.isDigit && plain then some (valuesOf g ++ values) else none := by
  induction g with
  | nil => simpa [valuesOf] using below
  | cons c g ih =>
    obtain ⟨hc, digits⟩ := List.forall_mem_cons.1 digits
    obtain ⟨d, hd⟩ := exists_digitValue? hc
    rw [List.cons_append, digitsIn?_cons (ne_underscore_of_isDigit hc), ih digits, digitIn?_ten hc, hd, valuesOf_cons hd,
      List.all_cons, Bool.and_assoc]
    cases c.isDigit with
    | false => rfl
    | true => cases g.all Char.isDigit && plain <;> rfl

theorem digitsIn?_grouped {first : List Char} {others : List (List Char)}
    (digits : ∀ c ∈ first, isDigit c) (groups : ∀ g ∈ others, IsGroup g) :
    digitsIn? 10 (grouped first others) =
      if (first ++ others.flatten).all Char.isDigit then some (valuesOf (first ++ others.flatten))
      else none := by
  induction others generalizing first with
  | nil =>
    have none_ : digitsIn? 10 [] = if true then some [] else none := rfl
    simpa [grouped] using digitsIn?_append digits none_
  | cons g others ih =>
    obtain ⟨hg, groups⟩ := List.forall_mem_cons.1 groups
    have behind : digitsIn? 10 ('_' :: grouped g others) = digitsIn? 10 (grouped g others) := by
      obtain ⟨given, digits⟩ := hg
      cases g with
      | nil => exact absurd rfl given
      | cons c g =>
        exact digitsIn?_underscore 10 (ne_underscore_of_isDigit (digits c List.mem_cons_self)) _
    rw [grouped_cons, digitsIn?_append digits (behind.trans (ih hg.2 groups)), List.flatten_cons,
      valuesOf_append first, ← List.all_append]

theorem digitsValue_beq_zero (ds : List Nat) : (digitsValue ds == 0) = !ds.any (· != 0) := by
  have run (n : Nat) : ds.foldl (fun n d => 10 * n + d) n = 0 ↔ n = 0 ∧ ∀ d ∈ ds, d = 0 := by
    induction ds generalizing n with
    | nil => simp
    | cons d ds ih =>
      have zero : 10 * n + d = 0 ↔ n = 0 ∧ d = 0 := by omega
      rw [List.foldl_cons, ih, List.forall_mem_cons, zero, and_assoc]
  rw [Bool.eq_iff_iff, beq_iff_eq, digitsValue, run]
  simp

theorem markedBase?_of_isDigit {c : Char} (h : isDigit c) : markedBase? c = none := by
  unfold markedBase?
  split
  case h_7 => rfl
  all_goals exact absurd h (by decide)

theorem toNat_sub_beq_zero {c : Char} (h : c.isDigit) : (c.toNat - 48 == 0) = (c == '0') := by
  have low : 48 ≤ c.toNat ∧ c.toNat ≤ 57 := by
    simpa [Char.isDigit, UInt32.le_iff_toNat_le] using h
  have zero : '0'.toNat = 48 := rfl
  rw [Bool.eq_iff_iff, beq_iff_eq, beq_iff_eq, ← Char.toNat_inj]
  omega

/-- Digits in groups are no mark of a base. -/
theorem integerLiteral?_cons {c : Char} {cs : List Char} {others : List (List Char)}
    (digits : ∀ e ∈ cs, isDigit e) :
    integerLiteral? (c :: grouped cs others) = decimalLiteral? (c :: grouped cs others) := by
  have unmarked : (grouped cs others).head?.bind markedBase? = none := by
    cases cs with
    | cons e cs => exact markedBase?_of_isDigit (digits e List.mem_cons_self)
    | nil =>
      cases others with
      | nil => rfl
      | cons g others => rfl
  rw [integerLiteral?, List.tail_cons, unmarked]

/-- Groups of digits are a literal if all digits are of the first script and no zeros stand in front
of others. -/
theorem integerLiteral?_grouped {first : List Char} {others : List (List Char)}
    (groups : ∀ g ∈ first :: others, IsGroup g)
    (few : (first ++ others.flatten).length ≤ maxDigits) :
    integerLiteral? (grouped first others) =
      if (first ++ others.flatten).all Char.isDigit &&
          (digitsValue (valuesOf (first ++ others.flatten)) == 0 || first.head?.all (· != '0')) then
        some (digitsValue (valuesOf (first ++ others.flatten)))
      else none := by
  obtain ⟨⟨given, digits⟩, others'⟩ := List.forall_mem_cons.1 groups
  cases first with
  | nil => exact absurd rfl given
  | cons c cs =>
    obtain ⟨hc, digits⟩ := List.forall_mem_cons.1 digits
    obtain ⟨d, hd⟩ := exists_digitValue? hc
    have read : integerLiteral? (grouped (c :: cs) others) =
        decimalLiteral? (c :: grouped cs others) := integerLiteral?_cons digits
    have length := length_valuesOf (isDigit_of_groups groups)
    rw [List.cons_append, valuesOf_cons hd, List.length_cons] at length
    rw [read, decimalLiteral?, digitIn?_ten hc, digitsIn?_grouped digits others', hd,
      List.cons_append, valuesOf_cons hd, List.all_cons]
    generalize valuesOf (cs ++ others.flatten) = ds at length ⊢
    cases first : c.isDigit with
    | false => rfl
    | true =>
      cases (cs ++ others.flatten).all Char.isDigit with
      | false => rfl
      | true =>
        obtain rfl : c.toNat - 48 = d :=
          Option.some.inj ((digitValue?_of_char_isDigit first).1.symm.trans hd)
        have short : ¬maxDigits < ds.length + 1 := by
          rw [length]
          exact Nat.not_lt.2 few
        rw [digitsValue_beq_zero, List.any_cons, bne, toNat_sub_beq_zero first, List.head?_cons,
          Option.all_some, bne]
        simp only [Option.bind_some, ↓reduceIte, short, decide_false, Bool.or_false,
          toNat_sub_beq_zero first]
        cases c == '0' <;> cases ds.any (· != 0) <;> rfl

theorem signedLiteral?_of_head? {cs : List Char} (h : cs.head? ≠ some '-') :
    signedLiteral? cs = (integerLiteral? cs).map fun (n : Nat) => (n : Int) := by
  unfold signedLiteral?
  split
  · exact absurd rfl h
  · rfl

theorem integerLiteral?_underscore (cs : List Char) : integerLiteral? ('_' :: cs) = none := by
  unfold integerLiteral?
  split
  · cases digitsIn? _ _ <;> rfl
  · rfl

section

variable (first : List Char) (others : List (List Char))

theorem digitsValue_dropZeros (rest : List Char) :
    digitsValue (valuesOf (first.dropWhile (· == '0') ++ rest)) =
      digitsValue (valuesOf (first ++ rest)) := by
  induction first with
  | nil => rfl
  | cons c cs ih =>
    by_cases zero : c = '0'
    · subst zero
      have value : digitValue? '0' = some 0 := by decide
      rw [List.dropWhile_cons_of_pos (by decide), ih, List.cons_append, valuesOf_cons value]
      rfl
    · rw [List.dropWhile_cons_of_neg (by simpa using zero)]

theorem all_isDigit_dropZeros (rest : List Char) :
    (first.dropWhile (· == '0') ++ rest).all Char.isDigit = (first ++ rest).all Char.isDigit := by
  induction first with
  | nil => rfl
  | cons c cs ih =>
    by_cases zero : c = '0'
    · subst zero
      rw [List.dropWhile_cons_of_pos (by decide), ih]
      rfl
    · rw [List.dropWhile_cons_of_neg (by simpa using zero)]

variable {first others}

/-- Zeros in front are dropped from the first group only. -/
theorem integerLiteral?_dropZeros (groups : ∀ g ∈ first :: others, IsGroup g)
    (few : (first ++ others.flatten).length ≤ maxDigits) :
    integerLiteral? ((grouped first others).dropWhile (· == '0')) =
      if (first ++ others.flatten).all Char.isDigit && first.any (· != '0') then
        some (digitsValue (valuesOf (first ++ others.flatten)))
      else none := by
  obtain ⟨hf, ho⟩ := List.forall_mem_cons.1 groups
  have split : (grouped first others).dropWhile (· == '0') =
      if (first.dropWhile (· == '0')).isEmpty then (others.flatMap ('_' :: ·)).dropWhile (· == '0')
      else grouped (first.dropWhile (· == '0')) others := List.dropWhile_append
  have empty : (first.dropWhile (· == '0')).isEmpty = !first.any (· != '0') := by
    rw [Bool.eq_iff_iff, List.isEmpty_iff, List.dropWhile_eq_nil_iff]
    simp
  rw [split, empty]
  cases stays : first.any (· != '0') with
  | false =>
    rw [Bool.and_false]
    cases others with
    | nil => rfl
    | cons g others => exact integerLiteral?_underscore _
  | true =>
    have kept : IsGroup (first.dropWhile (· == '0')) := by
      refine ⟨fun nil => ?_, fun c hc => hf.2 c (List.dropWhile_sublist _ |>.subset hc)⟩
      simp [nil, stays] at empty
    have short : (first.dropWhile (· == '0') ++ others.flatten).length ≤ maxDigits := by
      have := (List.dropWhile_sublist (· == '0') (l := first)).length_le
      rw [List.length_append] at few ⊢
      omega
    have nonzero : (first.dropWhile (· == '0')).head?.all (· != '0') := by
      have stop := List.head?_dropWhile_not (· == '0') first
      cases head : (first.dropWhile (· == '0')).head? with
      | none => rfl
      | some c =>
        rw [head] at stop
        simpa using stop
    rw [if_neg (by decide), integerLiteral?_grouped (List.forall_mem_cons.2 ⟨kept, ho⟩) short,
      digitsValue_dropZeros, all_isDigit_dropZeros, nonzero, Bool.or_true]

end

namespace NumberText

def shown (t : NumberText) : List Char :=
  if t.sign = some .minus then '-' :: grouped t.first t.others
  else if t.magnitude = 0 then grouped t.first t.others
  else (grouped t.first t.others).dropWhile (· == '0')

/-- All digits are of the first script. Unless the number is zero, no zeros stand behind a minus,
and without a minus there are other digits than zeros before the first underscore. -/
def isPlain (t : NumberText) : Bool :=
  t.digits.all Char.isDigit &&
    (t.magnitude == 0 ||
      if t.sign = some .minus then t.first.head?.all (· != '0') else t.first.any (· != '0'))

variable (t : NumberText)

theorem head?_ne_minus {cs : List Char} (within : cs ⊆ grouped t.first t.others) :
    cs.head? ≠ some '-' := by
  intro head
  have mem := within (List.mem_of_mem_head? head)
  exact absurd (t.isDigit_or_of_mem_grouped mem) (by decide)

theorem integerLiteral?_all :
    integerLiteral? (grouped t.first t.others) =
      if t.digits.all Char.isDigit && (t.magnitude == 0 || t.first.head?.all (· != '0')) then
        some t.magnitude
      else none :=
  integerLiteral?_grouped t.groups t.few

theorem map_ite_magnitude (plain : Bool) (k : Nat → Int) :
    Option.map k (if plain then some t.magnitude else none) =
      if plain then some (k t.magnitude) else none := by
  cases plain <;> rfl

/-- What is suggested is a literal of the same value or none. -/
theorem signedLiteral?_shown :
    signedLiteral? t.shown = if t.isPlain then some t.value else none := by
  by_cases minus : t.sign = some .minus
  · rw [shown, if_pos minus, signedLiteral?, t.integerLiteral?_all, isPlain, if_pos minus, value,
      if_pos minus, map_ite_magnitude]
  · rw [shown, if_neg minus, isPlain, if_neg minus, value, if_neg minus]
    by_cases zero : t.magnitude = 0
    · have plain : (t.magnitude == 0) = true := beq_iff_eq.2 zero
      rw [if_pos zero, signedLiteral?_of_head? (t.head?_ne_minus (List.Subset.refl _)),
        t.integerLiteral?_all, map_ite_magnitude, plain, Bool.true_or, Bool.true_or]
    · have other : (t.magnitude == 0) = false := beq_eq_false_iff_ne.2 zero
      rw [if_neg zero, signedLiteral?_of_head? (t.head?_ne_minus (List.dropWhile_sublist _).subset),
        integerLiteral?_dropZeros t.groups t.few, other, Bool.false_or]
      exact t.map_ite_magnitude _ _

theorem value_eq_zero_iff : t.value = 0 ↔ t.magnitude = 0 := by
  unfold value
  split <;> omega

theorem dropWhile_signed : t.signed.dropWhile (· == '+') =
    if t.sign = some .minus then '-' :: grouped t.first t.others
    else grouped t.first t.others := by
  have digits : (grouped t.first t.others).dropWhile (· == '+') = grouped t.first t.others := by
    apply @dropWhile_append_of_head? _ [] _ (by simp)
    intro c hc
    rcases t.isDigit_or_of_mem_grouped (List.mem_of_mem_head? hc) with digit | rfl
    · exact beq_false_of_ne (ne_of_isDigit digit (by decide))
    · rfl
  rw [signed]
  rcases t.sign with _ | _ | _
  · exact digits
  · exact digits
  · rfl

open Rules.Numbers in
/-- Blanks, a plus and zeros in front are taken away. -/
theorem wholeDecimal?_text {s : String} (same : t.text = s.toList) :
    wholeDecimal? s = some (String.ofList t.shown) := by
  have drop (c : Char) (cs : List Char) :
      dropLeading c (String.ofList cs) = String.ofList (cs.dropWhile (· == c)) := by
    rw [dropLeading, String.toList_ofList]
  have trimmed : Text.trim s = String.ofList t.signed := by
    have blanks : ∀ c ∈ t.before ++ t.after, isBlank c :=
      fun c hc => isBlank_of_isNumberBlank (t.blanks c hc)
    rw [Text.trim, ← same, t.trimBy_text blanks fun c h => h]
  have unsigned := t.dropWhile_signed
  have read : wholeDecimal? s = some (if t.value == 0 then dropLeading '+' (String.ofList t.signed)
      else dropLeading '0' (dropLeading '+' (String.ofList t.signed))) := by
    rw [wholeDecimal?, t.readInt_text same, trimmed]
    rfl
  rw [read, drop, drop, unsigned, shown]
  by_cases minus : t.sign = some .minus
  · rw [if_pos minus, if_pos minus, List.dropWhile_cons_of_neg (by decide), ite_self]
  · rw [if_neg minus, if_neg minus]
    by_cases zero : t.magnitude = 0
    · rw [if_pos zero, if_pos (beq_iff_eq.2 (t.value_eq_zero_iff.2 zero))]
    · rw [if_neg zero, if_neg (by simpa [t.value_eq_zero_iff] using zero)]

end NumberText

end Text

namespace Rules.Numbers

open Finding Text

theorem decimalConstructor_str (env : Env) {callee : Node}
    (named : callee.refersTo "_decimal.Decimal") (i j : Info) (text : String) (kind : ArgKind)
    (name : Option String) (analyzed : Option Node) :
    let n : Node := ⟨i, .call callee [⟨⟨j, .str text⟩, kind, name⟩] analyzed⟩
    let f := if callee.isMember then "decimal.Decimal" else "Decimal"
    decimalConstructor env n = (wholeDecimal? text).toList.map fun new =>
      replace n (f ++ "(\"" ++ String.ofList (Text.quotedBody text.toList) ++ "\")")
        (f ++ "(" ++ new ++ ")") := by
  intro n f
  rw [decimalConstructor, if_pos named]
  dsimp only
  cases wholeDecimal? text <;> rfl

/-- A text is reported exactly if it is read as a whole number, which is to say that it is the text
of one. What is suggested is a literal of the same value if the number is plain, and no literal at
all if it is not. -/
theorem whole_decimal_literal_iff (env : Env) {callee : Node}
    (named : callee.refersTo "_decimal.Decimal") (i j : Info) (text : String) (kind : ArgKind)
    (name : Option String) (analyzed : Option Node) :
    let n : Node := ⟨i, .call callee [⟨⟨j, .str text⟩, kind, name⟩] analyzed⟩
    let f := if callee.isMember then "decimal.Decimal" else "Decimal"
    (decimalConstructor env n ≠ [] ↔ ∃ value, readInt text = .ok value) ∧
    (∀ value, readInt text = .ok value ↔
      ∃ t : NumberText, t.text = text.toList ∧ t.value = value) ∧
    ∀ t : NumberText, t.text = text.toList → ∃ new,
      decimalConstructor env n =
        [replace n (f ++ "(\"" ++ String.ofList (quotedBody text.toList) ++ "\")")
          (f ++ "(" ++ new ++ ")")] ∧
      signedLiteral? new.toList = if t.isPlain then some t.value else none := by
  intro n f
  have found : decimalConstructor env n = _ :=
    decimalConstructor_str env named i j text kind name analyzed
  refine ⟨?_, fun value => readInt_eq_ok_iff, fun t same => ⟨String.ofList t.shown, ?_, ?_⟩⟩
  · rw [found, wholeDecimal?]
    cases readInt text <;> simp [Except.toOption]
  · rw [found, t.wholeDecimal?_text same]
    rfl
  · rw [String.toList_ofList]
    exact t.signedLiteral?_shown

def decimalName : Node := ⟨default, .name ⟨"Decimal", "_decimal.Decimal", none, false⟩ none⟩

def decimalOf (text : String) : Node :=
  ⟨default, .call decimalName [⟨⟨default, .str text⟩, .pos, none⟩] none⟩

def noEnv : Env := ⟨.empty, ⟨3, 10⟩, []⟩

def paddedNumber : NumberText where
  before := [' ']
  sign := some .plus
  first := ['0', '0', '1', '2']
  others := [['5']]
  after := []
  blanks := List.forall_mem_singleton.2 (by decide)
  groups := by decide
  few := by decide

theorem whole_decimal_literal_iff_padded :
    paddedNumber.text = " +0012_5".toList ∧ paddedNumber.value = 125 ∧ paddedNumber.isPlain ∧
    ∃ new, decimalConstructor noEnv (decimalOf " +0012_5") =
        [replace (decimalOf " +0012_5") "Decimal(\" +0012_5\")" ("Decimal(" ++ new ++ ")")] ∧
      signedLiteral? new.toList = some 125 := by
  have same : paddedNumber.text = " +0012_5".toList := by decide
  have plain : paddedNumber.isPlain := by decide
  have named : decimalName.refersTo "_decimal.Decimal" := by decide
  obtain ⟨-, -, suggested⟩ :=
    whole_decimal_literal_iff noEnv named default default " +0012_5" .pos none none
  obtain ⟨new, found, literal⟩ := suggested paddedNumber same
  exact ⟨same, by decide, plain, new, found, by rw [literal, if_pos plain]; rfl⟩

/-- The text of a number is reported, with something suggested that is no literal. -/
def SuggestsNoLiteral (text : String) (value : Int) (new : String) : Prop :=
  readInt text = .ok value ∧
    decimalConstructor noEnv (decimalOf text) =
      [replace (decimalOf text) ("Decimal(\"" ++ text ++ "\")") ("Decimal(" ++ new ++ ")")] ∧
    signedLiteral? new.toList = none

/-- Zeros behind a minus stay, the underscore behind zeros stays, and so do digits of other
scripts. -/
theorem unfit_literals_suggested :
    SuggestsNoLiteral "-01" (-1) "-01" ∧ SuggestsNoLiteral "0_1" 1 "_1" ∧
      SuggestsNoLiteral "\u0663" 3 "\u0663" := by
  simp only [SuggestsNoLiteral]
  decide +kernel

end Rules.Numbers

end IdiomLint
