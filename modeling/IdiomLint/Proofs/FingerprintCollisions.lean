import IdiomLint.Bench.Fingerprint
import Mathlib.Data.List.Chain

/-! Which values of the plain kinds are written as the same bytes. Such a value is written piece by
piece with nothing between one piece and the next. Its pieces determine it, but not every text can
be cut into pieces in one way only: a value is sure of bytes of its own where no piece of it can be
read on into the next. -/
namespace IdiomLint.Bench

/-- What a value of the plain kinds holds, be its items in a list or in a tuple. -/
inductive Datum where
  | none
  | bool (value : Bool)
  | int (value : Int)
  | text (value : String)
  | items (data : List Datum)

mutual

/-- The datum of a value of the plain kinds that has lists in each other to a depth at most, none
of them with more items than are compared. -/
def Value.datum? : Value → Nat → Option Datum
  | .none, _ => some .none
  | .bool b, _ => some (.bool b)
  | .int n, _ => some (.int n)
  | .str s, _ => some (.text s)
  | .list items, room + 1 | .tuple items, room + 1 =>
    if items.length ≤ maxItems then (data? items room).map .items else Option.none
  | _, _ => Option.none

def data? : List Value → Nat → Option (List Datum)
  | [], _ => some []
  | v :: vs, room => (v.datum? room).bind fun d => (data? vs room).map (d :: ·)

end

/-- A stretch of the text of a value: a scalar, or the heading of a list. -/
inductive Piece where
  | none
  | bool (value : Bool)
  | int (value : Int)
  | text (value : String)
  | count (value : Nat)
deriving DecidableEq

namespace Piece

def lead : Piece → List Char
  | none => "None".toList
  | bool b => (Value.boolText b).toList
  | int (.ofNat _) => []
  | int (.negSucc _) => ['-']
  | text _ => ['s']
  | count _ => ['L']

def value : Piece → Nat
  | int n => n.natAbs
  | count n => n
  | _ => 0

def body : Piece → List Char
  | none => []
  | bool _ => []
  | text s => s.toList
  | t => Nat.toDigits 10 t.value

def chars (t : Piece) : List Char := t.lead ++ t.body

/-- How many data have to follow a piece before its own is complete. -/
def arity : Piece → Nat
  | count n => n
  | _ => 0

/-- Ends with the digits of a number. -/
def IsNumber (t : Piece) : Prop := t.lead ∈ [[], ['-'], ['L']]

/-- Whether the end of a piece can be taken for a longer one where another follows: texts end
nowhere, and digits go on in those of a number without a sign. -/
def RunsInto (t u : Piece) : Prop := t.lead = ['s'] ∨ t.IsNumber ∧ u.lead = []

instance (t u : Piece) : Decidable (t.RunsInto u) :=
  inferInstanceAs (Decidable (_ = _ ∨ _ ∈ _ ∧ _ = _))

end Piece

def joined (ts : List Piece) : List Char := ts.flatMap Piece.chars

mutual

def Datum.pieces : Datum → List Piece
  | .none => [.none]
  | .bool b => [.bool b]
  | .int n => [.int n]
  | .text s => [.text s]
  | .items data => .count data.length :: piecesAll data

def piecesAll : List Datum → List Piece
  | [] => []
  | d :: ds => d.pieces ++ piecesAll ds

end

/-- No piece of the datum can be read on into the next. -/
def Datum.Apart (d : Datum) : Prop := d.pieces.IsChain fun t u => ¬ t.RunsInto u

instance (d : Datum) : Decidable d.Apart :=
  inferInstanceAs (Decidable (d.pieces.IsChain fun t u => ¬ t.RunsInto u))

/-- The list view of bytes, which is built back to front, is that of the array below. -/
theorem toList_loop_eq (bs : ByteArray) (i : Nat) (read : List UInt8) :
    ByteArray.toList.loop bs i read = read.reverse ++ bs.data.toList.drop i := by
  fun_induction ByteArray.toList.loop bs i read with
  | case1 i read more ih =>
    have next : bs.data.toList.drop i = bs.get! i :: bs.data.toList.drop (i + 1) := by
      rw [List.drop_eq_getElem_cons (Array.length_toList ▸ more)]
      simp [ByteArray.get!, more]
    rw [ih, next, List.reverse_cons, List.append_assoc, List.singleton_append]
  | case2 i read done =>
    have past : bs.data.toList.length ≤ i := Nat.le_of_not_lt (Array.length_toList ▸ done)
    rw [List.drop_of_length_le past, List.append_nil]

theorem utf8_eq_data (s : String) : utf8 s = s.toByteArray.data.toList := by
  rw [utf8, String.toUTF8_eq_toByteArray, ByteArray.toList, toList_loop_eq]
  rfl

theorem utf8_append (s t : String) : utf8 (s ++ t) = utf8 s ++ utf8 t := by
  simp [utf8_eq_data, String.toByteArray_append]

theorem utf8_inj {s t : String} : utf8 s = utf8 t ↔ s = t := by
  rw [utf8_eq_data, utf8_eq_data, Array.toList_inj, ← ByteArray.ext_iff, String.toByteArray_inj]

def bytesOf (ts : List Piece) : List UInt8 := utf8 (String.ofList (joined ts))

theorem bytesOf_append (ts us : List Piece) : bytesOf (ts ++ us) = bytesOf ts ++ bytesOf us := by
  rw [bytesOf, joined, List.flatMap_append, String.ofList_append, utf8_append]
  rfl

theorem bytesOf_inj {ts us : List Piece} : bytesOf ts = bytesOf us ↔ joined ts = joined us := by
  rw [bytesOf, bytesOf, utf8_inj, String.ofList_inj]

theorem utf8_eq_bytesOf {s : String} {t : Piece} (shown : s.toList = t.chars) :
    utf8 s = bytesOf [t] := by
  rw [bytesOf, joined, List.flatMap_singleton, ← shown, String.ofList_toList]

theorem toList_toString_int (n : Int) : (toString n).toList = (Piece.int n).chars := by
  cases n with
  | ofNat n => exact Nat.toList_repr
  | negSucc n =>
    have shown : toString (Int.negSucc n) = "-" ++ (n + 1).repr := rfl
    rw [shown, String.toList_append, Nat.toList_repr]
    rfl

theorem heading_eq (n : Nat) : heading "L" n = bytesOf [.count n] := by
  refine utf8_eq_bytesOf ?_
  rw [String.toList_append, Nat.toString_eq_repr, Nat.toList_repr]
  rfl

mutual

/-- A value is written as the pieces of its datum. -/
theorem encode_eq_bytesOf : ∀ (v : Value) {room depth : Nat} {d : Datum},
    v.datum? room = some d → depth + room ≤ maxDepth → encode depth v = bytesOf d.pieces
  | .none, _, _, _, h, _ => by
    cases h
    exact utf8_eq_bytesOf rfl
  | .bool b, _, _, _, h, _ => by
    cases h
    exact utf8_eq_bytesOf (List.append_nil _).symm
  | .int n, _, _, _, h, _ => by
    cases h
    exact utf8_eq_bytesOf (toList_toString_int n)
  | .str s, _, _, _, h, _ => by
    cases h
    exact utf8_eq_bytesOf String.toList_append
  | .list items, room + 1, depth, _, h, deep | .tuple items, room + 1, depth, _, h, deep => by
    rw [Value.datum?, Option.ite_none_right_eq_some, Option.map_eq_some_iff] at h
    obtain ⟨fits, data, within, rfl⟩ := h
    have deeper : depth + 1 + room ≤ maxDepth := by omega
    obtain ⟨inner, length⟩ := encodeAll_eq_bytesOf items within deeper fits
    have shallow : depth < maxDepth := by omega
    rw [encode, if_pos shallow, heading_eq, inner, ← bytesOf_append, ← length]
    rfl

theorem encodeAll_eq_bytesOf : ∀ (vs : List Value) {room depth count : Nat} {ds : List Datum},
    data? vs room = some ds → depth + room ≤ maxDepth → vs.length ≤ count →
      encodeAll depth vs count = bytesOf (piecesAll ds) ∧ ds.length = vs.length
  | [], _, depth, count, _, h, _, _ => by
    cases h
    have nothing : bytesOf (piecesAll []) = [] := by
      rw [bytesOf, utf8_eq_data]
      rfl
    rw [nothing, encodeAll]
    exact ⟨rfl, rfl⟩
  | v :: vs, room, depth, count + 1, _, h, deep, fits => by
    rw [data?, Option.bind_eq_some_iff] at h
    obtain ⟨d, own, h⟩ := h
    obtain ⟨ds, others, rfl⟩ := Option.map_eq_some_iff.1 h
    obtain ⟨rest, length⟩ := encodeAll_eq_bytesOf vs others deep (Nat.le_of_succ_le_succ fits)
    rw [encodeAll, encode_eq_bytesOf v own deep, rest, piecesAll, bytesOf_append]
    exact ⟨rfl, congrArg (· + 1) length⟩

end

mutual

theorem pieces_append_inj : ∀ {d e : Datum} {ts us : List Piece},
    d.pieces ++ ts = e.pieces ++ us → d = e ∧ ts = us
  | .items ds, .items es, _, _, h => by
    obtain ⟨head, behind⟩ := List.cons.inj h
    obtain ⟨rfl, rest⟩ := piecesAll_append_inj (Piece.count.inj head) behind
    exact ⟨rfl, rest⟩
  | .none, .none, _, _, h => ⟨rfl, (List.cons.inj h).2⟩
  | .bool _, .bool _, _, _, h => by
    obtain ⟨head, rest⟩ := List.cons.inj h
    exact ⟨congrArg _ (Piece.bool.inj head), rest⟩
  | .int _, .int _, _, _, h => by
    obtain ⟨head, rest⟩ := List.cons.inj h
    exact ⟨congrArg _ (Piece.int.inj head), rest⟩
  | .text _, .text _, _, _, h => by
    obtain ⟨head, rest⟩ := List.cons.inj h
    exact ⟨congrArg _ (Piece.text.inj head), rest⟩

theorem piecesAll_append_inj : ∀ {ds es : List Datum} {ts us : List Piece},
    ds.length = es.length → piecesAll ds ++ ts = piecesAll es ++ us → ds = es ∧ ts = us
  | [], [], _, _, _, h => ⟨rfl, h⟩
  | d :: ds, e :: es, ts, us, length, h => by
    rw [piecesAll, piecesAll, List.append_assoc, List.append_assoc] at h
    obtain ⟨rfl, behind⟩ := pieces_append_inj h
    obtain ⟨rfl, rest⟩ := piecesAll_append_inj (Nat.succ.inj length) behind
    exact ⟨rfl, rest⟩

end

theorem pieces_inj {d e : Datum} : d.pieces = e.pieces ↔ d = e := by
  refine ⟨fun h => ?_, fun h => h ▸ rfl⟩
  exact (pieces_append_inj (congrArg (· ++ []) h)).1

/-- Pieces in which a number of data follow one another, and nothing else. -/
inductive Complete : Nat → List Piece → Prop where
  | done : Complete 0 []
  | next {n : Nat} (t : Piece) {ts : List Piece} (rest : Complete (n + t.arity) ts) :
      Complete (n + 1) (t :: ts)

mutual

theorem complete_pieces_append : ∀ (d : Datum) {n : Nat} {ts : List Piece},
    Complete n ts → Complete (n + 1) (d.pieces ++ ts)
  | .none, _, _, h => .next .none h
  | .bool b, _, _, h => .next (.bool b) h
  | .int n, _, _, h => .next (.int n) h
  | .text s, _, _, h => .next (.text s) h
  | .items data, _, _, h => .next (.count data.length) (complete_piecesAll_append data h)

theorem complete_piecesAll_append : ∀ (ds : List Datum) {n : Nat} {ts : List Piece},
    Complete n ts → Complete (n + ds.length) (piecesAll ds ++ ts)
  | [], _, _, h => h
  | d :: ds, _, _, h => by
    rw [piecesAll, List.append_assoc]
    exact complete_pieces_append d (complete_piecesAll_append ds h)

end

theorem complete_pieces (d : Datum) : Complete 1 d.pieces :=
  List.append_nil d.pieces ▸ complete_pieces_append d .done

namespace Piece

theorem body_of_word {t : Piece} (number : ¬ t.IsNumber) (text : t.lead ≠ ['s']) :
    t.body = [] := by
  cases t with
  | int n => cases n <;> simp [IsNumber, lead] at number
  | text s => exact absurd rfl text
  | count n => simp [IsNumber, lead] at number
  | _ => rfl

theorem body_of_isNumber {t : Piece} (h : t.IsNumber) : t.body = Nat.toDigits 10 t.value := by
  cases t with
  | bool b => cases b <;> simp [IsNumber, lead, Value.boolText] at h
  | int n => rfl
  | count n => rfl
  | _ => simp [IsNumber, lead] at h

theorem isDigit_of_mem_body {t : Piece} (h : t.IsNumber) {c : Char} (hc : c ∈ t.body) :
    c.isDigit := by
  rw [body_of_isNumber h] at hc
  exact Nat.isDigit_of_mem_toDigits (by decide) (by decide) hc

theorem arity_eq (t : Piece) : t.arity = if t.lead = ['L'] then t.value else 0 := by
  cases t with
  | int n => cases n <;> simp [arity, lead]
  | bool b => cases b <;> simp [arity, lead, Value.boolText]
  | _ => simp [arity, lead, value]

def ofParts (lead body : List Char) : Piece :=
  if lead = [] then .int (Nat.ofDigitChars 10 body 0)
  else if lead = ['-'] then .int (-(Nat.ofDigitChars 10 body 0))
  else if lead = ['L'] then .count (Nat.ofDigitChars 10 body 0)
  else if lead = ['s'] then .text (String.ofList body)
  else if lead = "None".toList then .none
  else .bool (lead = "True".toList)

theorem ofParts_lead_body (t : Piece) : ofParts t.lead t.body = t := by
  cases t with
  | int n =>
    cases n with
    | ofNat n => simp [ofParts, lead, body, value]
    | negSucc n =>
      simp only [ofParts, lead, body, value, Nat.ofDigitChars_ten_toDigits]
      rfl
  | bool b => cases b <;> rfl
  | _ => simp [ofParts, lead, body, value]

theorem eq_of_lead_of_body {t u : Piece} (lead : t.lead = u.lead) (body : t.body = u.body) :
    t = u := by
  rw [← ofParts_lead_body t, lead, body, ofParts_lead_body]

/-- The lead of the pieces that begin with a character. -/
def leadOf (c : Char) : List Char :=
  if c.isDigit then []
  else if c = 'N' then "None".toList
  else if c = 'T' then "True".toList
  else if c = 'F' then "False".toList
  else [c]

theorem leadOf_eq_nil_iff {c : Char} : leadOf c = [] ↔ c.isDigit := by
  unfold leadOf
  split
  · simp_all
  · repeat' split
    all_goals simp_all

/-- The first character of a piece tells its lead. -/
theorem exists_chars_eq_cons (t : Piece) : ∃ c rest, t.chars = c :: rest ∧ leadOf c = t.lead := by
  cases t with
  | int n =>
    cases n with
    | ofNat n =>
      obtain ⟨c, rest, digits⟩ := List.exists_cons_of_ne_nil (@Nat.toDigits_ne_nil n 10)
      have digit : c.isDigit :=
        Nat.isDigit_of_mem_toDigits (by decide) (by decide) (digits ▸ List.mem_cons_self)
      exact ⟨c, rest, digits, leadOf_eq_nil_iff.2 digit⟩
    | negSucc n => exact ⟨_, _, rfl, rfl⟩
  | bool b => cases b <;> exact ⟨_, _, rfl, rfl⟩
  | _ => exact ⟨_, _, rfl, rfl⟩

theorem parts_of_append_eq {t u : Piece} {x y : List Char} (h : t.chars ++ x = u.chars ++ y) :
    t.lead = u.lead ∧ t.body ++ x = u.body ++ y := by
  obtain ⟨c, rest, begins, told⟩ := t.exists_chars_eq_cons
  obtain ⟨c', rest', begins', told'⟩ := u.exists_chars_eq_cons
  have first : c = c' := by
    rw [begins, begins'] at h
    exact (List.cons.inj h).1
  have lead : t.lead = u.lead := by rw [← told, ← told', first]
  refine ⟨lead, ?_⟩
  rwa [chars, chars, lead, List.append_assoc, List.append_assoc, List.append_cancel_left_eq] at h

end Piece

theorem joined_cons (t : Piece) (ts : List Piece) : joined (t :: ts) = t.chars ++ joined ts :=
  List.flatMap_cons

/-- Digits cut from a text are all those that it begins with, or the first of them. -/
theorem exists_of_digits_append_eq {digits other x y : List Char}
    (numeric : ∀ c ∈ other, c.isDigit) (ends : ∀ c ∈ x.head?, ¬ c.isDigit)
    (h : digits ++ x = other ++ y) : ∃ more, digits = other ++ more ∧ y = more ++ x := by
  obtain ⟨past, rfl, rfl⟩ | found := List.append_eq_append_iff.1 h
  · cases past with
    | nil => exact ⟨[], by simp, rfl⟩
    | cons c past => exact absurd (numeric c (by simp)) (ends c rfl)
  · exact found

theorem Complete.eq_zero {n : Nat} (h : Complete n []) : n = 0 := by
  cases h
  rfl

theorem Complete.eq_nil {ts : List Piece} (h : Complete 0 ts) : ts = [] := by
  cases h
  rfl

/-- Digits in front of other data are cut into numbers without a sign, each a datum. -/
theorem Complete.exists_of_digits {n : Nat} {us : List Piece} (h : Complete n us)
    {digits x : List Char} (numeric : ∀ c ∈ digits, c.isDigit) (ends : ∀ c ∈ x.head?, ¬ c.isDigit)
    (cut : joined us = digits ++ x) :
    ∃ m rest, Complete m rest ∧ joined rest = x ∧ (digits = [] ∧ m ≤ n ∨ m < n) := by
  induction h generalizing digits with
  | done =>
    obtain ⟨rfl, rfl⟩ := List.append_eq_nil_iff.1 cut.symm
    exact ⟨0, [], .done, rfl, .inl ⟨rfl, Nat.le_refl 0⟩⟩
  | @next n u us rest ih =>
    cases digits with
    | nil => exact ⟨n + 1, u :: us, .next u rest, cut, .inl ⟨rfl, Nat.le_refl _⟩⟩
    | cons c digits =>
      rw [joined_cons] at cut
      obtain ⟨c', later, begins, told⟩ := u.exists_chars_eq_cons
      have first : c' = c := by
        rw [begins] at cut
        exact (List.cons.inj cut).1
      have lead : u.lead = [] := by
        rw [← told, first, Piece.leadOf_eq_nil_iff]
        exact numeric c List.mem_cons_self
      have number : u.IsNumber := by simp [Piece.IsNumber, lead]
      have noLead : u.chars = u.body := by rw [Piece.chars, lead, List.nil_append]
      have arity : u.arity = 0 := by rw [Piece.arity_eq, lead, if_neg (by decide)]
      rw [noLead] at cut
      obtain ⟨more, split, behind⟩ :=
        exists_of_digits_append_eq (fun _ => Piece.isDigit_of_mem_body number) ends cut.symm
      have numeric' : ∀ c ∈ more, c.isDigit := fun c hc =>
        numeric c (split ▸ List.mem_append_right _ hc)
      obtain ⟨m, rest, complete, same, fewer⟩ := ih numeric' behind
      exact ⟨m, rest, complete, same, .inr (by omega)⟩

theorem value_le_of_digits {m n : Nat} {more : List Char}
    (h : Nat.toDigits 10 m = Nat.toDigits 10 n ++ more) : n ≤ m :=
  calc
    n ≤ 10 ^ more.length * n := Nat.le_mul_of_pos_left n (Nat.pow_pos (by decide))
    _ ≤ 10 ^ more.length * n + Nat.ofDigitChars 10 more 0 := Nat.le_add_right _ _
    _ = Nat.ofDigitChars 10 (Nat.toDigits 10 n ++ more) 0 := by
      rw [Nat.ofDigitChars_append, Nat.ofDigitChars_ten_toDigits,
        ← Nat.ofDigitChars_eq_ofDigitChars_zero]
    _ = m := by rw [← h, Nat.ofDigitChars_ten_toDigits]

/-- A number that is apart from what follows it has no digit behind it. -/
theorem not_isDigit_of_apart {t : Piece} {ts : List Piece} (number : t.IsNumber)
    (apart : (t :: ts).IsChain fun t u => ¬ t.RunsInto u) :
    ∀ c ∈ (joined ts).head?, ¬ c.isDigit := by
  cases ts with
  | nil => exact nofun
  | cons u ts =>
    have lead : u.lead ≠ [] := fun lead =>
      (List.isChain_cons_cons.1 apart).1 (.inr ⟨number, lead⟩)
    obtain ⟨c, rest, begins, told⟩ := u.exists_chars_eq_cons
    rw [joined_cons, begins]
    rintro _ ⟨⟩ digit
    exact lead (told ▸ Piece.leadOf_eq_nil_iff.2 digit)

/-- A number is cut from a text in full, or early, and then its last digits are data too many. -/
theorem Complete.in_full_or_early {n : Nat} {t u : Piece} {ts us : List Piece} (number : t.IsNumber)
    (lead : t.lead = u.lead) (apart : (t :: ts).IsChain fun t u => ¬ t.RunsInto u)
    (h : Complete (n + u.arity) us) (same : t.body ++ joined ts = u.body ++ joined us) :
    t.body = u.body ∧ joined ts = joined us
      ∨ ∃ k later, Complete k later ∧ joined ts = joined later ∧ k < n + t.arity := by
  have number' : u.IsNumber := by rwa [Piece.IsNumber, ← lead]
  have ends := not_isDigit_of_apart number apart
  obtain ⟨more, digits, behind⟩ :=
    exists_of_digits_append_eq (fun _ => Piece.isDigit_of_mem_body number') ends same
  cases more with
  | nil => exact .inl ⟨by simpa using digits, behind.symm⟩
  | cons c more =>
    have numeric : ∀ d ∈ c :: more, d.isDigit := fun d hd =>
      Piece.isDigit_of_mem_body number (digits ▸ List.mem_append_right _ hd)
    obtain ⟨k, later, complete, text, fewer⟩ := h.exists_of_digits numeric ends behind
    have arity : u.arity ≤ t.arity := by
      rw [Piece.body_of_isNumber number, Piece.body_of_isNumber number'] at digits
      have smaller := value_le_of_digits digits
      rw [t.arity_eq, u.arity_eq, lead]
      split <;> omega
    have fewer : k < n + u.arity := by simpa using fewer
    exact .inr ⟨k, later, complete, text.symm, by omega⟩

/-- Where the pieces of data are apart, no other pieces have their text, unless they are of more
data: with a number cut early, the text would have to go on after the last datum. -/
theorem eq_of_joined_eq {m n : Nat} {ts us : List Piece} (hts : Complete m ts)
    (apart : ts.IsChain fun t u => ¬ t.RunsInto u) (hus : Complete n us) (le : n ≤ m)
    (same : joined ts = joined us) : ts = us ∧ m = n := by
  induction hts generalizing n us with
  | done =>
    cases hus with
    | done => exact ⟨rfl, rfl⟩
    | next => cases le
  | @next m t ts rest ih =>
    cases hus with
    | done =>
      obtain ⟨c, later, begins, -⟩ := t.exists_chars_eq_cons
      rw [joined_cons, begins] at same
      cases same
    | @next n u us rest' =>
      rw [joined_cons, joined_cons] at same
      obtain ⟨lead, same⟩ := Piece.parts_of_append_eq same
      -- Once the bodies are the same, so are the pieces, and the rests are compared.
      have step (body : t.body = u.body) (behind : joined ts = joined us) :
          t :: ts = u :: us ∧ m + 1 = n + 1 := by
        obtain rfl := Piece.eq_of_lead_of_body lead body
        obtain ⟨rfl, count⟩ := ih apart.tail rest' (by omega) behind
        exact ⟨rfl, by omega⟩
      by_cases number : t.IsNumber
      · obtain ⟨body, behind⟩ | ⟨k, later, complete, text, fewer⟩ :=
          rest'.in_full_or_early number lead apart same
        · exact step body behind
        · obtain ⟨-, count⟩ := ih apart.tail complete (by omega) text
          omega
      by_cases text : t.lead = ['s']
      · -- A text is the last piece, so that the other cut has no data left for a second one.
        obtain rfl : ts = [] := by
          cases ts with
          | nil => rfl
          | cons v ts => exact absurd (.inl text) (List.isChain_cons_cons.1 apart).1
        have last : m + t.arity = 0 := rest.eq_zero
        have arity : u.arity = 0 := by rw [u.arity_eq, ← lead, text, if_neg (by decide)]
        obtain rfl : n = 0 := by omega
        obtain rfl : us = [] := (arity ▸ rest').eq_nil
        exact step (by simpa using same) rfl
      · have noBody := Piece.body_of_word number text
        have noBody' : u.body = [] := by
          rw [Piece.IsNumber, lead] at number
          exact Piece.body_of_word number (lead ▸ text)
        rw [noBody, noBody'] at same
        exact step (noBody.trans noBody'.symm) same

theorem Datum.Apart.eq_of_joined_eq {d e : Datum} (apart : d.Apart)
    (same : joined d.pieces = joined e.pieces) : d = e :=
  pieces_inj.1 (Bench.eq_of_joined_eq (complete_pieces d) apart (complete_pieces e)
    (Nat.le_refl 1) same).1

theorem encode_eq_iff {v w : Value} {d e : Datum} (hv : v.datum? maxDepth = some d)
    (hw : w.datum? maxDepth = some e) :
    encode 0 v = encode 0 w ↔ joined d.pieces = joined e.pieces := by
  have room : 0 + maxDepth ≤ maxDepth := by decide
  rw [encode_eq_bytesOf v hv room, encode_eq_bytesOf w hw room, bytesOf_inj]

/-- Two values of the plain kinds are written as the same bytes if and only if their pieces join to
the same text. The pieces determine the value, but for lists and tuples being the same; so a value
with no piece that runs into the next is alone with its bytes. -/
theorem plain_values_same_bytes_iff {v w : Value} {d e : Datum}
    (hv : v.datum? maxDepth = some d) (hw : w.datum? maxDepth = some e) :
    (encode 0 v = encode 0 w ↔ joined d.pieces = joined e.pieces)
      ∧ (d.pieces = e.pieces ↔ d = e)
      ∧ (d.Apart ∨ e.Apart → (encode 0 v = encode 0 w ↔ d = e)) := by
  have bytes := encode_eq_iff hv hw
  refine ⟨bytes, pieces_inj, fun apart => bytes.trans ⟨fun same => ?_, fun same => same ▸ rfl⟩⟩
  obtain apart | apart := apart
  · exact apart.eq_of_joined_eq same
  · exact (apart.eq_of_joined_eq same.symm).symm

theorem plain_values_same_bytes_iff_nested :
    encode 0 (.list [.bool true, .tuple [.none, .int (-1), .str "a1"]])
      ≠ encode 0 (.list [.bool true, .tuple [.none, .int (-1), .str "a", .int 1]]) := by
  intro same
  have equal := ((plain_values_same_bytes_iff rfl rfl).2.2 (.inl (by decide))).1 same
  simp at equal

/-- Two lists of two numbers, both of which are written `L2123`. -/
theorem different_values_same_fingerprint :
    ∃ v w d e, v.datum? maxDepth = some d ∧ w.datum? maxDepth = some e ∧ d ≠ e
      ∧ encode 0 v = encode 0 w ∧ fingerprint v = fingerprint w := by
  have same : encode 0 (.list [.int 1, .int 23]) = encode 0 (.list [.int 12, .int 3]) :=
    (encode_eq_iff rfl rfl).2 (by decide)
  exact ⟨_, _, _, _, rfl, rfl, by simp, same, congrArg Sha256.hex same⟩

end IdiomLint.Bench
