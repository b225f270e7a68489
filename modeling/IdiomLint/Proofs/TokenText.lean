import IdiomLint.Proofs.Expressions
import IdiomLint.Text.Blank

/-! The text of tokens. Tokens run together only where they can be told apart again: the first token
of a text can be read off it, and so a text has one sequence of tokens. The tokens of an expression
are of that kind. -/
namespace IdiomLint

open Text (isWordChar)

def keywords : List String := ["and", "else", "if", "in", "is", "not", "or"]

def isIdentifier (text : String) : Bool :=
  text != "" && text.toList.all isWordChar && !text.toList.head?.any Char.isDigit
    && !keywords.contains text

namespace Token

def chars : Token → List Char
  | name text => text.toList
  | number value => Nat.toDigits 10 value
  | dotted part => '.' :: part.toList
  | openCall => ['(']
  | closeCall => [')']
  | openIndex => ['[']
  | closeIndex => [']']
  | comma => [',', ' ']
  | sign op => op.symbol.toList
  | not => ['n', 'o', 't', ' ']
  | binary op => ' ' :: (op.symbol.toList ++ [' '])
  | compare op => ' ' :: (op.symbol.toList ++ [' '])
  | ifWord => [' ', 'i', 'f', ' ']
  | elseWord => [' ', 'e', 'l', 's', 'e', ' ']

def fixed : List Token :=
  [openCall, closeCall, openIndex, closeIndex, comma, sign .neg, sign .pos, sign .invert, not, ifWord,
    elseWord]
    ++ BinaryOp.known.map binary
    ++ [CompareOp.eq, .ne, .lt, .le, .gt, .ge, .isIn, .notIn, .is].map compare

/-- Names are identifiers, and there are no other operators than those of the language. -/
def Valid : Token → Prop
  | name text => isIdentifier text
  | number _ => True
  | dotted part => isIdentifier part
  | t => t ∈ fixed

/-- A token that ends in a word, which another word behind it would prolong. -/
def endsWord : Token → Bool
  | name _ | number _ | dotted _ => true
  | _ => false

def startsWord : Token → Bool
  | name _ | number _ | not => true
  | _ => false

def word (cs : List Char) : Token × List Char :=
  if cs.head? = some '.' then
    (.dotted (String.ofList (cs.tail.takeWhile isWordChar)), cs.tail.dropWhile isWordChar)
  else
    let text := cs.takeWhile isWordChar
    let rest := cs.dropWhile isWordChar
    if text.head?.any Char.isDigit then (.number (Nat.ofDigitChars 10 text 0), rest)
    else (.name (String.ofList text), rest)

def first (cs : List Char) : Token × List Char :=
  match fixed.find? fun t => t.chars.isPrefixOf cs with
  | some t => (t, cs.drop t.chars.length)
  | none => word cs

theorem eq_of_prefix_chars : ∀ t ∈ fixed, ∀ u ∈ fixed, t.chars <+: u.chars → t = u := by
  decide +kernel

/-- Only one of them begins like a word, and none with a dot. -/
theorem head?_chars_of_mem : ∀ t ∈ fixed,
    t.chars.head?.any (· != '.') ∧ (t = .not ∨ t.chars.head?.any (!isWordChar ·)) := by
  decide +kernel

section

variable {word rest : List Char}

theorem takeWhile_word (all : ∀ c ∈ word, isWordChar c) (ends : ¬ rest.head?.any isWordChar) :
    (word ++ rest).takeWhile isWordChar = word ∧ (word ++ rest).dropWhile isWordChar = rest := by
  rw [List.takeWhile_append_of_pos all, List.dropWhile_append_of_pos all]
  cases rest with
  | nil => simp
  | cons c rest =>
    have stops : ¬ isWordChar c := by simpa using ends
    simp [stops]

/-- A text that begins with a word other than `not` begins with no fixed token. -/
theorem find?_word (given : word ≠ []) (all : ∀ c ∈ word, isWordChar c)
    (ends : ¬ rest.head?.any isWordChar) (other : word ≠ ['n', 'o', 't']) :
    fixed.find? (fun t => t.chars.isPrefixOf (word ++ rest)) = none := by
  rw [List.find?_eq_none]
  intro t ht begins
  obtain ⟨more, same⟩ := List.isPrefixOf_iff_prefix.1 begins
  rcases (head?_chars_of_mem t ht).2 with rfl | plain
  · refine other ?_
    rw [← (takeWhile_word all ends).1, ← same]
    rfl
  · obtain ⟨c, word, rfl⟩ := List.exists_cons_of_ne_nil given
    cases known : t.chars with
    | nil => simp [known] at plain
    | cons d ds =>
      rw [known] at plain same
      obtain ⟨rfl, -⟩ := List.cons.inj same
      have stops : isWordChar d = false := by simpa using plain
      rw [all d List.mem_cons_self] at stops
      cases stops

theorem first_word (given : word ≠ []) (all : ∀ c ∈ word, isWordChar c)
    (ends : ¬ rest.head?.any isWordChar) (other : word ≠ ['n', 'o', 't']) :
    first (word ++ rest) =
      if word.head?.any Char.isDigit then (.number (Nat.ofDigitChars 10 word 0), rest)
      else (.name (String.ofList word), rest) := by
  have noDot : (word ++ rest).head? ≠ some '.' := by
    obtain ⟨c, word, rfl⟩ := List.exists_cons_of_ne_nil given
    intro dot
    cases Option.some.inj dot
    exact absurd (all '.' List.mem_cons_self) (by decide)
  obtain ⟨taken, dropped⟩ := takeWhile_word all ends
  unfold first
  rw [find?_word given all ends other]
  dsimp only
  rw [Token.word, if_neg noDot]
  dsimp only
  rw [taken, dropped]

end

theorem first_fixed {t : Token} (ht : t ∈ fixed) (rest : List Char) :
    first (t.chars ++ rest) = (t, rest) := by
  have begins : t.chars.isPrefixOf (t.chars ++ rest) :=
    List.isPrefixOf_iff_prefix.2 (List.prefix_append _ _)
  unfold first
  cases found : fixed.find? fun u => u.chars.isPrefixOf (t.chars ++ rest) with
  | none => exact absurd begins (List.find?_eq_none.1 found t ht)
  | some u =>
    have hu := List.mem_of_find?_eq_some found
    have beginsToo : u.chars <+: t.chars ++ rest :=
      List.isPrefixOf_iff_prefix.1 (by simpa using List.find?_some found)
    have same : u = t := by
      rcases List.prefix_or_prefix_of_prefix beginsToo (List.prefix_append _ _) with short | long
      · exact eq_of_prefix_chars u hu t ht short
      · exact (eq_of_prefix_chars t ht u hu long).symm
    rw [same]
    simp

theorem first_dotted {part : String} (all : ∀ c ∈ part.toList, isWordChar c) {rest : List Char}
    (ends : ¬ rest.head?.any isWordChar) :
    first ('.' :: (part.toList ++ rest)) = (.dotted part, rest) := by
  have none : fixed.find? (fun t => t.chars.isPrefixOf ('.' :: (part.toList ++ rest))) = none := by
    rw [List.find?_eq_none]
    intro t ht begins
    obtain ⟨more, same⟩ := List.isPrefixOf_iff_prefix.1 begins
    have plain := (head?_chars_of_mem t ht).1
    cases known : t.chars with
    | nil => simp [known] at plain
    | cons d ds =>
      rw [known] at plain same
      obtain ⟨rfl, -⟩ := List.cons.inj same
      simp at plain
  obtain ⟨taken, dropped⟩ := takeWhile_word all ends
  unfold first
  rw [none]
  dsimp only
  rw [word, if_pos List.head?_cons, List.tail_cons, taken, dropped, String.ofList_toList]

theorem identifier {text : String} (h : isIdentifier text) :
    text.toList ≠ [] ∧ (∀ c ∈ text.toList, isWordChar c)
      ∧ text.toList.head?.any Char.isDigit = false ∧ text.toList ≠ ['n', 'o', 't'] := by
  simp only [isIdentifier, Bool.and_eq_true, bne_iff_ne, List.all_eq_true, Bool.not_eq_true'] at h
  obtain ⟨⟨⟨given, all⟩, digit⟩, noKeyword⟩ := h
  refine ⟨by simpa using given, all, digit, fun same => ?_⟩
  have same : text = "not" := String.toList_injective same
  rw [same] at noKeyword
  exact absurd noKeyword (by decide)

theorem digits (value : Nat) :
    (∀ c ∈ Nat.toDigits 10 value, isWordChar c)
      ∧ (Nat.toDigits 10 value).head?.any Char.isDigit := by
  have digit {c : Char} (hc : c ∈ Nat.toDigits 10 value) : c.isDigit :=
    Nat.isDigit_of_mem_toDigits (by decide) (by decide) hc
  constructor
  · intro c hc
    simp [isWordChar, Char.isAlphanum, digit hc]
  · have given : Nat.toDigits 10 value ≠ [] := Nat.toDigits_ne_nil
    obtain ⟨c, cs, known⟩ := List.exists_cons_of_ne_nil given
    rw [known]
    exact digit (known ▸ List.mem_cons_self)

/-- A text begins with the token that it was begun with, if no word runs on. -/
theorem first_chars {t : Token} (valid : t.Valid) {rest : List Char}
    (ends : t.endsWord → ¬ rest.head?.any isWordChar) : first (t.chars ++ rest) = (t, rest) := by
  cases t
  case name text =>
    obtain ⟨given, all, noDigit, other⟩ := identifier valid
    rw [chars, first_word given all (ends rfl) other, noDigit]
    simp
  case number value =>
    obtain ⟨all, digit⟩ := digits value
    have other : Nat.toDigits 10 value ≠ ['n', 'o', 't'] := fun same => by
      rw [same] at digit
      exact absurd digit (by decide)
    rw [chars, first_word Nat.toDigits_ne_nil all (ends rfl) other, digit,
      Nat.ofDigitChars_ten_toDigits]
    rfl
  case dotted part => exact first_dotted (identifier valid).2.1 (ends rfl)
  all_goals exact first_fixed valid rest

theorem chars_ne_nil {t : Token} (valid : t.Valid) : t.chars ≠ [] := by
  cases t
  case name text => exact (identifier valid).1
  case number value => exact Nat.toDigits_ne_nil
  case sign op =>
    intro none
    have plain := (head?_chars_of_mem _ valid).1
    simp [none] at plain
  all_goals exact List.cons_ne_nil _ _

/-- Only words begin like a word. -/
theorem head?_chars {t : Token} (valid : t.Valid) (plain : t.startsWord = false) :
    t.chars.head?.any isWordChar = false := by
  have other (ht : t ∈ fixed) : t.chars.head?.any isWordChar = false := by
    rcases (head?_chars_of_mem t ht).2 with rfl | begins
    · cases plain
    · cases known : t.chars with
      | nil => rfl
      | cons c cs => simpa [known] using begins
  cases t
  case name => cases plain
  case number => cases plain
  case dotted part => rfl
  all_goals exact other valid

end Token

/-- Tokens whose texts can stand one behind the other: no word runs on into the next. -/
def Separate : List Token → Prop
  | [] => True
  | t :: ts => t.Valid ∧ (t.endsWord → ts.head?.any Token.startsWord = false) ∧ Separate ts

theorem Separate.head? {ts : List Token} (h : Separate ts)
    (plain : ts.head?.any Token.startsWord = false) :
    (ts.flatMap Token.chars).head?.any isWordChar = false := by
  cases ts with
  | nil => rfl
  | cons t ts =>
    obtain ⟨c, cs, known⟩ := List.exists_cons_of_ne_nil (Token.chars_ne_nil h.1)
    have begins := Token.head?_chars h.1 plain
    rw [known] at begins
    rw [List.flatMap_cons, known]
    exact begins

theorem Separate.first {t : Token} {ts : List Token} (h : Separate (t :: ts)) :
    Token.first ((t :: ts).flatMap Token.chars) = (t, ts.flatMap Token.chars) := by
  rw [List.flatMap_cons]
  refine Token.first_chars h.1 fun ends => ?_
  rw [h.2.2.head? (h.2.1 ends)]
  exact Bool.false_ne_true

/-- A text has one sequence of tokens. -/
theorem eq_of_flatMap_chars {ts us : List Token} (hts : Separate ts) (hus : Separate us)
    (same : ts.flatMap Token.chars = us.flatMap Token.chars) : ts = us := by
  induction ts generalizing us with
  | nil =>
    cases us with
    | nil => rfl
    | cons u us => exact absurd (List.append_eq_nil_iff.1 same.symm).1 (Token.chars_ne_nil hus.1)
  | cons t ts ih =>
    cases us with
    | nil => exact absurd (List.append_eq_nil_iff.1 same).1 (Token.chars_ne_nil hts.1)
    | cons u us =>
      have both := hts.first
      rw [same, hus.first] at both
      obtain ⟨rfl, rest⟩ := Prod.mk.inj both
      rw [ih hts.2.2 hus.2.2 rest.symm]

theorem Token.valid_of_mem {t : Token} (ht : t ∈ fixed) : t.Valid ∧ t.endsWord = false := by
  cases t
  case name => simp [fixed] at ht
  case number => simp [fixed] at ht
  case dotted => simp [fixed] at ht
  all_goals exact ⟨ht, rfl⟩

theorem Separate.cons {t : Token} {ts : List Token} (h : Separate ts) (ht : t ∈ Token.fixed) :
    Separate (t :: ts) := by
  obtain ⟨valid, ends⟩ := Token.valid_of_mem ht
  refine ⟨valid, fun word => ?_, h⟩
  rw [ends] at word
  cases word

namespace Expr

inductive Written : Expr → Prop where
  | name {text : String} : isIdentifier text → Written (name text)
  | int {value : Nat} : Written (int value)
  | member {base : Expr} {part : String} : base.Written → isIdentifier part →
      Written (member base part)
  | call {callee : Expr} {args : List Expr} : callee.Written → (∀ a ∈ args, Written a) →
      Written (call callee args)
  | index {base key : Expr} : base.Written → key.Written → Written (index base key)
  | unary {op : UnaryOp} {operand : Expr} : op ∈ UnaryOp.known → operand.Written →
      Written (unary op operand)
  | binary {op : BinaryOp} {left right : Expr} : op ∈ BinaryOp.known → left.Written →
      right.Written → Written (binary op left right)
  | comparison {first : Expr} {rest : List (CompareOp × Expr)} : first.Written →
      (∀ p ∈ rest, p.1 ∈ CompareOp.known) → (∀ p ∈ rest, Written p.2) →
      Written (comparison first rest)
  | conditional {ifTrue condition ifFalse : Expr} : ifTrue.Written → condition.Written →
      ifFalse.Written → Written (conditional ifTrue condition ifFalse)

/-- The tokens of an expression can stand before what does not begin like a word. -/
def Stands (e : Expr) : Prop :=
  ∀ ts, Separate ts → ts.head?.any Token.startsWord = false → Separate (e.tokens ++ ts)

theorem separate_argTokens {args : List Expr} (each : ∀ a ∈ args, a.Stands) {ts : List Token}
    (h : Separate ts) (plain : ts.head?.any Token.startsWord = false) :
    Separate (argTokens args ++ ts) := by
  induction args with
  | nil => exact h
  | cons a args ih =>
    have first := each a List.mem_cons_self
    have more := ih fun b hb => each b (List.mem_cons_of_mem _ hb)
    cases args with
    | nil => exact first ts h plain
    | cons b args =>
      rw [argTokens, List.append_assoc, List.cons_append]
      exact first _ (more.cons (by decide)) rfl

theorem tokens_subset_fixed {op : CompareOp} (known : op ∈ CompareOp.known) :
    ∀ t ∈ op.tokens, t ∈ Token.fixed := by
  revert op
  decide

theorem separate_restTokens {rest : List (CompareOp × Expr)}
    (known : ∀ p ∈ rest, p.1 ∈ CompareOp.known) (each : ∀ p ∈ rest, p.2.Stands) {ts : List Token}
    (h : Separate ts) (plain : ts.head?.any Token.startsWord = false) :
    Separate (restTokens rest ++ ts)
      ∧ (restTokens rest ++ ts).head?.any Token.startsWord = false := by
  induction rest with
  | nil => exact ⟨h, plain⟩
  | cons p rest ih =>
    obtain ⟨op, y⟩ := p
    obtain ⟨more, begins⟩ := ih (fun q hq => known q (List.mem_cons_of_mem _ hq))
      fun q hq => each q (List.mem_cons_of_mem _ hq)
    have operand := each (op, y) List.mem_cons_self _ more begins
    have listed := tokens_subset_fixed (known (op, y) List.mem_cons_self)
    rw [restTokens, List.append_assoc, List.append_assoc]
    cases op
    case isNot =>
      exact ⟨(operand.cons (listed .not (by simp [CompareOp.tokens]))).cons
        (listed (.compare .is) (by simp [CompareOp.tokens])), rfl⟩
    all_goals exact ⟨operand.cons (listed _ (by simp [CompareOp.tokens])), rfl⟩

theorem Written.stands {e : Expr} (h : e.Written) : e.Stands := by
  induction h with
  | name valid => exact fun ts h plain => ⟨valid, fun _ => plain, h⟩
  | int => exact fun ts h plain => ⟨trivial, fun _ => plain, h⟩
  | @member base part _ valid ih =>
    intro ts h plain
    rw [tokens, List.append_assoc]
    exact ih _ ⟨valid, fun _ => plain, h⟩ rfl
  | @call callee args _ _ ih ihArgs =>
    intro ts h plain
    have closed : Separate (.closeCall :: ts) := h.cons (by decide)
    rw [tokens, List.append_assoc, List.cons_append, List.append_assoc]
    exact ih _ ((separate_argTokens ihArgs closed rfl).cons (by decide)) rfl
  | @index base key _ _ ih ihKey =>
    intro ts h plain
    have closed : Separate (.closeIndex :: ts) := h.cons (by decide)
    rw [tokens, List.append_assoc, List.cons_append, List.append_assoc]
    exact ih _ ((ihKey _ closed rfl).cons (by decide)) rfl
  | @unary op operand known _ ih =>
    intro ts h plain
    have listed : op.token ∈ Token.fixed := by
      revert op
      decide
    rw [tokens, List.cons_append]
    exact (ih ts h plain).cons listed
  | @binary op left right known _ _ ihLeft ihRight =>
    intro ts h plain
    have listed : .binary op ∈ Token.fixed := by
      revert op
      decide
    rw [tokens, List.append_assoc, List.cons_append]
    exact ihLeft _ ((ihRight ts h plain).cons listed) rfl
  | @comparison first rest _ known _ ih ihRest =>
    intro ts h plain
    obtain ⟨more, begins⟩ := separate_restTokens known ihRest h plain
    rw [tokens, List.append_assoc]
    exact ih _ more begins
  | @conditional ifTrue condition ifFalse _ _ _ ihTrue ihCondition ihFalse =>
    intro ts h plain
    have otherwise : Separate (.elseWord :: (ifFalse.tokens ++ ts)) :=
      (ihFalse ts h plain).cons (by decide)
    rw [tokens, List.append_assoc, List.cons_append, List.append_assoc, List.cons_append]
    exact ihTrue _ ((ihCondition _ otherwise rfl).cons (by decide)) rfl

theorem Written.separate {e : Expr} (h : e.Written) : Separate e.tokens := by
  have all := h.stands [] trivial rfl
  rwa [List.append_nil] at all

def chars (e : Expr) : List Char := e.tokens.flatMap Token.chars

theorem flatMap_argTokens (args : List Expr) :
    (argTokens args).flatMap Token.chars = [',', ' '].intercalate (args.map chars) := by
  induction args with
  | nil => rfl
  | cons a args ih =>
    cases args with
    | nil => simp [argTokens, chars, List.intercalate]
    | cons b args =>
      rw [argTokens, List.flatMap_append, List.flatMap_cons, ih]
      simp [Token.chars, chars, List.intercalate]

theorem flatMap_tokens {op : CompareOp} (known : op ∈ CompareOp.known) :
    op.tokens.flatMap Token.chars = ' ' :: (op.symbol.toList ++ [' ']) := by
  revert op
  decide

theorem flatMap_restTokens {rest : List (CompareOp × Expr)}
    (known : ∀ p ∈ rest, p.1 ∈ CompareOp.known) :
    (restTokens rest).flatMap Token.chars =
      rest.flatMap fun p => ' ' :: (p.1.symbol.toList ++ ' ' :: p.2.chars) := by
  induction rest with
  | nil => rfl
  | cons p rest ih =>
    obtain ⟨op, e⟩ := p
    rw [restTokens, List.flatMap_append, List.flatMap_append,
      flatMap_tokens (known (op, e) List.mem_cons_self),
      ih fun q hq => known q (List.mem_cons_of_mem _ hq)]
    simp [chars]

end Expr

end IdiomLint
