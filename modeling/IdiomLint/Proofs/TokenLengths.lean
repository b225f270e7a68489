import IdiomLint.Rules.Digests
import Mathlib.Data.List.Basic

/-! How long random tokens are. A token function draws as many bytes as it is asked for and gives
them back, or two digits for each. A slice of a token of the default size is to become a token of
that size: right up to the default size, and if the name at the call tells the function. -/
namespace IdiomLint.Rules.Digests

open Finding

inductive TokenFunction where
  | bytes | hex
deriving DecidableEq

inductive Token where
  | bytes (content : List UInt8)
  | digits (content : List Char)

namespace Token

def length : Token → Nat
  | .bytes content => content.length
  | .digits content => content.length

def take (size : Nat) : Token → Token
  | .bytes content => .bytes (content.take size)
  | .digits content => .digits (content.take size)

/-- Where `[:bound]` cuts what has this length. A negative bound counts from the end. -/
def cut (length : Nat) (bound : Int) : Nat :=
  (if 0 ≤ bound then bound else length + bound).toNat

def upTo (t : Token) (bound : Int) : Token := t.take (cut t.length bound)

theorem cut_of_nonneg {bound : Int} (h : 0 ≤ bound) (length : Nat) :
    cut length bound = bound.toNat := by
  rw [cut, if_pos h]

theorem length_take (t : Token) (size : Nat) : (t.take size).length = min size t.length := by
  cases t with
  | bytes content => exact List.length_take
  | digits content => exact List.length_take

end Token

namespace TokenFunction

def fullname : TokenFunction → String
  | .bytes => "secrets.token_bytes"
  | .hex => "secrets.token_hex"

def hexDigits (drawn : List UInt8) : List Char :=
  drawn.flatMap fun b => [Nat.digitChar (b.toNat / 16), Nat.digitChar (b.toNat % 16)]

def tokenOf : TokenFunction → List UInt8 → Token
  | .bytes, drawn => .bytes drawn
  | .hex, drawn => .digits (hexDigits drawn)

def perByte : TokenFunction → Nat
  | .bytes => 1
  | .hex => 2

theorem length_tokenOf (f : TokenFunction) (drawn : List UInt8) :
    (f.tokenOf drawn).length = f.perByte * drawn.length := by
  cases f with
  | bytes => simp [tokenOf, Token.length, perByte]
  | hex =>
    change (hexDigits drawn).length = 2 * drawn.length
    induction drawn with
    | nil => rfl
    | cons b drawn ih =>
      rw [hexDigits, List.flatMap_cons, List.length_append, ← hexDigits, ih]
      simp only [List.length_cons, List.length_nil]
      omega

theorem fullname_injective : fullname.Injective := by
  intro f g
  cases f <;> cases g <;> simp [fullname]

end TokenFunction

def defaultSize : Nat := 32

def Passed (kind : ArgKind) (name : Option String) : Prop :=
  kind = .pos ∨ kind = .named ∧ name = some "nbytes"

inductive AsksFor : List (CallArg Node) → Nat → Prop
  | omitted : AsksFor [] defaultSize
  | none {arg : Node} {kind : ArgKind} {name : Option String} (passed : Passed kind name)
      (literal : arg.isNoneLiteral) : AsksFor [⟨arg, kind, name⟩] defaultSize
  | number {i : Info} {size : Nat} {kind : ArgKind} {name : Option String}
      (passed : Passed kind name) : AsksFor [⟨⟨i, .int size⟩, kind, name⟩] size

theorem AsksFor.unique {args : List (CallArg Node)} {size size' : Nat} (h : AsksFor args size)
    (h' : AsksFor args size') : size = size' := by
  cases h with
  | omitted => cases h'; rfl
  | none passed literal =>
    cases h' with
    | none => rfl
    | number => cases literal
  | number passed =>
    generalize hn : (size : Int) = number at h'
    cases h' with
    | none passed literal => cases literal
    | number => exact Int.ofNat.inj hn

/-- The tokens that an expression can give. -/
inductive Yields : Node → Token → Prop
  | call {i : Info} {callee : Node} {args : List (CallArg Node)} {analyzed : Option Node}
      {f : TokenFunction} {drawn : List UInt8} (function : callee.refersTo f.fullname)
      (asked : AsksFor args drawn.length) :
      Yields ⟨i, .call callee args analyzed⟩ (f.tokenOf drawn)
  | slice {i j k : Info} {base : Node} {t : Token} {bound : Int} {method : Option Ty}
      {analyzed : Option Node} (token : Yields base t) :
      Yields ⟨i, .index base ⟨j, .slice none (some ⟨k, .int bound⟩) none⟩ method analyzed⟩
        (t.upTo bound)

/-- The expression gives tokens, all of this length. -/
def HasLength (n : Node) (length : Nat) : Prop :=
  (∃ t, Yields n t) ∧ ∀ t, Yields n t → t.length = length

variable {i j k l : Info} {callee : Node} {args : List (CallArg Node)} {method : Option Ty}
  {analyzed analyzed' : Option Node} {f g : TokenFunction} {length : Nat}

theorem function_unique (hf : callee.refersTo f.fullname) (hg : callee.refersTo g.fullname) :
    f = g := by
  rw [Node.refersTo] at hf hg
  cases href : callee.ref? with
  | none => simp [href] at hf
  | some ref =>
    simp only [href, beq_iff_eq] at hf hg
    exact TokenFunction.fullname_injective (hf.symm.trans hg)

theorem hasLength_call_iff (function : callee.refersTo f.fullname) :
    HasLength ⟨i, .call callee args analyzed⟩ length ↔
      ∃ size, AsksFor args size ∧ length = f.perByte * size := by
  constructor
  · rintro ⟨⟨t, yields⟩, all⟩
    have reached := all t yields
    cases yields with
    | call other asked =>
      obtain rfl := function_unique function other
      exact ⟨_, asked, by rw [← reached, TokenFunction.length_tokenOf]⟩
  · rintro ⟨size, asked, rfl⟩
    have drawn : AsksFor args (List.replicate size (0 : UInt8)).length := by simpa using asked
    refine ⟨⟨_, .call function drawn⟩, fun t yields => ?_⟩
    cases yields with
    | call other asked' =>
      obtain rfl := function_unique function other
      rw [TokenFunction.length_tokenOf, asked'.unique asked]

theorem hasLength_slice_iff {bound : Int} (function : callee.refersTo f.fullname) :
    HasLength ⟨i, .index ⟨j, .call callee args analyzed⟩
        ⟨k, .slice none (some ⟨l, .int bound⟩) none⟩ method analyzed'⟩ length ↔
      ∃ size, AsksFor args size ∧
        length = min (Token.cut (f.perByte * size) bound) (f.perByte * size) := by
  constructor
  · rintro ⟨⟨t, yields⟩, all⟩
    have reached := all t yields
    cases yields with
    | slice token =>
      cases token with
      | call other asked =>
        obtain rfl := function_unique function other
        refine ⟨_, asked, ?_⟩
        rw [← reached, Token.upTo, Token.length_take, TokenFunction.length_tokenOf]
  · rintro ⟨size, asked, rfl⟩
    obtain ⟨⟨t, yields⟩, all⟩ := (hasLength_call_iff function).2 ⟨size, asked, rfl⟩
    refine ⟨⟨_, .slice yields⟩, fun u yields => ?_⟩
    cases yields with
    | slice token => rw [Token.upTo, Token.length_take, all _ token]

inductive IsSlicedCall (callee : Node) (args : List (CallArg Node)) (size : Int) : Node → Prop
  | intro {i j k l : Info} {method : Option Ty} {analyzed analyzed' : Option Node} :
    IsSlicedCall callee args size ⟨i, .index ⟨j, .call callee args analyzed⟩
      ⟨k, .slice none (some ⟨l, .int size⟩) none⟩ method analyzed'⟩

/-- Arguments that stand for the default size, and how a report shows them. -/
inductive ShowsDefault : List (CallArg Node) → String → Prop
  | omitted : ShowsDefault [] ""
  | none {arg : Node} {kind : ArgKind} {name : Option String} (literal : arg.isNoneLiteral) :
    ShowsDefault [⟨arg, kind, name⟩] "None"

def sizedCall (callee : Node) (size : Int) : Node :=
  ⟨default, .call callee [⟨⟨default, .int size⟩, .pos, none⟩] none⟩

theorem ShowsDefault.eq_default {shown : String} {size : Nat} (h : ShowsDefault args shown)
    (asked : AsksFor args size) : size = defaultSize := by
  cases h with
  | omitted => cases asked; rfl
  | none literal =>
    cases asked with
    | none => rfl
    | number => cases literal

theorem hasLength_sizedCall_iff {size : Int} (function : callee.refersTo f.fullname) :
    HasLength (sizedCall callee size) length ↔ 0 ≤ size ∧ (length : Int) = f.perByte * size := by
  rw [sizedCall, hasLength_call_iff function]
  constructor
  · rintro ⟨size', asked, rfl⟩
    cases asked with
    | none passed literal => cases literal
    | number passed => exact ⟨Int.natCast_nonneg _, Int.natCast_mul ..⟩
  · rintro ⟨nonneg, reached⟩
    obtain ⟨size, rfl⟩ := Int.eq_ofNat_of_zero_le nonneg
    exact ⟨size, .number (.inl rfl), by exact_mod_cast reached⟩

theorem exists_of_mem_slicedToken {n : Node} {found : Finding} (h : found ∈ slicedToken n) :
    ∃ callee ref, ∃ f : TokenFunction, ∃ args shown size bytes, IsSlicedCall callee args size n ∧
      ShowsDefault args shown ∧ callee.ref? = some ref ∧ ref.fullname = f.fullname ∧
      bytesFor ref.name size = some bytes ∧
      found = replace n (callee.sourceText ++ "(" ++ shown ++ ")[:" ++ toString size ++ "]")
        (callee.sourceText ++ "(" ++ toString bytes ++ ")") := by
  unfold slicedToken at h
  split at h
  case h_2 => simp at h
  case h_1 i j callee args analyzed k l size method analyzed' =>
    cases href : callee.ref? with
    | none => simp [href] at h
    | some ref =>
      simp only [href] at h
      split at h
      case h_2 => simp at h
      case h_1 shown bytes arguments counted =>
        rw [List.mem_ite_nil_right, List.mem_singleton, Bool.or_eq_true, beq_iff_eq, beq_iff_eq]
          at h
        obtain ⟨named, rfl⟩ := h
        have shows : ShowsDefault args shown := by
          rcases args with _ | ⟨⟨arg, kind, name⟩, _ | ⟨second, args⟩⟩
          · obtain rfl := Option.some.inj arguments
            exact .omitted
          · obtain ⟨literal, rfl⟩ : arg.isNoneLiteral = true ∧ "None" = shown := by
              simpa using arguments
            exact .none literal
          · cases arguments
        obtain ⟨f, function⟩ : ∃ f : TokenFunction, ref.fullname = f.fullname := by
          rcases named with hex | bytes
          · exact ⟨.hex, hex⟩
          · exact ⟨.bytes, bytes⟩
        exact ⟨_, ref, f, args, shown, size, bytes, .intro, shows, href, function, counted, rfl⟩

theorem size_of_bytesFor {name : String} {size bytes : Int} (h : bytesFor name size = some bytes) :
    name = "token_hex" ∧ size = 2 * bytes ∨ name ≠ "token_hex" ∧ size = bytes := by
  rw [bytesFor] at h
  by_cases hex : name = "token_hex"
  · have even : ¬size.fmod 2 = 1 ∧ size.fdiv 2 = bytes := by simpa [hex] using h
    rw [Int.fmod_eq_emod_of_nonneg size (by decide), Int.fdiv_eq_ediv_of_nonneg size (by decide)]
      at even
    exact .inl ⟨hex, by omega⟩
  · exact .inr ⟨hex, by simpa [hex] using h⟩

/-- The sizes for which a call has the length of the slice. The last case is a slip that makes up
for another one: half of the digits of a token that has only bytes. -/
theorem length_kept_iff {name : String} {size bytes : Int}
    (counted : bytesFor name size = some bytes) :
    (0 ≤ bytes ∧ (min (Token.cut (f.perByte * defaultSize) size) (f.perByte * defaultSize) : Nat) =
        f.perByte * bytes) ↔
      (0 ≤ size ∧ size ≤ f.perByte * defaultSize ∧ (name = "token_hex" ↔ f = .hex)) ∨ size = 0 ∨
        (f = .bytes ∧ name = "token_hex" ∧ size = 2 * defaultSize) := by
  have given := size_of_bytesFor counted
  -- both sides are false for a negative size: the slice counts from the end, the call is refused
  by_cases nonneg : 0 ≤ size
  · rw [Token.cut_of_nonneg nonneg]
    by_cases hex : name = "token_hex"
    · have half : size = 2 * bytes := by simpa [hex] using given
      cases f with
      | bytes =>
        simp only [TokenFunction.perByte, defaultSize, hex, reduceCtorEq, iff_false,
          not_true_eq_false, and_false, true_and, false_or]
        omega
      | hex =>
        simp only [TokenFunction.perByte, defaultSize, hex, reduceCtorEq, and_true, true_and,
          false_and, or_false]
        omega
    · have whole : size = bytes := by simpa [hex] using given
      cases f with
      | bytes =>
        simp only [TokenFunction.perByte, defaultSize, hex, reduceCtorEq, and_true, false_and,
          and_false, or_false]
        omega
      | hex =>
        simp only [TokenFunction.perByte, defaultSize, hex, reduceCtorEq, iff_true, and_false,
          false_and, or_false, false_or]
        omega
  · have negative : ¬0 ≤ bytes := by omega
    refine ⟨fun h => absurd h.1 negative, ?_⟩
    rintro (⟨h, -⟩ | h | ⟨-, -, h⟩)
    · exact absurd h nonneg
    · omega
    · exact absurd (h ▸ Int.natCast_nonneg (2 * defaultSize)) nonneg

/-- A slice `f()[:size]` that is reported, and the call `f(bytes)` that is to replace it. They are
equally long if the name at the call is the function's own and the size not above the default. For
sizes other than zero, and apart from one coincidence, this is also necessary. -/
theorem sliced_token_length_iff {env : Env} {i : Info} {base key : Node} {method : Option Ty}
    {analyzed : Option Node} {found : Finding}
    (h : found ∈ token env ⟨i, .index base key method analyzed⟩) :
    ∃ callee ref, ∃ f : TokenFunction, ∃ args shown size bytes,
      IsSlicedCall callee args size ⟨i, .index base key method analyzed⟩ ∧
      ShowsDefault args shown ∧ callee.ref? = some ref ∧ ref.fullname = f.fullname ∧
      found = replace ⟨i, .index base key method analyzed⟩
        (callee.sourceText ++ "(" ++ shown ++ ")[:" ++ toString size ++ "]")
        (callee.sourceText ++ "(" ++ toString bytes ++ ")") ∧
      ((∀ a ∈ args, a.kind = .pos) → ∃ length,
        HasLength ⟨i, .index base key method analyzed⟩ length) ∧
      ∀ length, HasLength ⟨i, .index base key method analyzed⟩ length →
        (HasLength (sizedCall callee bytes) length ↔
          (0 ≤ size ∧ size ≤ f.perByte * defaultSize ∧ (ref.name = "token_hex" ↔ f = .hex)) ∨
            size = 0 ∨ (f = .bytes ∧ ref.name = "token_hex" ∧ size = 2 * defaultSize)) := by
  obtain ⟨callee, ref, f, args, shown, size, bytes, sliced, shows, href, resolved, counted, rfl⟩ :=
    exists_of_mem_slicedToken h
  have function : callee.refersTo f.fullname := by simp [Node.refersTo, href, resolved]
  refine ⟨callee, ref, f, args, shown, size, bytes, sliced, shows, href, resolved, rfl, ?_, ?_⟩
  · intro positional
    cases sliced
    refine ⟨_, (hasLength_slice_iff function).2 ⟨defaultSize, ?_, rfl⟩⟩
    cases shows with
    | omitted => exact .omitted
    | none literal => exact .none (.inl (positional _ List.mem_cons_self)) literal
  · intro length long
    cases sliced
    obtain ⟨drawn, asked, rfl⟩ := (hasLength_slice_iff function).1 long
    obtain rfl := shows.eq_default asked
    rw [hasLength_sizedCall_iff function, length_kept_iff counted]

def functionAs (name : String) (f : TokenFunction) : Node :=
  ⟨default, .name ⟨name, f.fullname, none, false⟩ none⟩

def sliceOf (callee : Node) (size : Int) : Node :=
  ⟨default, .index ⟨default, .call callee [] none⟩
    ⟨default, .slice none (some ⟨default, .int size⟩) none⟩ none none⟩

theorem refersTo_functionAs (name : String) (f : TokenFunction) :
    (functionAs name f).refersTo f.fullname := by
  simp [Node.refersTo, Node.ref?, functionAs]

theorem hasLength_sliceOf (name : String) (f : TokenFunction) (size : Nat) :
    HasLength (sliceOf (functionAs name f) size) (min size (f.perByte * defaultSize)) := by
  refine (hasLength_slice_iff (refersTo_functionAs name f)).2 ⟨defaultSize, .omitted, ?_⟩
  rw [Token.cut_of_nonneg (Int.natCast_nonneg size), Int.toNat_natCast]

theorem hasLength_sizedCall (name : String) (f : TokenFunction) (size : Nat) :
    HasLength (sizedCall (functionAs name f) size) (f.perByte * size) :=
  (hasLength_sizedCall_iff (refersTo_functionAs name f)).2
    ⟨Int.natCast_nonneg size, Int.natCast_mul ..⟩

theorem sliced_token_length_iff_eight_digits :
    let env : Env := ⟨.empty, ⟨3, 10⟩, []⟩
    let n := sliceOf (functionAs "token_hex" .hex) 8
    ∃ found callee bytes, found ∈ token env n ∧ IsSlicedCall callee [] 8 n ∧ HasLength n 8 ∧
      HasLength (sizedCall callee bytes) 8 := by
  intro env n
  have reported : replace n "token_hex()[:8]" "token_hex(4)" ∈ token env n := by
    decide +kernel
  obtain ⟨callee, ref, f, args, shown, size, bytes, sliced, shows, href, resolved, -, -, iff⟩ :=
    sliced_token_length_iff reported
  have long : HasLength n 8 := hasLength_sliceOf "token_hex" .hex 8
  cases sliced
  cases href
  obtain rfl : TokenFunction.hex = f := TokenFunction.fullname_injective resolved
  exact ⟨_, _, bytes, reported, .intro, long, (iff 8 long).2 (.inl (by decide))⟩

/-- A token of 40 bytes is to replace one of 32, sixteen digits are to replace eight behind a name
that is not the function's own, and four bytes eight behind the name of the other function. -/
theorem unequal_tokens_suggested :
    let env : Env := ⟨.empty, ⟨3, 10⟩, []⟩
    let long := functionAs "token_bytes" .bytes
    let renamed := functionAs "th" .hex
    let swapped := functionAs "token_hex" .bytes
    (token env (sliceOf long 40) =
        [replace (sliceOf long 40) "token_bytes()[:40]" "token_bytes(40)"] ∧
      HasLength (sliceOf long 40) 32 ∧ HasLength (sizedCall long 40) 40) ∧
    (token env (sliceOf renamed 8) = [replace (sliceOf renamed 8) "th()[:8]" "th(8)"] ∧
      HasLength (sliceOf renamed 8) 8 ∧ HasLength (sizedCall renamed 8) 16) ∧
    (token env (sliceOf swapped 8) =
        [replace (sliceOf swapped 8) "token_hex()[:8]" "token_hex(4)"] ∧
      HasLength (sliceOf swapped 8) 8 ∧ HasLength (sizedCall swapped 4) 4) := by
  intro env long renamed swapped
  refine ⟨⟨by decide +kernel, ?_, ?_⟩, ⟨by decide +kernel, ?_, ?_⟩, ⟨by decide +kernel, ?_, ?_⟩⟩
  · exact hasLength_sliceOf "token_bytes" .bytes 40
  · exact hasLength_sizedCall "token_bytes" .bytes 40
  · exact hasLength_sliceOf "th" .hex 8
  · exact hasLength_sizedCall "th" .hex 8
  · exact hasLength_sliceOf "token_hex" .bytes 8
  · exact hasLength_sizedCall "token_hex" .bytes 4

end IdiomLint.Rules.Digests
