import IdiomLint.Proofs.Evaluation
import IdiomLint.Rules.Strings

/-! Two strips in a row. They do what one strip does that takes the characters of both away, if one
of the two sets of characters contains the other; otherwise a string that alternates between the two
tells them apart. -/
namespace IdiomLint

namespace Evaluation

open Text

section

variable (p q : Char → Bool)

theorem trimEndBy_cons (c : Char) (s : List Char) :
    trimEndBy p (c :: s) =
      if (trimEndBy p s).isEmpty then (if p c then [] else [c]) else c :: trimEndBy p s := by
  simp only [trimEndBy, List.reverse_cons, List.dropWhile_append, List.isEmpty_reverse]
  split
  · simp only [List.dropWhile_cons, List.dropWhile_nil]
    split <;> rfl
  · simp

/-- The two ends can be trimmed in either order. -/
theorem trimEndBy_trimStartBy (s : List Char) :
    trimEndBy p (trimStartBy q s) = trimStartBy q (trimEndBy p s) := by
  induction s with
  | nil => rfl
  | cons c s ih =>
    unfold trimStartBy at ih ⊢
    by_cases hq : q c
    · rw [List.dropWhile_cons_of_pos hq, ih, trimEndBy_cons]
      cases trimEndBy p s with
      | nil => by_cases hp : p c <;> simp [hp, hq]
      | cons d rest => simp [hq]
    · rw [List.dropWhile_cons_of_neg hq, trimEndBy_cons]
      cases trimEndBy p s with
      | nil => by_cases hp : p c <;> simp [hp, hq]
      | cons d rest => simp [hq]

variable {p q}

/-- Trimming more undoes nothing and makes trimming less before or after it needless. -/
theorem trimStartBy_trimStartBy (h : ∀ c, p c → q c) (s : List Char) :
    trimStartBy q (trimStartBy p s) = trimStartBy q s ∧
      trimStartBy p (trimStartBy q s) = trimStartBy q s := by
  unfold trimStartBy
  induction s with
  | nil => exact ⟨rfl, rfl⟩
  | cons c s ih =>
    by_cases hq : q c
    · by_cases hp : p c
      · simpa only [List.dropWhile_cons_of_pos hp, List.dropWhile_cons_of_pos hq] using ih
      · simpa only [List.dropWhile_cons_of_neg hp, List.dropWhile_cons_of_pos hq, true_and]
          using ih.2
    · have hp : ¬ p c := fun hp => hq (h c hp)
      simp only [List.dropWhile_cons_of_neg hp, List.dropWhile_cons_of_neg hq, and_self]

theorem trimEndBy_trimEndBy (h : ∀ c, p c → q c) (s : List Char) :
    trimEndBy q (trimEndBy p s) = trimEndBy q s ∧ trimEndBy p (trimEndBy q s) = trimEndBy q s := by
  have start := trimStartBy_trimStartBy h s.reverse
  unfold trimStartBy at start
  simp only [trimEndBy, List.reverse_reverse, start, and_self]

theorem stripAt_stripAt (h : ∀ c, p c → q c) (ends : Ends) (s : List Char) :
    stripAt ends q (stripAt ends p s) = stripAt ends q s ∧
      stripAt ends p (stripAt ends q s) = stripAt ends q s := by
  cases ends with
  | start => exact trimStartBy_trimStartBy h s
  | finish => exact trimEndBy_trimEndBy h s
  | both =>
    simp only [stripAt, trimBy, trimEndBy_trimStartBy, trimEndBy_trimEndBy h,
      trimStartBy_trimStartBy h, and_self]

/-- Trimming at two different ends trims at both. -/
theorem stripAt_stripAt_of_ne {ends ends' : Ends} (ne : ends ≠ ends') (s : List Char) :
    stripAt ends' p (stripAt ends p s) = stripAt .both p s := by
  have start := trimStartBy_trimStartBy (p := p) (q := p) (fun _ => id)
  have finish := trimEndBy_trimEndBy (p := p) (q := p) (fun _ => id)
  cases ends <;> cases ends' <;>
    first
    | exact absurd rfl ne
    | simp only [stripAt, trimBy, trimEndBy_trimStartBy, start, finish]

end

/-- A string that alternates between two sets of characters is used up by a strip of both sets and
not by one strip after the other. -/
theorem stripAt_alternating {p q : Char → Bool} {x y : Char} (px : p x) (qx : ¬ q x) (py : ¬ p y)
    (qy : q y) (ends : Ends) :
    stripAt ends q (stripAt ends p [y, x, y]) ≠ [] ∧
      stripAt ends (fun c => p c || q c) [y, x, y] = [] := by
  cases ends <;> simp [stripAt, trimBy, trimEndBy, trimStartBy, px, qx, py, qy]

end Evaluation

namespace Rules.Strings

open Evaluation Finding

variable {Item : Type} {V : Valuation Item} {n : Node}

/-- A strip: at which ends, and of which characters if not of blanks. -/
structure Strip where
  ends : Ends
  chars : Option String

namespace Strip

def ofCall? (name : String) (args : List (CallArg Node)) : Option Strip :=
  (TextMethod.ofName? name).bind fun m =>
    match m, args with
    | .strip ends, [] => some ⟨ends, none⟩
    | .strip ends, [⟨⟨_, .str s⟩, _, _⟩] => some ⟨ends, some s⟩
    | _, _ => none

variable (f g : Strip)

def removes (c : Char) : Bool := isStripped (f.chars.map String.toList) c

def run (s : List Char) : List Char := stripAt f.ends f.removes s

def name : String := (TextMethod.strip f.ends).name

def text : String := f.name ++ "(" ++ f.chars.elim "" Text.quoted ++ ")"

def call (i : Info) (base : Node) : Node :=
  ⟨i, .call ⟨i, .member base ⟨f.name, "", none, false⟩⟩
    (f.chars.toList.map fun s => ⟨⟨i, .str s⟩, .pos, none⟩) none⟩

def merged : Strip where
  ends := if f.ends = g.ends then f.ends else .both
  chars := if f.ends = g.ends then f.chars.bind fun a => g.chars.map (combinedChars a) else f.chars

def Merges : Prop := f.chars.isSome = g.chars.isSome ∧ (f.ends ≠ g.ends → f.chars = g.chars)

variable {f g}

theorem mem_combinedChars {a b : String} {c : Char} :
    c ∈ (combinedChars a b).toList ↔ c ∈ a.toList ∨ c ∈ b.toList := by
  simp [combinedChars, List.mem_mergeSort]

theorem ends_merged (same : f.ends = g.ends) : (f.merged g).ends = g.ends :=
  (if_pos same).trans same

theorem Merges.removes_eq (h : f.Merges g) (ne : f.ends ≠ g.ends) : f.removes = g.removes := by
  funext c
  rw [removes, removes, h.2 ne]

theorem removes_merged (h : f.Merges g) (c : Char) :
    (f.merged g).removes c = (f.removes c || g.removes c) := by
  by_cases same : f.ends = g.ends
  · have counts := h.1
    simp only [removes, merged, if_pos same]
    cases hf : f.chars <;> cases hg : g.chars <;> rw [hf, hg] at counts
    case none.none => simp [isStripped]
    case some.some a b =>
      rw [Bool.eq_iff_iff]
      simp [isStripped, mem_combinedChars]
    all_goals cases counts
  · have kept : (f.merged g).removes c = f.removes c := by simp only [removes, merged, if_neg same]
    rw [kept, ← h.removes_eq same, Bool.or_self]

theorem run_merged_of_nested (h : f.Merges g)
    (nested : (∀ c, f.removes c → g.removes c) ∨ (∀ c, g.removes c → f.removes c))
    (s : List Char) : (f.merged g).run s = g.run (f.run s) := by
  by_cases same : f.ends = g.ends
  · unfold run
    rw [ends_merged same, same]
    rcases nested with inside | inside
    · have all : (f.merged g).removes = g.removes := by
        funext c
        have := inside c
        grind [removes_merged h c]
      rw [all, (stripAt_stripAt inside g.ends s).1]
    · have all : (f.merged g).removes = f.removes := by
        funext c
        have := inside c
        grind [removes_merged h c]
      rw [all, (stripAt_stripAt inside g.ends s).2]
  · have ends : (f.merged g).ends = .both := by simp only [merged, if_neg same]
    have all : (f.merged g).removes = f.removes := by
      funext c
      rw [removes_merged h, ← h.removes_eq same, Bool.or_self]
    unfold run
    rw [ends, all, ← h.removes_eq same, stripAt_stripAt_of_ne same]

theorem run_merged_iff (h : f.Merges g) :
    (∀ s, (f.merged g).run s = g.run (f.run s)) ↔
      (∀ c, f.removes c → g.removes c) ∨ (∀ c, g.removes c → f.removes c) := by
  refine ⟨fun equal => ?_, run_merged_of_nested h⟩
  by_contra apart
  push Not at apart
  obtain ⟨⟨x, fx, gx⟩, y, gy, fy⟩ := apart
  -- Only strips at the same ends can differ in their characters, and `yxy` tells these apart.
  have same : f.ends = g.ends := by
    by_contra ne
    exact gx (h.removes_eq ne ▸ fx)
  have alternating := stripAt_alternating fx gx fy gy g.ends
  have all : (f.merged g).removes = fun c => f.removes c || g.removes c :=
    funext (removes_merged h)
  have used := equal [y, x, y]
  rw [run, ends_merged same, all, alternating.2, run, run, same] at used
  exact alternating.1 used.symm

end Strip

theorem exists_ends {name : String} (h : stripFunctions.contains name) :
    ∃ ends, name = (TextMethod.strip ends).name := by
  have known : name = "lstrip" ∨ name = "rstrip" ∨ name = "strip" := by
    simpa [stripFunctions] using h
  rcases known with rfl | rfl | rfl
  exacts [⟨.start, rfl⟩, ⟨.finish, rfl⟩, ⟨.both, rfl⟩]

theorem ofName?_strip (ends : Ends) :
    TextMethod.ofName? (TextMethod.strip ends).name = some (.strip ends) := by
  cases ends <;> decide

theorem strip_name_beq (ends ends' : Ends) :
    ((TextMethod.strip ends).name == (TextMethod.strip ends').name) = decide (ends = ends') := by
  cases ends <;> cases ends' <;> decide

theorem text_nil (ends : Ends) :
    (Strip.mk ends none).text = (TextMethod.strip ends).name ++ "()" := by
  cases ends <;> rfl

/-- Two strips are replaced by the merged one. -/
theorem exists_strips {ends ends' : Ends} {args args' : List (CallArg Node)} {call : String}
    (h : singleStrip? (TextMethod.strip ends).name (TextMethod.strip ends').name args args' =
      some call) :
    ∃ f g : Strip, Strip.ofCall? (TextMethod.strip ends).name args = some f ∧
      Strip.ofCall? (TextMethod.strip ends').name args' = some g ∧ f.Merges g ∧
      call = (f.merged g).text := by
  unfold singleStrip? at h
  rw [strip_name_beq] at h
  simp only [Strip.ofCall?, ofName?_strip, Option.bind_some]
  split at h
  case h_1 =>
    refine ⟨⟨ends, none⟩, ⟨ends', none⟩, rfl, rfl, ⟨rfl, fun _ => rfl⟩, ?_⟩
    cases h
    have merged : (Strip.mk ends none).merged ⟨ends', none⟩ =
        ⟨if ends = ends' then ends else .both, none⟩ := by simp [Strip.merged]
    rw [merged, text_nil]
    simp only [decide_eq_true_eq]
    split <;> rfl
  case h_2 i a kind name j b kind' name' =>
    refine ⟨⟨ends, some a⟩, ⟨ends', some b⟩, rfl, rfl, ?_⟩
    by_cases same : ends = ends'
    · rw [if_pos (decide_eq_true same)] at h
      cases h
      refine ⟨⟨rfl, fun ne => absurd same ne⟩, ?_⟩
      simp only [Strip.merged, Strip.text, Strip.name, if_pos same]
      rfl
    · rw [if_neg (by simpa using same), Option.ite_none_right_eq_some, beq_iff_eq] at h
      obtain ⟨rfl, shown⟩ := h
      cases shown
      refine ⟨⟨rfl, fun _ => rfl⟩, ?_⟩
      simp only [Strip.merged, Strip.text, Strip.name, if_neg same]
      rfl
  case h_3 => cases h

def chain? : Node → Option (Node × Strip × Strip)
  | ⟨_, .call ⟨_, .member ⟨_, .call ⟨_, .member base first⟩ args _⟩ second⟩ args' _⟩ =>
    (Strip.ofCall? first.name args).bind fun f =>
      (Strip.ofCall? second.name args').map fun g => (base, f, g)
  | _ => none

theorem exists_chain_of_mem {env : Env} {f : Finding} (hf : f ∈ doubleStrip env n) :
    ∃ (i j k l : Info) (base : Node) (first second : Ref) (args args' : List (CallArg Node))
      (analyzed analyzed' : Option Node) (g h : Strip),
      n = ⟨i, .call ⟨j, .member ⟨k, .call ⟨l, .member base first⟩ args analyzed⟩ second⟩ args'
        analyzed'⟩ ∧
      Strip.ofCall? first.name args = some g ∧ Strip.ofCall? second.name args' = some h ∧
      g.Merges h ∧ f = replace n n.sourceText (base.sourceText ++ "." ++ (g.merged h).text) := by
  unfold doubleStrip at hf
  split at hf
  case h_1 i j k l base first args analyzed second args' analyzed' =>
    rw [List.mem_ite_nil_right, Bool.and_eq_true, Bool.and_eq_true] at hf
    obtain ⟨⟨⟨isFirst, isSecond⟩, -⟩, hf⟩ := hf
    obtain ⟨ends, named⟩ := exists_ends isFirst
    obtain ⟨ends', named'⟩ := exists_ends isSecond
    split at hf
    case h_1 call single =>
      rw [named, named'] at single
      obtain ⟨g, h, hg, hh, merges, rfl⟩ := exists_strips single
      exact ⟨i, j, k, l, base, first, second, args, args', analyzed, analyzed', g, h, rfl,
        named ▸ hg, named' ▸ hh, merges, List.mem_singleton.1 hf⟩
    case h_2 => cases hf
  case h_2 => cases hf

theorem eval_strip {i j : Info} {base : Node} {ref : Ref} {args : List (CallArg Node)}
    {analyzed : Option Node} (plain : V.Plain ⟨i, .call ⟨j, .member base ref⟩ args analyzed⟩)
    {f : Strip} (h : Strip.ofCall? ref.name args = some f) {s : List Char}
    (hs : V.eval base = some (.text s)) :
    V.eval ⟨i, .call ⟨j, .member base ref⟩ args analyzed⟩ = some (.text (f.run s)) := by
  rw [Strip.ofCall?, Option.bind_eq_some_iff] at h
  obtain ⟨m, known, h⟩ := h
  have method := plain.callee.eval_method hs known
  have taken := plain.takes method
  split at h
  case h_1 ends =>
    cases h
    rw [V.eval_call_nil i method]
    rfl
  case h_2 ends k chars kind name =>
    cases h
    have position : kind = .pos := by simpa [Value.takes] using taken
    subst position
    rw [V.eval_call_single i method (V.eval_str k chars)]
    rfl
  case h_3 => cases h

theorem Strip.eval_call (f : Strip) (i : Info) {base : Node} {s : List Char}
    (hs : V.eval base = some (.text s)) : V.eval (f.call i base) = some (.text (f.run s)) := by
  have method : V.eval ⟨i, .member base ⟨f.name, "", none, false⟩⟩ =
      some (.textMethod s (.strip f.ends)) := by
    have free : Builtin.ofFullname? "" = none := by decide
    rw [V.eval_member i free, hs]
    simp [Value.method?, Strip.name, ofName?_strip]
  obtain ⟨ends, chars⟩ := f
  cases chars with
  | none => exact V.eval_call_nil i method none
  | some a => exact V.eval_call_single i method (V.eval_str i a) none none

/-- One strip is suggested for two. It does the same to every string if and only if one of the two
sets of characters contains the other. -/
theorem strip_chain_same_iff {env : Env} {f : Finding} (hf : f ∈ doubleStrip env n) :
    ∃ base g h, chain? n = some (base, g, h) ∧
      f = replace n n.sourceText (base.sourceText ++ "." ++ (g.merged h).text) ∧
      (∀ (Item : Type) (V : Valuation Item) (s : List Char), V.Plain n →
        V.eval base = some (.text s) →
        V.eval n = some (.text (h.run (g.run s))) ∧
        V.eval ((g.merged h).call n.info base) = some (.text ((g.merged h).run s))) ∧
      ((∀ s, (g.merged h).run s = h.run (g.run s)) ↔
        (∀ c, g.removes c → h.removes c) ∨ (∀ c, h.removes c → g.removes c)) := by
  obtain ⟨i, j, k, l, base, first, second, args, args', analyzed, analyzed', g, h, rfl, hg, hh,
    merges, rfl⟩ := exists_chain_of_mem hf
  refine ⟨base, g, h, ?_, rfl, ?_, Strip.run_merged_iff merges⟩
  · change (Strip.ofCall? first.name args).bind
      (fun f => (Strip.ofCall? second.name args').map _) = _
    rw [hg, hh]
    rfl
  · intro Item V s plain hs
    have inner := eval_strip plain.callee.base hg hs
    exact ⟨eval_strip plain hh inner, (g.merged h).eval_call i hs⟩

/-- `text.lstrip(a).lstrip(b)`, where the text is a literal. -/
def twoStrips (text a b : String) : Node :=
  let strip (base : Node) (chars : String) : Node :=
    ⟨default, .call ⟨default, .member base ⟨"lstrip", "", none, false⟩⟩
      [⟨⟨default, .str chars⟩, .pos, none⟩] none⟩
  strip (strip ⟨default, .str text⟩ a) b

def textEnv : Env where
  table := ⟨∅, (∅ : Std.HashMap String SymbolId).insert "str" "builtins.str"⟩
  version := ⟨3, 10⟩
  files := []

theorem isText_str (i : Info) (s : String) : textEnv.isText ⟨i, .str s⟩ := by
  have known : textEnv.typeOf ⟨i, .str s⟩ =
      some (.type (.inst ⟨"builtins.str", "builtins.str"⟩ [])) := by
    change textEnv.table.builtinType "str" = _
    simp [textEnv, SymbolTable.builtinType, SymbolTable.builtinClass?, SymbolTable.classInfo?,
      SymbolTable.get, ClassInfo.bare]
  have size : textEnv.table.symbols.size = 0 := by simp [textEnv]
  rw [Env.isText, Env.hasType, known, SymbolTable.hasAnyType]
  simp only [List.any_cons, List.any_nil, SymbolTable.hasType, size]
  decide +kernel

theorem exists_mem_doubleStrip (text a b : String) :
    ∃ f, f ∈ doubleStrip textEnv (twoStrips text a b) := by
  have found : ∃ f, doubleStrip textEnv (twoStrips text a b) =
      if textEnv.isText ⟨default, .str text⟩ then [f] else [] := ⟨_, rfl⟩
  obtain ⟨f, found⟩ := found
  exact ⟨f, by rw [found, if_pos (isText_str default text)]; exact List.mem_singleton.2 rfl⟩

theorem strip_chain_same_iff_nested :
    let n := twoStrips "bac" "a" "ab"
    let V : Valuation Int := .ofTable []
    ∃ f g h, f ∈ doubleStrip textEnv n ∧ chain? n = some (⟨default, .str "bac"⟩, g, h) ∧
      V.Plain n ∧ V.eval n = some (.text ['c']) ∧
      V.eval ((g.merged h).call default ⟨default, .str "bac"⟩) = V.eval n ∧
      ∀ s, (g.merged h).run s = h.run (g.run s) := by
  intro n V
  obtain ⟨f, hf⟩ := exists_mem_doubleStrip "bac" "a" "ab"
  obtain ⟨base, g, h, chain, -, values, iff⟩ := strip_chain_same_iff hf
  have plain : V.Plain n := Valuation.plain_of_allDownTo 6 (by decide +kernel)
  cases chain
  have nested : ∀ c, (Strip.mk .start (some "a")).removes c →
      (Strip.mk .start (some "ab")).removes c := by
    intro c hc
    obtain rfl : c = 'a' := by simpa [Strip.removes, isStripped] using hc
    decide
  obtain ⟨reported, suggested⟩ := values Int V "bac".toList plain rfl
  have same := iff.2 (.inl nested)
  exact ⟨f, _, _, hf, rfl, plain, reported, suggested.trans (by rw [same, reported]), same⟩

/-- A strip of `x` and then of `y` stops at the `x` of `yxy`, and a strip of both does not. -/
theorem alternating_strip_chain_reported :
    let n := twoStrips "yxy" "x" "y"
    let V : Valuation Int := .ofTable []
    ∃ f g h, f ∈ doubleStrip textEnv n ∧ chain? n = some (⟨default, .str "yxy"⟩, g, h) ∧
      V.eval n = some (.text ['x', 'y']) ∧
      V.eval ((g.merged h).call default ⟨default, .str "yxy"⟩) = some (.text []) := by
  intro n V
  obtain ⟨f, hf⟩ := exists_mem_doubleStrip "yxy" "x" "y"
  refine ⟨f, ⟨.start, some "x"⟩, ⟨.start, some "y"⟩, hf, rfl, by decide +kernel, ?_⟩
  have merges : (Strip.mk .start (some "x")).Merges ⟨.start, some "y"⟩ :=
    ⟨rfl, fun ne => absurd rfl ne⟩
  rw [Strip.eval_call _ _ (V.eval_str default "yxy"), Strip.run,
    funext (Strip.removes_merged merges)]
  decide

end Rules.Strings

end IdiomLint
