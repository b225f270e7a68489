import IdiomLint.Proofs.Evaluation
import IdiomLint.Rules.Containers

/-! The first and the last item of a sorted list. A sort is stable, so the first item is the first
of the least ones, which is what `min` and `max` give; the last item is the last of the greatest. -/
namespace IdiomLint

namespace Evaluation

section

variable {α : Type}

/-- The items that are at most every item, as they stand in the list. -/
def leastItems (atMost : α → α → Bool) (xs : List α) : List α :=
  xs.filter fun x => xs.all (atMost x)

/-- An order in which different items can be equal. -/
structure IsOrder (atMost : α → α → Bool) : Prop where
  trans : ∀ x y z, atMost x y → atMost y z → atMost x z
  total : ∀ x y, atMost x y || atMost y x

namespace IsOrder

variable {atMost : α → α → Bool} (order : IsOrder atMost)
include order

theorem flip : IsOrder fun x y => atMost y x where
  trans x y z h h' := order.trans z y x h' h
  total x y := order.total y x

theorem refl (x : α) : atMost x x := by simpa using order.total x x

variable (xs : List α)

/-- Items that are equal in the order come out of a sort as they went in. -/
theorem filter_mergeSort {p : α → Bool} (tied : ∀ x ∈ xs, ∀ y ∈ xs, p x → p y → atMost x y) :
    (xs.mergeSort atMost).filter p = xs.filter p := by
  have sorted : (xs.filter p).Pairwise (atMost · ·) :=
    List.pairwise_of_forall_mem_list fun x hx y hy =>
      tied x (List.mem_filter.1 hx).1 y (List.mem_filter.1 hy).1 (List.mem_filter.1 hx).2
        (List.mem_filter.1 hy).2
  have kept : (xs.filter p).Sublist (xs.mergeSort atMost) :=
    List.sublist_mergeSort order.trans order.total sorted List.filter_sublist
  have inside : (xs.filter p).Sublist ((xs.mergeSort atMost).filter p) := by
    simpa using kept.filter p
  exact (inside.eq_of_length ((List.mergeSort_perm xs atMost).filter p).length_eq.symm).symm

theorem head?_mergeSort : (xs.mergeSort atMost).head? = (leastItems atMost xs).head? := by
  have same := List.mergeSort_perm xs atMost
  have sorted := List.pairwise_mergeSort order.trans order.total xs
  -- The least items come out of the sort in their order, and at its front.
  rw [leastItems, ← order.filter_mergeSort xs fun x _ y hy least _ => List.all_eq_true.1 least y hy]
  cases shown : xs.mergeSort atMost with
  | nil => rfl
  | cons x rest =>
    rw [shown] at same sorted
    have least : xs.all (atMost x) := by
      rw [List.all_eq_true]
      intro y hy
      rcases List.mem_cons.1 (same.mem_iff.2 hy) with rfl | hy
      · exact order.refl y
      · exact (List.pairwise_cons.1 sorted).1 y hy
    simp only [List.filter_cons, least, if_true, List.head?_cons]

theorem getLast?_mergeSort :
    (xs.mergeSort atMost).getLast? = (leastItems (fun x y => atMost y x) xs).getLast? := by
  have same := List.mergeSort_perm xs atMost
  have sorted := List.pairwise_mergeSort order.trans order.total xs
  rw [leastItems, ← order.filter_mergeSort xs fun x hx y _ _ most => List.all_eq_true.1 most x hx]
  rcases List.eq_nil_or_concat (xs.mergeSort atMost) with shown | ⟨rest, x, shown⟩
  · rw [shown]
    rfl
  · rw [List.concat_eq_append] at shown
    rw [shown] at same sorted ⊢
    have most : xs.all fun y => atMost y x := by
      rw [List.all_eq_true]
      intro y hy
      rcases List.mem_append.1 (same.mem_iff.2 hy) with hy | hy
      · exact (List.pairwise_append.1 sorted).2.2 y hy x (List.mem_singleton.2 rfl)
      · obtain rfl := List.mem_singleton.1 hy
        exact order.refl y
    simp only [List.filter_append, List.filter_cons, most, if_true, List.filter_nil,
      List.getLast?_append, List.getLast?_singleton, Option.some_or]

/-- Of the first two items, only the lesser one counts. -/
theorem find?_least_cons_cons (x y : α) :
    (x :: y :: xs).find? (fun z => (x :: y :: xs).all (atMost z)) =
      ((if atMost x y then x else y) :: xs).find? fun z =>
        ((if atMost x y then x else y) :: xs).all (atMost z) := by
  have agree (z : α) : ((if atMost x y then x else y) :: xs).all (atMost z) =
      (x :: y :: xs).all (atMost z) := by
    have total := order.total x y
    have viaX := order.trans z x y
    have viaY := order.trans z y x
    simp only [List.all_cons]
    grind
  simp only [agree]
  split
  -- If `x` is kept and `y` is least, so is `x`, which comes first.
  case isTrue least =>
    have before : (x :: y :: xs).all (atMost y) → (x :: y :: xs).all (atMost x) := by
      simp only [List.all_eq_true]
      exact fun h z hz => order.trans x y z least (h z hz)
    rw [List.find?_cons, List.find?_cons, List.find?_cons]
    cases first : (x :: y :: xs).all (atMost x) with
    | true => rfl
    | false =>
      have second : (x :: y :: xs).all (atMost y) = false := by
        simpa only [first, imp_false, Bool.not_eq_true, Bool.false_eq_true] using before
      rw [second]
  case isFalse greater =>
    have after : (x :: y :: xs).all (atMost x) = false := by simp [greater]
    rw [List.find?_cons, after]

theorem firstLeast?_eq_head? : firstLeast? atMost xs = (leastItems atMost xs).head? := by
  rw [leastItems, List.head?_filter]
  cases xs with
  | nil => rfl
  | cons x xs =>
    induction xs generalizing x with
    | nil => simp [firstLeast?, order.refl]
    | cons y ys ih =>
      rw [order.find?_least_cons_cons ys x y, ← ih]
      rfl

end IsOrder

theorem itemAt?_zero (xs : List α) : itemAt? xs 0 = xs.head? := by
  simp [itemAt?, List.head?_eq_getElem?]

theorem itemAt?_neg_one (xs : List α) : itemAt? xs (-1) = xs.getLast? := by
  cases xs with
  | nil => rfl
  | cons x rest =>
    have place : ((x :: rest).length : Int) + (-1) = rest.length := by
      rw [List.length_cons]
      omega
    rw [itemAt?, if_neg (by decide), place, if_pos (by omega), List.getLast?_eq_getElem?]
    rfl

end

end Evaluation

namespace Rules.Containers

open Evaluation Finding

variable {Item : Type} {V : Valuation Item} {n : Node}

def nextKey (key : Option Node) (a : CallArg Node) : Option Node :=
  if a.name = some "key" then some a.value else key

def lastKey (options : List (CallArg Node)) : Option Node := options.foldl nextKey none

def keyText (key : Option Node) : String := key.elim "" fun k => ", key=" ++ k.sourceText

/-- The text takes an option over as the values do. -/
theorem sortKeyword?_eq_some {key : Option Node} {b : Bool} {a : CallArg Node}
    {state : Bool × String} (h : sortKeyword? (b, keyText key) a = some state) :
    ∃ b', state = (b', keyText (nextKey key a)) ∧ a.name.isSome ∧
      ∀ (Item : Type) (V : Valuation Item) (v : Value Item), V.eval a.value = some v →
        V.withSortOption? (key.bind V.eval, b) (a.name, v) =
          some ((nextKey key a).bind V.eval, b') := by
  unfold sortKeyword? at h
  split at h
  case h_1 named =>
    rw [Option.ite_none_right_eq_some] at h
    have kept : nextKey key a = key := by simp [nextKey, named]
    refine ⟨true, by rw [kept]; exact (Option.some.inj h.2).symm, by simp [named], ?_⟩
    intro Item V v hv
    have literal : V.eval a.value = some (.truth true) := V.eval_of_isNameOf rfl h.1
    rw [literal] at hv
    cases hv
    rw [named, kept]
    rfl
  case h_2 named =>
    have changed : nextKey key a = some a.value := by simp [nextKey, named]
    refine ⟨b, by rw [changed]; exact (Option.some.inj h).symm, by simp [named], ?_⟩
    intro Item V v hv
    rw [named, changed, Option.bind_some, hv]
    rfl
  case h_3 => cases h

theorem sortKeywords?_eq_some {options : List (CallArg Node)} {backwards : Bool} {by_ : String}
    (h : sortKeywords? options = some (backwards, by_)) :
    by_ = keyText (lastKey options) ∧ ∀ (Item : Type) (V : Valuation Item),
      (∀ a ∈ options, a.kind = .named) → (∀ a ∈ options, ∃ v, V.eval a.value = some v) →
        options.all isSingle ∧ ∃ vs, V.evalArgs options = some vs ∧
          V.sortOptions? vs = some ((lastKey options).bind V.eval, backwards) := by
  unfold sortKeywords? at h
  -- What the options so far have set is carried along, in the text and in the values.
  suffices ∀ (key : Option Node) (b : Bool), options.foldlM sortKeyword? (b, keyText key) =
      some (backwards, by_) → by_ = keyText (options.foldl nextKey key) ∧
      ∀ (Item : Type) (V : Valuation Item), (∀ a ∈ options, a.kind = .named) →
        (∀ a ∈ options, ∃ v, V.eval a.value = some v) →
        options.all isSingle ∧ ∃ vs, V.evalArgs options = some vs ∧
          vs.foldlM V.withSortOption? (key.bind V.eval, b) =
            some ((options.foldl nextKey key).bind V.eval, backwards) from this none false h
  clear h
  induction options with
  | nil =>
    intro key b h
    cases h
    exact ⟨rfl, fun Item V _ _ => ⟨rfl, [], rfl, rfl⟩⟩
  | cons a rest ih =>
    intro key b h
    rw [List.foldlM_cons, Option.bind_eq_bind, Option.bind_eq_some_iff] at h
    obtain ⟨state, taken, h⟩ := h
    obtain ⟨b', rfl, isNamed, value⟩ := sortKeyword?_eq_some taken
    obtain ⟨text, values⟩ := ih (nextKey key a) b' h
    refine ⟨text, fun Item V kinds evaluated => ?_⟩
    rw [List.forall_mem_cons] at kinds evaluated
    obtain ⟨v, hv⟩ := evaluated.1
    obtain ⟨single, vs, hvs, folded⟩ := values Item V kinds.2 evaluated.2
    refine ⟨by simp [isSingle, kinds.1, isNamed, single], (a.name, v) :: vs, ?_, ?_⟩
    · rw [V.evalArgs_cons hv hvs a.kind a.name, kinds.1]
      rfl
    · rw [List.foldlM_cons, value Item V v hv]
      exact folded

theorem exists_of_lastKey_eq_some {options : List (CallArg Node)} {k : Node}
    (h : lastKey options = some k) : ∃ a ∈ options, a.value = k := by
  suffices ∀ key, options.foldl nextKey key = some k → key = some k ∨ ∃ a ∈ options, a.value = k by
    simpa using this none h
  clear h
  induction options with
  | nil => exact fun key h => .inl h
  | cons a rest ih =>
    intro key h
    rcases ih (nextKey key a) h with same | ⟨b, hb, rfl⟩
    · unfold nextKey at same
      split at same
      · exact .inr ⟨a, List.mem_cons_self, Option.some.inj same⟩
      · exact .inl same
    · exact .inr ⟨b, List.mem_cons_of_mem a hb, rfl⟩

theorem eval_of_isFirst? {index : Node} {first : Bool} (h : isFirst? index = some first) :
    V.eval index = some (.number (if first then 0 else -1)) := by
  unfold isFirst? at h
  split at h
  case h_1 i k =>
    rw [Option.ite_none_right_eq_some] at h
    obtain ⟨zero, same⟩ := h
    cases same
    rw [V.eval_int, eq_of_beq zero]
    rfl
  case h_2 i j k method =>
    rw [Option.ite_none_right_eq_some] at h
    obtain ⟨one, same⟩ := h
    cases same
    rw [eq_of_beq one]
    rfl
  case h_3 => cases h

/-- What is sorted and how, and whether the first or the last item is taken. -/
structure Pick where
  source : Node
  options : List (CallArg Node)
  first : Bool
  backwards : Bool

def pick? : Node → Option Pick
  | ⟨_, .index ⟨_, .call _ (⟨source, _, _⟩ :: options) _⟩ index _ _⟩ =>
    (isFirst? index).bind fun first =>
      (sortKeywords? options).map fun keywords => ⟨source, options, first, keywords.1⟩
  | _ => none

namespace Pick

variable (p : Pick)

def key : Option Node := lastKey p.options

def isMax : Bool := p.first == p.backwards

def function : Builtin := if p.isMax then .max else .min

def name : String := if p.isMax then "max" else "min"

def text : String := p.name ++ "(" ++ p.source.sourceText ++ keyText p.key ++ ")"

def call (i : Info) : Node :=
  ⟨i, .call ⟨i, .name ⟨p.name, p.function.fullname, none, false⟩ none⟩
    (⟨p.source, .pos, none⟩ :: p.key.toList.map fun k => ⟨k, .named, some "key"⟩) none⟩

/-- The order of the items, under the key. -/
def atMost (V : Valuation Item) : Item → Item → Bool := V.atMost (p.key.bind V.eval)

/-- The least items, or the greatest ones if the suggestion is `max`. -/
def extremes (V : Valuation Item) (xs : List Item) : List Item :=
  leastItems (if p.isMax then fun x y => p.atMost V y x else p.atMost V) xs

variable {p} {v : Value Item} {xs : List Item} (hv : V.eval p.source = some v)
  (hxs : V.items? v = some xs) (evaluated : ∀ a ∈ p.options, ∃ w, V.eval a.value = some w)
  (order : IsOrder (p.atMost V))
include hv hxs evaluated order

theorem eval_call (i : Info) : V.eval (p.call i) = (p.extremes V xs).head?.map V.ofItem := by
  have called : V.eval ⟨i, .name ⟨p.name, p.function.fullname, none, false⟩ none⟩ =
      some (.function p.function) := V.eval_of_refersTo (beq_self_eq_true _)
  obtain ⟨vs, hvs, key⟩ :
      ∃ vs, V.evalArgs (p.key.toList.map fun k => ⟨k, .named, some "key"⟩) = some vs ∧
        Valuation.keyOption? vs = some (p.key.bind V.eval) := by
    cases hk : p.key with
    | none => exact ⟨[], rfl, rfl⟩
    | some k =>
      obtain ⟨a, ha, rfl⟩ := exists_of_lastKey_eq_some hk
      obtain ⟨w, hw⟩ := evaluated a ha
      refine ⟨_, V.evalArgs_cons hw rfl .named (some "key"), ?_⟩
      rw [Option.bind_some, hw]
      rfl
  have args := V.evalArgs_cons hv hvs .pos none
  refine (V.eval_call i (by simp [isSingle]) called args none).trans ?_
  unfold extremes function
  cases p.isMax with
  | true =>
    exact (Valuation.apply_max hxs key _).trans
      (congrArg (Option.map V.ofItem) (order.flip.firstLeast?_eq_head? xs))
  | false =>
    exact (Valuation.apply_min hxs key _).trans
      (congrArg (Option.map V.ofItem) (order.firstLeast?_eq_head? xs))

theorem eval_sorted_item {i j : Info} {callee index : Node} {kind : ArgKind} {name : Option String}
    {method : Option Ty} {analyzed analyzed' : Option Node} {by_ : String}
    (hn : n = ⟨i, .index ⟨j, .call callee (⟨p.source, kind, name⟩ :: p.options) analyzed⟩ index
      method analyzed'⟩)
    (sorted : callee.isNameOf "builtins.sorted") (place : isFirst? index = some p.first)
    (keywords : sortKeywords? p.options = some (p.backwards, by_)) (plain : V.Plain n) :
    V.eval n = (if p.first then (p.extremes V xs).head? else (p.extremes V xs).getLast?).map
      V.ofItem := by
  have callWithin :
      Node.Within ⟨j, .call callee (⟨p.source, kind, name⟩ :: p.options) analyzed⟩ n :=
    Node.within_of_mem (by rw [hn]; simp [Node.children])
  have called : V.eval callee = some (.function .sorted) := V.eval_of_isNameOf rfl sorted
  have taken : kind = .pos ∧ ∀ a ∈ p.options, a.kind = .named := by
    simpa [Value.takes] using (plain.within callWithin).takes called
  obtain ⟨rfl, named⟩ := taken
  obtain ⟨single, vs, hvs, options⟩ := (sortKeywords?_eq_some keywords).2 Item V named evaluated
  have sortedList : V.eval ⟨j, .call callee (⟨p.source, .pos, name⟩ :: p.options) analyzed⟩ =
      some (.container .list (sortedBy (p.atMost V) p.backwards xs)) :=
    (V.eval_call j (by simpa [isSingle] using single) called
      (V.evalArgs_cons hv hvs .pos name) analyzed).trans (Valuation.apply_sorted hxs options _)
  have item : V.eval n = (if p.first then (sortedBy (p.atMost V) p.backwards xs).head?
      else (sortedBy (p.atMost V) p.backwards xs).getLast?).map V.ofItem := by
    rw [hn, V.eval_index, sortedList, eval_of_isFirst? place]
    cases p.first with
    | true => exact congrArg (Option.map V.ofItem) (itemAt?_zero _)
    | false => exact congrArg (Option.map V.ofItem) (itemAt?_neg_one _)
  rw [item, extremes, isMax, sortedBy]
  cases p.first <;> cases p.backwards
  · exact congrArg (Option.map V.ofItem) (order.getLast?_mergeSort xs)
  · exact congrArg (Option.map V.ofItem) (order.flip.getLast?_mergeSort xs)
  · exact congrArg (Option.map V.ofItem) (order.head?_mergeSort xs)
  · exact congrArg (Option.map V.ofItem) (order.flip.head?_mergeSort xs)

end Pick

theorem exists_pick_of_mem {env : Env} {f : Finding} (hf : f ∈ sortedExtreme env n) :
    ∃ (p : Pick) (by_ : String) (i j : Info) (callee index : Node) (kind : ArgKind)
      (name : Option String) (method : Option Ty) (analyzed analyzed' : Option Node),
      n = ⟨i, .index ⟨j, .call callee (⟨p.source, kind, name⟩ :: p.options) analyzed⟩ index
        method analyzed'⟩ ∧
      callee.isNameOf "builtins.sorted" ∧ isFirst? index = some p.first ∧
      sortKeywords? p.options = some (p.backwards, by_) ∧
      f = replace n n.sourceText (p.name ++ "(" ++ p.source.sourceText ++ by_ ++ ")") := by
  unfold sortedExtreme at hf
  split at hf
  case h_1 i j callee source kind name options analyzed index method analyzed' =>
    split at hf
    case h_1 first backwards by_ place keywords =>
      rw [List.mem_ite_nil_right] at hf
      exact ⟨⟨source, options, first, backwards⟩, by_, i, j, callee, index, kind, name, method,
        analyzed, analyzed', rfl, hf.1, place, keywords, List.mem_singleton.1 hf.2⟩
    case h_2 => cases hf
  case h_2 => cases hf

/-- The item that is reported is the first or the last of the extreme ones, and the suggestion gives
the first. -/
theorem sorted_extreme_same_iff {env : Env} {f : Finding} (hf : f ∈ sortedExtreme env n) :
    ∃ p, pick? n = some p ∧ f = replace n n.sourceText p.text ∧
      ∀ (Item : Type) (V : Valuation Item) (v : Value Item) (xs : List Item), V.Plain n →
        V.eval p.source = some v → V.items? v = some xs →
        (∀ a ∈ p.options, ∃ w, V.eval a.value = some w) → IsOrder (p.atMost V) →
        V.eval n = (if p.first then (p.extremes V xs).head? else (p.extremes V xs).getLast?).map
          V.ofItem ∧
        V.eval (p.call n.info) = (p.extremes V xs).head?.map V.ofItem ∧
        ((∀ x y, V.ofItem x = V.ofItem y → x = y) →
          (V.eval n = V.eval (p.call n.info) ↔
            p.first ∨ (p.extremes V xs).getLast? = (p.extremes V xs).head?)) := by
  obtain ⟨p, by_, i, j, callee, index, kind, name, method, analyzed, analyzed', rfl, sorted, place,
    keywords, rfl⟩ := exists_pick_of_mem hf
  refine ⟨p, ?_, ?_, ?_⟩
  · change (isFirst? index).bind (fun first => (sortKeywords? p.options).map _) = _
    rw [place, keywords]
    rfl
  · rw [(sortKeywords?_eq_some keywords).1]
    rfl
  · intro Item V v xs plain hv hxs evaluated order
    have reported := Pick.eval_sorted_item hv hxs evaluated order rfl sorted place keywords plain
    have suggested := Pick.eval_call hv hxs evaluated order i
    refine ⟨reported, suggested, fun told => ?_⟩
    refine (iff_of_eq (congrArg₂ Eq reported suggested)).trans ?_
    rw [Option.map_inj_right told]
    cases p.first <;> simp

def lastByKey : Node :=
  let name (s fullname : String) : Node := ⟨default, .name ⟨s, fullname, none, false⟩ none⟩
  ⟨default, .index
    ⟨default, .call (name "sorted" "builtins.sorted")
      [⟨name "xs" "m.xs", .pos, none⟩, ⟨name "f" "m.f", .named, some "key"⟩] none⟩
    ⟨default, .unary .neg ⟨default, .int 1⟩ none⟩ none none⟩

def byTens (xs : List Int) : Valuation Int :=
  { Valuation.ofTable [("xs", .container .list xs), ("f", .object 0)] with
    atMost := fun _ x y => decide (x / 10 ≤ y / 10) }

theorem isOrder_byTens (xs : List Int) (key : Option (Value Int)) :
    IsOrder ((byTens xs).atMost key) where
  trans x y z h h' := by
    simp only [byTens, decide_eq_true_eq] at *
    omega
  total x y := by
    simp only [byTens, Bool.or_eq_true, decide_eq_true_eq]
    omega

def lastPick : Pick where
  source := ⟨default, .name ⟨"xs", "m.xs", none, false⟩ none⟩
  options := [⟨⟨default, .name ⟨"f", "m.f", none, false⟩ none⟩, .named, some "key"⟩]
  first := false
  backwards := false

theorem plain_lastByKey (xs : List Int) : (byTens xs).Plain lastByKey :=
  Valuation.plain_of_allDownTo 4 rfl

theorem eval_options_lastPick (xs : List Int) :
    ∀ a ∈ lastPick.options, ∃ w, (byTens xs).eval a.value = some w := by
  intro a ha
  obtain rfl := List.mem_singleton.1 ha
  exact ⟨.object 0, rfl⟩

theorem sorted_extreme_same_iff_tens :
    let env : Env := ⟨.empty, ⟨3, 10⟩, []⟩
    let V := byTens [12, 35, 27]
    ∃ f, f ∈ sortedExtreme env lastByKey ∧ V.Plain lastByKey ∧
      V.eval lastByKey = some (.number 35) ∧ V.eval lastByKey = V.eval (lastPick.call default) := by
  intro env V
  obtain ⟨f, hf⟩ : ∃ f, f ∈ sortedExtreme env lastByKey := ⟨_, List.mem_singleton.2 rfl⟩
  obtain ⟨p, picked, -, same⟩ := sorted_extreme_same_iff hf
  obtain rfl : lastPick = p := Option.some.inj picked
  obtain ⟨reported, suggested, -⟩ := same Int V _ _ (plain_lastByKey _) rfl rfl
    (eval_options_lastPick _) (isOrder_byTens _ _)
  exact ⟨f, hf, plain_lastByKey _, reported, reported.trans suggested.symm⟩

/-- Of two greatest items, a sort leaves the second at the end, and `max` gives the first. -/
theorem sorted_last_not_max :
    let env : Env := ⟨.empty, ⟨3, 10⟩, []⟩
    let V := byTens [35, 31]
    (∃ f, f ∈ sortedExtreme env lastByKey) ∧ pick? lastByKey = some lastPick ∧
      V.eval lastByKey = some (.number 31) ∧
      V.eval (lastPick.call default) = some (.number 35) := by
  intro env V
  refine ⟨⟨_, List.mem_singleton.2 rfl⟩, rfl, ?_, ?_⟩
  · exact Pick.eval_sorted_item (p := lastPick) rfl rfl (eval_options_lastPick _)
      (isOrder_byTens _ _) rfl rfl rfl rfl (plain_lastByKey _)
  · exact Pick.eval_call (p := lastPick) rfl rfl (eval_options_lastPick _) (isOrder_byTens _ _)
      default

end Rules.Containers

end IdiomLint
