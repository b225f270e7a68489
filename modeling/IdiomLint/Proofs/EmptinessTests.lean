import IdiomLint.Proofs.CommandLine
import IdiomLint.Proofs.Evaluation
import IdiomLint.Proofs.FaultFreeRules

/-! Conditions that ask for a length. Each report stands in its condition under `and`, `or` and
unary operators alone. The container that is suggested counts as true exactly if the test holds,
unless it is an iterator with nothing left, of which a list was made and which has no length. -/
namespace IdiomLint

namespace Evaluation

/-- A condition with a place in it. -/
inductive Context where
  | here
  | unary (i : Info) (op : UnaryOp) (inner : Context) (method : Option Ty)
  | left (i : Info) (op : BinaryOp) (connects : op = .and ∨ op = .or) (inner : Context)
    (right : Node) (method : Option Ty)
  | right (i : Info) (op : BinaryOp) (connects : op = .and ∨ op = .or) (left : Node)
    (inner : Context) (method : Option Ty)

namespace Context

def fill : Context → Node → Node
  | here, m => m
  | unary i op inner method, m => ⟨i, .unary op (inner.fill m) method⟩
  | left i op _ inner r method, m => ⟨i, .binary op (inner.fill m) r method none⟩
  | right i op _ l inner method, m => ⟨i, .binary op l (inner.fill m) method none⟩

/-- Whether `not` is the only unary operator above the place. -/
def isLogical : Context → Bool
  | here => true
  | unary _ op inner _ => op == .not && inner.isLogical
  | left _ _ _ inner _ _ => inner.isLogical
  | right _ _ _ _ inner _ => inner.isLogical

variable {Item : Type} {V : Valuation Item}

/-- The right operand is only looked at if the left one does not decide. -/
theorem eval_connective (V : Valuation Item) {op : BinaryOp} (connects : op = .and ∨ op = .or)
    (i : Info) (l r : Node) (method : Option Ty) (analyzed : Option Node) :
    V.eval ⟨i, .binary op l r method analyzed⟩ =
      (V.eval l).bind fun v => if V.holds v = (op == .and) then V.eval r else some v := by
  rcases connects with rfl | rfl
  · rfl
  · change (V.eval l).bind (fun v => if V.holds v then some v else V.eval r) = _
    congr 1
    funext v
    cases V.holds v <;> rfl

theorem eval_not (V : Valuation Item) (i : Info) (m : Node) (method : Option Ty) :
    V.eval ⟨i, .unary .not m method⟩ = (V.eval m).map fun v => .truth (!V.holds v) := by
  change (V.eval m).bind _ = _
  cases V.eval m <;> rfl

/-- A node can stand for another wherever its truth alone counts. -/
theorem holds_fill {m new : Node} {v : Value Item} (C : Context) (logical : C.isLogical)
    (same : ∀ v, V.eval m = some v → ∃ w, V.eval new = some w ∧ V.holds w = V.holds v)
    (h : V.eval (C.fill m) = some v) :
    ∃ w, V.eval (C.fill new) = some w ∧ V.holds w = V.holds v := by
  induction C generalizing v with
  | here => exact same v h
  | unary i op inner method ih =>
    obtain ⟨rfl, logical⟩ : op = .not ∧ inner.isLogical := by simpa [isLogical] using logical
    rw [fill, eval_not, Option.map_eq_some_iff] at h
    obtain ⟨a, ha, rfl⟩ := h
    obtain ⟨b, hb, holds⟩ := ih logical ha
    exact ⟨.truth (!V.holds b), by rw [fill, eval_not, hb]; rfl, congrArg (!·) holds⟩
  | left i op connects inner r method ih =>
    rw [fill, eval_connective V connects, Option.bind_eq_some_iff] at h
    obtain ⟨a, ha, h⟩ := h
    obtain ⟨b, hb, holds⟩ := ih logical ha
    rw [fill, eval_connective V connects, hb, Option.bind_some, holds]
    by_cases goesOn : V.holds a = (op == .and)
    · rw [if_pos goesOn] at h ⊢
      exact ⟨v, h, rfl⟩
    · rw [if_neg goesOn] at h ⊢
      exact ⟨b, rfl, Option.some.inj h ▸ holds⟩
  | right i op connects l inner method ih =>
    rw [fill, eval_connective V connects, Option.bind_eq_some_iff] at h
    obtain ⟨a, ha, h⟩ := h
    rw [fill, eval_connective V connects, ha, Option.bind_some]
    by_cases goesOn : V.holds a = (op == .and)
    · rw [if_pos goesOn] at h ⊢
      exact ih logical h
    · rw [if_neg goesOn] at h ⊢
      exact ⟨v, h, rfl⟩

end Context

section

variable {Item : Type} {V : Valuation Item} {v : Value Item}

/-- What can be gone through counts as true exactly if it has items, except for an iterator that has
none. -/
theorem holds_eq_iff_of_items? {xs : List Item} (h : V.items? v = some xs) :
    V.holds v = !xs.isEmpty ↔ v ≠ .iterator [] := by
  cases v with
  | text chars =>
    cases h
    simp [Valuation.holds]
  | container kind items =>
    cases h
    simp [Valuation.holds]
  | mapping entries =>
    cases h
    simp [Valuation.holds]
  | iterator items =>
    cases h
    simp [Valuation.holds]
  | _ => cases h

theorem exists_items?_of_length? {k : Nat} (h : v.length? = some k) (V : Valuation Item) :
    ∃ xs, V.items? v = some xs ∧ xs.length = k ∧ v ≠ .iterator [] := by
  cases v with
  | text chars => exact ⟨_, rfl, by simpa [Value.length?] using h, by simp⟩
  | container kind items => exact ⟨_, rfl, by simpa [Value.length?] using h, by simp⟩
  | mapping entries => exact ⟨_, rfl, by simpa [Value.length?] using h, by simp⟩
  | _ => cases h

end

end Evaluation

namespace Rules.Emptiness

open Evaluation Finding Valuation

variable {Item : Type} {V : Valuation Item} {env : Env} {n : Node}

/-- Only the operator for unions of types is ever read as something else. -/
def unanalyzedAt : Node → Bool
  | ⟨_, .binary .and _ _ _ analyzed⟩ => analyzed.isNone
  | ⟨_, .binary .or _ _ _ analyzed⟩ => analyzed.isNone
  | _ => true

def Unanalyzed (n : Node) : Prop := ∀ m : Node, m.Within n → unanalyzedAt m

theorem Unanalyzed.child (h : Unanalyzed n) {c : Node} (hc : c ∈ n.children .calleeFirst) :
    Unanalyzed c :=
  fun m within => h m (.deeper hc within)

theorem entered_deciding {c m : Node} (h : m ∈ deciding.entered c) (hc : unanalyzedAt c) :
    (∃ i op method, c = ⟨i, .unary op m method⟩) ∨
    ∃ i op l r method, c = ⟨i, .binary op l r method none⟩ ∧ (op = .and ∨ op = .or) ∧
      (m = l ∨ m = r) := by
  unfold Walk.entered at h
  split at h
  case h_1 entersAll =>
    simp only [deciding] at entersAll
    split at entersAll
    case h_1 i op operand method =>
      obtain rfl : m = operand := by simpa [deciding, Node.children] using h
      exact .inl ⟨i, op, method, rfl⟩
    case h_2 i l r method analyzed =>
      obtain rfl : analyzed = none := by simpa [unanalyzedAt] using hc
      exact .inr ⟨i, .and, l, r, method, rfl, .inl rfl, by
        simpa [deciding, Node.children] using h⟩
    case h_3 i l r method analyzed =>
      obtain rfl : analyzed = none := by simpa [unanalyzedAt] using hc
      exact .inr ⟨i, .or, l, r, method, rfl, .inr rfl, by
        simpa [deciding, Node.children] using h⟩
    case h_4 => cases entersAll
  case h_2 k entersSome =>
    simp only [deciding] at entersSome
    split at entersSome
    case h_4 =>
      cases entersSome
      simp at h
    all_goals cases entersSome

theorem exists_of_mem_mapM {α β : Type} {f : α → Except Fault β} {as : List α} {bs : List β}
    (h : as.mapM f = .ok bs) {b : β} (hb : b ∈ bs) : ∃ a ∈ as, f a = .ok b := by
  induction as generalizing bs with
  | nil =>
    cases h
    cases hb
  | cons a as ih =>
    rw [List.mapM_cons] at h
    obtain ⟨first, hfirst, h⟩ := bind_eq_ok h
    obtain ⟨rest, hrest, h⟩ := bind_eq_ok h
    cases h
    rcases List.mem_cons.1 hb with rfl | hb
    · exact ⟨a, List.mem_cons_self, hfirst⟩
    · obtain ⟨a', ha', shown⟩ := ih hrest hb
      exact ⟨a', List.mem_cons_of_mem _ ha', shown⟩

/-- What the walk enters stands in the condition under unary operators, `and` and `or`. -/
theorem exists_context_of_enter {c m : Node} (unanalyzed : Unanalyzed c)
    (h : .enter m ∈ c.events deciding) : ∃ C : Context, c = C.fill m := by
  rw [Node.events] at h
  split at h
  case h_1 => simp at h
  case h_2 =>
    simp only [List.cons_append, List.mem_cons, List.mem_append, List.mem_flatMap] at h
    rcases h with same | ⟨⟨child, hc⟩, -, below⟩ | fault
    · cases same
      exact ⟨.here, rfl⟩
    · -- The place in the child, with the operator that is the condition on top.
      have childWithin : child ∈ c.children .calleeFirst := Walk.mem_children_of_mem_entered hc
      obtain ⟨C, rfl⟩ := exists_context_of_enter (unanalyzed.child childWithin) below
      rcases entered_deciding hc (unanalyzed c (.refl c)) with ⟨i, op, method, rfl⟩ |
        ⟨i, op, l, r, method, rfl, connects, rfl | rfl⟩
      · exact ⟨.unary i op C method, rfl⟩
      · exact ⟨.left i op connects C r method, rfl⟩
      · exact ⟨.right i op connects l C method, rfl⟩
    · split at fault <;> simp at fault
termination_by sizeOf c
decreasing_by exact Node.sizeOf_lt_of_mem_children (Walk.mem_children_of_mem_entered hc)

theorem exists_part_of_mem_foldEvents {es : List Event} {start found : List Finding} {f : Finding}
    (h : Node.foldEvents (fun found m => (part env m).map (found ++ ·)) start es = .ok found)
    (hf : f ∈ found) :
    f ∈ start ∨ ∃ m fs, .enter m ∈ es ∧ part env m = .ok fs ∧ f ∈ fs := by
  induction es generalizing start with
  | nil =>
    cases h
    exact .inl hf
  | cons e es ih =>
    cases e with
    | fault cause => cases h
    | enter m =>
      obtain ⟨next, added, h⟩ := bind_eq_ok h
      obtain ⟨fs, hfs, rfl⟩ := map_eq_ok added
      rcases ih h with here | ⟨m', fs', entered, judged, inside⟩
      · rcases List.mem_append.1 here with before | here
        · exact .inl before
        · exact .inr ⟨m, fs, List.mem_cons_self, hfs, here⟩
      · exact .inr ⟨m', fs', List.mem_cons_of_mem _ entered, judged, inside⟩

theorem exists_part_of_mem {found : List Finding} {f : Finding} (h : lengthTest env n = .ok found)
    (hf : f ∈ found) :
    ∃ c ∈ conditionsOf n, ∃ m fs, .enter m ∈ c.events deciding ∧ part env m = .ok fs ∧ f ∈ fs := by
  obtain ⟨all, each, rfl⟩ := map_eq_ok h
  obtain ⟨fs, hfs, hf⟩ := List.mem_flatten.1 hf
  obtain ⟨c, hc, judged⟩ := exists_of_mem_mapM each hfs
  rcases exists_part_of_mem_foldEvents judged hf with nothing | ⟨m, fs, rest⟩
  · cases nothing
  · exact ⟨c, hc, m, fs, rest⟩

/-- The classes that the empty displays and `set()` and `frozenset()` are of. -/
def containerClasses : List String := ["list", "tuple", "set", "frozenset", "dict"]

def className? : Value Item → Option String
  | .container .list _ => some "list"
  | .container .tuple _ => some "tuple"
  | .container .set _ => some "set"
  | .container .frozenset _ => some "frozenset"
  | .mapping _ => some "dict"
  | _ => none

/-- What is said to be of a type is a value of it, or the class itself; and the types of empty
containers are known. -/
structure Fits (env : Env) (V : Valuation Item) (n : Node) : Prop where
  mapping : ∀ m : Node, m.Within n → env.isMapping m = .ok true → ∀ v, V.eval m = some v →
    (∃ entries, v = .mapping entries) ∨ ∃ f, v = .function f
  container : ∀ m : Node, m.Within n → ∀ cls ∈ containerClasses, env.hasType m [.builtin cls] →
    ∀ v, V.eval m = some v → className? v = some cls ∨ ∃ f, v = .function f
  display : ∀ m : Node, m.Within n → isEmptyContainer m →
    ∃ cls ∈ containerClasses, SymbolTable.simpleType? (env.typeOf m) = some (.builtin cls)

theorem Fits.within {m : Node} (fits : Fits env V n) (within : m.Within n) : Fits env V m where
  mapping k inside := fits.mapping k (Node.within_trans inside within)
  container k inside := fits.container k (Node.within_trans inside within)
  display k inside := fits.display k (Node.within_trans inside within)

theorem Fits.child {c : Node} (fits : Fits env V n) (hc : c ∈ n.children .calleeFirst) :
    Fits env V c :=
  fits.within (Node.within_of_mem hc)

theorem exists_length_of_eval_len {i : Info} {callee arg : Node} {kind : ArgKind}
    {name : Option String} {analyzed : Option Node} {v : Value Item}
    (isLen : callee.isNameOf "builtins.len")
    (plain : V.Plain ⟨i, .call callee [⟨arg, kind, name⟩] analyzed⟩)
    (h : V.eval ⟨i, .call callee [⟨arg, kind, name⟩] analyzed⟩ = some v) :
    ∃ w k, V.eval arg = some w ∧ w.length? = some k ∧ v = .number k := by
  have called : V.eval callee = some (.function .len) := V.eval_of_isNameOf rfl isLen
  have position : kind = .pos := by simpa [Value.takes] using plain.takes called
  subst position
  obtain ⟨w, hw, h⟩ := V.exists_of_eval_call_single called h
  obtain ⟨k, hk, rfl⟩ := Option.map_eq_some_iff.1 h
  exact ⟨w, k, hw, hk, rfl⟩

theorem exists_eval_base {i j : Info} {base : Node} {ref : Ref} {analyzed : Option Node}
    {v : Value Item} (free : Builtin.ofFullname? ref.fullname = none)
    (h : V.eval ⟨i, .call ⟨j, .member base ref⟩ [] analyzed⟩ = some v) :
    ∃ b, V.eval base = some b := by
  change (V.eval ⟨j, .member base ref⟩).bind _ = _ at h
  obtain ⟨method, hmethod, -⟩ := Option.bind_eq_some_iff.1 h
  rw [V.eval_member j free] at hmethod
  obtain ⟨b, hb, -⟩ := Option.bind_eq_some_iff.1 hmethod
  exact ⟨b, hb⟩

/-- Looking through copies and views keeps whether there are items. -/
theorem exists_items?_of_simplified {x : Node} {v : Value Item} {xs : List Item}
    (h : simplified env n = .ok x) (plain : V.Plain n) (fits : Fits env V n)
    (hv : V.eval n = some v) (hxs : V.items? v = some xs) :
    ∃ w ys, V.eval x = some w ∧ V.items? w = some ys ∧ ys.isEmpty = xs.isEmpty := by
  -- Along what is looked through: a copy has the items, and a view has one for each key.
  fun_induction simplified env n generalizing v xs with
  | case1 i j f binding arg kind name analyzed isList ih =>
    have called : V.eval ⟨j, .name f binding⟩ = some (.function .list) :=
      V.eval_of_isNameOf rfl isList
    have position : kind = .pos := by simpa [Value.takes] using plain.takes called
    subst position
    obtain ⟨w, hw, hv⟩ := V.exists_of_eval_call_single called hv
    obtain ⟨ys, hys, rfl⟩ := Option.map_eq_some_iff.1 hv
    cases hxs
    exact ih h (plain.arg List.mem_cons_self) (fits.child (by simp [Node.children])) hw hys
  | case3 i j base ref analyzed isView ih =>
    obtain ⟨isMapping, known, h⟩ := bind_eq_ok h
    cases isMapping with
    | false =>
      cases h
      exact ⟨v, xs, hv, hxs, rfl⟩
    | true =>
      obtain ⟨view, named⟩ : ∃ view, View.ofName? ref.name = some view := by
        have names : ref.name = "keys" ∨ ref.name = "values" := by simpa using isView
        rcases names with name | name <;> rw [name]
        exacts [⟨.keys, rfl⟩, ⟨.values, rfl⟩]
      have calleeWithin : Node.Within ⟨j, .member base ref⟩
          ⟨i, .call ⟨j, .member base ref⟩ [] analyzed⟩ :=
        Node.within_of_mem List.mem_cons_self
      have baseWithin := calleeWithin.child List.mem_cons_self
      have free := plain.callee.free (by simp [isMethodName, named])
      obtain ⟨b, hb⟩ := exists_eval_base free hv
      rcases fits.mapping base baseWithin known b hb with ⟨entries, rfl⟩ | ⟨f, rfl⟩
      · rw [V.eval_call_nil i (plain.callee.eval_view hb named)] at hv
        have same : xs.isEmpty = entries.isEmpty := by
          cases view <;> cases hv <;> cases hxs <;> exact List.isEmpty_map
        obtain ⟨w, ys, hw, hys, empty⟩ := ih h plain.callee.base (fits.within baseWithin) hb rfl
        exact ⟨w, ys, hw, hys, by rw [empty, same, List.isEmpty_map]⟩
      · -- The view of a class is of no mapping, and calling it raises an error.
        have unbound : V.eval ⟨j, .member base ref⟩ = some .unboundMethod := by
          rw [V.eval_member j free, hb]
          simp [Value.method?, named]
        rw [V.eval_call_nil i unbound] at hv
        cases hv
  | _ =>
    cases h
    exact ⟨v, xs, hv, hxs, rfl⟩

/-- A node that asks whether something has items, or whether it has none. -/
inductive Asks (env : Env) : Node → Node → Bool → Prop where
  | length {i : Info} {callee x : Node} {kind : ArgKind} {name : Option String}
      {analyzed : Option Node} (isLen : callee.isNameOf "builtins.len")
      (sized : env.isSized x = .ok true) :
      Asks env ⟨i, .call callee [⟨x, kind, name⟩] analyzed⟩ x false
  | lengthCompared {i j l : Info} {op : CompareOp} {callee arg x : Node} {kind : ArgKind}
      {name : Option String} {analyzed : Option Node} {k : Int} {items : Bool}
      (isLen : callee.isNameOf "builtins.len") (sized : env.isSized arg = .ok true)
      (asks : asksForItems? op k = some items) (through : simplified env arg = .ok x) :
      Asks env ⟨i, .comparison [op] [⟨j, .call callee [⟨arg, kind, name⟩] analyzed⟩, ⟨l, .int k⟩]⟩ x
        (!items)
  | emptyCompared {i : Info} {op : CompareOp} {x empty : Node} (isEquality : op = .eq ∨ op = .ne)
      (isEmpty : isEmptyContainer empty)
      (typed : env.hasType x [(SymbolTable.simpleType? (env.typeOf empty)).getD .nothing]) :
      Asks env ⟨i, .comparison [op] [x, empty]⟩ x (op == .eq)

theorem lengthOf?_eq_some {m x : Node} (h : lengthOf? env m = .ok (some x)) :
    ∃ i callee kind name analyzed, m = ⟨i, .call callee [⟨x, kind, name⟩] analyzed⟩ ∧
      callee.isNameOf "builtins.len" ∧ env.isSized x = .ok true := by
  unfold lengthOf? at h
  split at h
  case h_1 i callee arg kind name analyzed =>
    split at h
    case isTrue isLen =>
      obtain ⟨sized, known, h⟩ := bind_eq_ok h
      cases sized with
      | false => cases h
      | true =>
        cases h
        exact ⟨i, callee, kind, name, analyzed, rfl, isLen, known⟩
    case isFalse => cases h
  case h_2 => cases h

theorem exists_asks_of_part {m : Node} {fs : List Finding} {f : Finding}
    (h : part env m = .ok fs) (hf : f ∈ fs) :
    ∃ x negated, Asks env m x negated ∧
      f = replace m m.sourceText (if negated then "not " ++ x.sourceText else x.sourceText) := by
  unfold part at h
  split at h
  case h_1 i operators operands =>
    unfold comparison at h
    split at h
    case h_1 j op left l k same =>
      cases same
      obtain ⟨container?, known, h⟩ := bind_eq_ok h
      split at h
      case h_1 container items asks =>
        obtain ⟨x, through, h⟩ := bind_eq_ok h
        cases h
        obtain ⟨c, callee, kind, name, analyzed, rfl, isLen, sized⟩ := lengthOf?_eq_some known
        refine ⟨x, !items, .lengthCompared isLen sized asks through, ?_⟩
        rw [List.mem_singleton.1 hf]
        cases items <;> rfl
      case h_2 =>
        cases h
        cases hf
    case h_2 j op left right _ same =>
      cases same
      cases h
      simp only [emptyComparison, List.mem_ite_nil_right, Bool.and_eq_true, Bool.or_eq_true,
        beq_iff_eq, List.mem_singleton] at hf
      obtain ⟨⟨⟨isEquality, isEmpty⟩, typed⟩, rfl⟩ := hf
      refine ⟨left, op == .eq, .emptyCompared isEquality isEmpty typed, ?_⟩
      simp only [beq_iff_eq]
    case h_3 =>
      cases h
      cases hf
  case h_2 i callee args analyzed =>
    obtain ⟨found, known, h⟩ := bind_eq_ok h
    cases found with
    | none =>
      cases h
      cases hf
    | some x =>
      cases h
      obtain ⟨c, callee, kind, name, analyzed, same, isLen, sized⟩ := lengthOf?_eq_some known
      cases same
      exact ⟨x, false, .length isLen sized, List.mem_singleton.1 hf⟩
  case h_3 =>
    cases h
    cases hf

theorem compared?_of_asksForItems? {op : CompareOp} {k : Int} {items : Bool}
    (h : asksForItems? op k = some items) (xs : List Item) :
    (Value.number xs.length : Value Item).compared? op (.number k) =
      some (items == !xs.isEmpty) := by
  unfold asksForItems? at h
  cases xs with
  | nil => split at h <;> cases h <;> rfl
  | cons x xs =>
    have positive : (0 : Int) < (x :: xs).length := by simp
    split at h <;> cases h
    · exact congrArg some (decide_eq_false (by omega))
    · exact congrArg some (decide_eq_false (by omega))
    · exact congrArg some (decide_eq_true (by omega))
    · exact congrArg (fun b => some !b) (decide_eq_false (by omega))
    · exact congrArg some (decide_eq_true (by omega))

theorem exists_eval_of_isEmptyContainer {m : Node} (h : isEmptyContainer m) :
    ∃ v, V.eval m = some v ∧ V.items? v = some [] := by
  unfold isEmptyContainer at h
  split at h
  case h_1 => exact ⟨_, rfl, rfl⟩
  case h_2 => exact ⟨_, rfl, rfl⟩
  case h_3 => exact ⟨_, rfl, rfl⟩
  case h_4 =>
    unfold Conditions.isEmptySetCall at h
    split at h
    case h_1 i callee analyzed _ _ _ =>
      rcases Bool.or_eq_true_iff.1 h with isSet | isSet
      · have called : V.eval callee = some (.function .set) := V.eval_of_isNameOf rfl isSet
        exact ⟨.container .set [], V.eval_call_nil i called analyzed, rfl⟩
      · have called : V.eval callee = some (.function .frozenset) := V.eval_of_isNameOf rfl isSet
        exact ⟨.container .frozenset [], V.eval_call_nil i called analyzed, rfl⟩
    case h_2 => cases h

theorem hasType_of_simpleType? {m : Node} {type : Expected}
    (h : SymbolTable.simpleType? (env.typeOf m) = some type) : env.hasType m [type] := by
  unfold SymbolTable.simpleType? at h
  split at h
  case h_1 c args known =>
    have named : Expected.ofFullname? c.fullname = some type := by
      split at h
      · cases h
      · exact h
    simp [Env.hasType, known, SymbolTable.hasAnyType, SymbolTable.hasType, SymbolTable.resolveAlias,
      SymbolTable.typeMatches, SymbolTable.classMatches, named]
  case h_2 => cases h

/-- A container is equal to an empty one of its class exactly if it has no items; and a class is
equal to no container. -/
theorem equal?_empty {v w : Value Item} {cls : String}
    (hv : className? v = some cls ∨ ∃ f, v = .function f) (hw : className? w = some cls)
    (empty : V.items? w = some []) : v.equal? w = some (!V.holds v) ∧ v ≠ .iterator [] := by
  rcases hv with hv | ⟨f, rfl⟩
  · have same := hv.trans hw.symm
    cases v with
    | container kind xs =>
      refine ⟨?_, by simp⟩
      cases w with
      | container kind' ys =>
        cases empty
        cases kind <;> cases kind' <;> simp [className?, Value.equal?, ContainerKind.comparesWith,
          emptiesEqual?, Valuation.holds] at same hv ⊢
      | mapping entries => cases kind <;> simp [className?] at same
      | _ => cases hw
    | mapping entries =>
      refine ⟨?_, by simp⟩
      cases w with
      | mapping entries' =>
        obtain rfl : entries' = [] := by simpa [Valuation.items?] using empty
        simp [Value.equal?, emptiesEqual?, Valuation.holds]
      | container kind xs => cases kind <;> simp [className?] at same
      | _ => cases hw
    | _ => cases hv
  · refine ⟨?_, by simp⟩
    cases w with
    | container kind xs => rfl
    | mapping entries => rfl
    | _ => cases hw

theorem Asks.holds_iff {m x : Node} {negated : Bool} (asks : Asks env m x negated)
    (plain : V.Plain m) (fits : Fits env V m) {v : Value Item} (hv : V.eval m = some v) :
    ∃ w, V.eval x = some w ∧ ((V.holds w != negated) = V.holds v ↔ w ≠ .iterator []) := by
  cases asks with
  | length isLen sized =>
    obtain ⟨w, k, hw, hk, rfl⟩ := exists_length_of_eval_len isLen plain hv
    obtain ⟨xs, hxs, rfl, sized⟩ := exists_items?_of_length? hk V
    refine ⟨w, hw, iff_of_true ?_ sized⟩
    rw [Bool.bne_false, (holds_eq_iff_of_items? hxs).2 sized]
    cases xs <;> rfl
  | @lengthCompared i j l op callee arg x kind name analyzed k items isLen sized asks through =>
    rw [V.eval_comparison, Option.bind_eq_some_iff] at hv
    obtain ⟨counted, hcounted, hv⟩ := hv
    have call : ⟨j, .call callee [⟨arg, kind, name⟩] analyzed⟩ ∈ Node.children .calleeFirst
        ⟨i, .comparison [op] [⟨j, .call callee [⟨arg, kind, name⟩] analyzed⟩, ⟨l, .int k⟩]⟩ :=
      List.mem_cons_self
    obtain ⟨a, length, ha, hlength, rfl⟩ :=
      exists_length_of_eval_len isLen (plain.child call) hcounted
    obtain ⟨xs, hxs, rfl, -⟩ := exists_items?_of_length? hlength V
    have argWithin : arg.Within _ := (Node.within_of_mem call).child (by simp [Node.children])
    obtain ⟨w, ys, hw, hys, empty⟩ := exists_items?_of_simplified through (plain.within argWithin)
      (fits.within argWithin) ha hxs
    refine ⟨w, hw, ?_⟩
    have compared := compared?_of_asksForItems? asks xs
    rw [V.eval_int, Option.bind_some, V.compare_of_compared? compared] at hv
    cases hv
    rw [← holds_eq_iff_of_items? hys, empty, Valuation.holds]
    cases items <;> cases V.holds w <;> cases xs.isEmpty <;> decide
  | @emptyCompared i op x empty isEquality isEmpty typed =>
    have xWithin : x.Within ⟨i, .comparison [op] [x, empty]⟩ :=
      Node.within_of_mem (by simp [Node.children])
    have emptyWithin : empty.Within ⟨i, .comparison [op] [x, empty]⟩ :=
      Node.within_of_mem (by simp [Node.children])
    obtain ⟨cls, known, type⟩ := fits.display empty emptyWithin isEmpty
    obtain ⟨b, hb, nothing⟩ := exists_eval_of_isEmptyContainer (V := V) isEmpty
    rw [type, Option.getD_some] at typed
    rw [V.eval_comparison, Option.bind_eq_some_iff] at hv
    obtain ⟨w, hw, hv⟩ := hv
    have classOfEmpty : className? b = some cls := by
      rcases fits.container empty emptyWithin cls known (hasType_of_simpleType? type) b hb with
        same | ⟨f, rfl⟩
      · exact same
      · cases nothing
    obtain ⟨equal, sized⟩ :=
      equal?_empty (fits.container x xWithin cls known typed w hw) classOfEmpty nothing
    refine ⟨w, hw, iff_of_true ?_ sized⟩
    have compared : w.compared? op b = some (V.holds w != (op == .eq)) := by
      rcases isEquality with rfl | rfl
      · change w.equal? b = _
        rw [equal]
        cases V.holds w <;> rfl
      · change (w.equal? b).map (!·) = _
        rw [equal]
        cases V.holds w <;> rfl
    rw [hb, Option.bind_some, V.compare_of_compared? compared] at hv
    cases hv
    rfl

def suggestion (i : Info) (x : Node) (negated : Bool) : Node :=
  if negated then ⟨i, .unary .not x none⟩ else x

theorem exists_eval_suggestion (i : Info) {x : Node} {w : Value Item} (hw : V.eval x = some w)
    (negated : Bool) :
    ∃ u, V.eval (suggestion i x negated) = some u ∧ V.holds u = (V.holds w != negated) := by
  cases negated with
  | false => exact ⟨w, hw, by simp⟩
  | true =>
    refine ⟨.truth (!V.holds w), ?_, by simp [Valuation.holds]⟩
    rw [suggestion, if_pos rfl, Context.eval_not, hw]
    rfl

/-- Each report stands in a condition under `and`, `or` and unary operators. What is suggested
counts as true exactly if the test does, unless it is an iterator that has run out; and if `not` is
the only unary operator, the condition as a whole then goes as before. -/
theorem emptiness_test_same_iff {found : List Finding} {f : Finding}
    (reported : lengthTest env n = .ok found) (hf : f ∈ found)
    (unanalyzed : Unanalyzed n) :
    ∃ c ∈ conditionsOf n, ∃ (C : Context) (m x : Node) (negated : Bool), c = C.fill m ∧
      Asks env m x negated ∧
      f = replace m m.sourceText (if negated then "not " ++ x.sourceText else x.sourceText) ∧
      ∀ (Item : Type) (V : Valuation Item), V.Plain m → Fits env V m →
        (∀ v, V.eval m = some v → ∃ w u, V.eval x = some w ∧
          V.eval (suggestion m.info x negated) = some u ∧
          (V.holds u = V.holds v ↔ w ≠ .iterator [])) ∧
        (C.isLogical → V.eval x ≠ some (.iterator []) → ∀ v, V.eval c = some v →
          ∃ u, V.eval (C.fill (suggestion m.info x negated)) = some u ∧ V.holds u = V.holds v) := by
  obtain ⟨c, hc, m, fs, entered, judged, hf⟩ := exists_part_of_mem reported hf
  have inside := unanalyzed.child (mem_children_of_mem_conditionsOf hc)
  obtain ⟨C, rfl⟩ := exists_context_of_enter inside entered
  obtain ⟨x, negated, asks, text⟩ := exists_asks_of_part judged hf
  refine ⟨_, hc, C, m, x, negated, rfl, asks, text, fun Item V plain fits => ?_⟩
  have same (v : Value Item) (hv : V.eval m = some v) : ∃ w u, V.eval x = some w ∧
      V.eval (suggestion m.info x negated) = some u ∧
      (V.holds u = V.holds v ↔ w ≠ .iterator []) := by
    obtain ⟨w, hw, iff⟩ := asks.holds_iff plain fits hv
    obtain ⟨u, hu, holds⟩ := exists_eval_suggestion m.info hw negated
    exact ⟨w, u, hw, hu, holds ▸ iff⟩
  refine ⟨same, fun logical sized v hv => C.holds_fill logical ?_ hv⟩
  intro v hv
  obtain ⟨w, u, hw, hu, iff⟩ := same v hv
  exact ⟨u, hu, iff.2 fun run => sized (run ▸ hw)⟩

def listClass : ClassInfo :=
  { ClassInfo.bare "list" with
    ref := ⟨"list", "builtins.list"⟩
    mro := [⟨"list", "builtins.list"⟩, ⟨"typing.Sized", "typing.Sized"⟩] }

def listEnv : Env where
  table := ⟨(((∅ : Std.HashMap SymbolId Symbol).insert "list" (.cls listClass)).insert "nums"
    (.value (some (.inst listClass.ref [])))).insert "g"
      (.value (some (.inst ⟨"typing.Generator", "typing.Generator"⟩ []))), ∅⟩
  version := ⟨3, 10⟩
  files := []

def listOf (x : Node) : Node :=
  ⟨default, .call ⟨default, .name ⟨"list", "builtins.list", none, false⟩ (some ⟨"list", false⟩)⟩
    [⟨x, .pos, none⟩] none⟩

def lengthCallOf (x : Node) : Node :=
  ⟨default, .call ⟨default, .name ⟨"len", "builtins.len", none, false⟩ none⟩ [⟨x, .pos, none⟩] none⟩

def emptyCopyTest (x : Node) : Node :=
  ⟨default, .comparison [.eq] [lengthCallOf (listOf x), ⟨default, .int 0⟩]⟩

theorem get_list : listEnv.table.get "list" = .cls listClass := by
  simp [listEnv, SymbolTable.get, Std.HashMap.getD_insert]

theorem get_nums : listEnv.table.get "nums" = .value (some (.inst listClass.ref [])) := by
  simp [listEnv, SymbolTable.get, Std.HashMap.getD_insert]

theorem typeOf_listOf (x : Node) :
    listEnv.typeOf (listOf x) = some (.type (.inst listClass.ref [])) := by
  change (listEnv.table.entity "list").bind Entity.called = _
  rw [SymbolTable.entity, get_list]
  rfl

theorem typeOf_nums :
    listEnv.typeOf (variableNamed "nums") = some (.type (.inst listClass.ref [])) := by
  change (listEnv.table.entity "nums") = _
  rw [SymbolTable.entity, get_nums]
  rfl

theorem isSubclass_list (expected : List Expected) :
    listEnv.table.isSubclass (some (.type (.inst listClass.ref []))) expected =
      .ok (listClass.mro.any fun c => expected.any (SymbolTable.classMatches c.fullname)) := by
  have known : listEnv.table.classInfo? listClass.ref.id = some listClass := by
    change listEnv.table.classInfo? "list" = _
    rw [SymbolTable.classInfo?, get_list]
  rw [SymbolTable.isSubclass, SymbolTable.classOf, known]
  rfl

theorem isSized_of_typeOf {x : Node}
    (h : listEnv.typeOf x = some (.type (.inst listClass.ref []))) :
    listEnv.isSized x = .ok true := by
  rw [Env.isSized, h, SymbolTable.isSized, isSubclass_list]
  decide +kernel

theorem events_of_reach {m : Node} (h : deciding.reach m = some 0) (entered : m.refusal = none) :
    m.events deciding = [.enter m] := by
  rw [Node.events, entered]
  simp [Walk.entered, h]

theorem events_unary (i : Info) (op : UnaryOp) (m : Node) (method : Option Ty) :
    Node.events deciding ⟨i, .unary op m method⟩ =
      .enter ⟨i, .unary op m method⟩ :: m.events deciding := by
  rw [Node.events]
  simp [Walk.entered, deciding, Node.refusal, Node.complaint, Node.children]

theorem lengthTest_assertion {c : Node} {found : List Finding}
    (h : condition env c = .ok found) (i : Info) :
    lengthTest env ⟨i, .assertion c none⟩ = .ok found := by
  change ([c].mapM (condition env)).map List.flatten = _
  rw [List.mapM_cons, List.mapM_nil, h]
  exact congrArg Except.ok List.flatten_singleton

theorem lengthOf?_lengthCallOf {x : Node}
    (h : listEnv.typeOf x = some (.type (.inst listClass.ref []))) :
    lengthOf? listEnv (lengthCallOf x) = .ok (some x) := by
  change (do return if ← listEnv.isSized x then some x else none) = _
  rw [isSized_of_typeOf h]
  rfl

theorem exists_lengthTest_emptyCopyTest {x : Node} (through : simplified listEnv x = .ok x) :
    ∃ f, lengthTest listEnv ⟨default, .assertion (emptyCopyTest x) none⟩ = .ok [f] := by
  have throughList : simplified listEnv (listOf x) = .ok x := through
  refine ⟨replace (emptyCopyTest x) (emptyCopyTest x).sourceText ("not " ++ x.sourceText),
    lengthTest_assertion ?_ default⟩
  rw [condition, events_of_reach rfl rfl]
  change ((part listEnv (emptyCopyTest x)).map ([] ++ ·)).bind pure = _
  simp only [part, emptyCopyTest, comparison, lengthOf?_lengthCallOf (typeOf_listOf x), throughList,
    asksForItems?, bind, Except.bind]
  rfl

def negatedLength : Node := ⟨default, .unary .neg (lengthCallOf (variableNamed "nums")) none⟩

theorem exists_lengthTest_negatedLength :
    ∃ f, lengthTest listEnv ⟨default, .assertion negatedLength none⟩ = .ok [f] := by
  refine ⟨replace (lengthCallOf (variableNamed "nums"))
    (lengthCallOf (variableNamed "nums")).sourceText (variableNamed "nums").sourceText,
    lengthTest_assertion ?_ default⟩
  rw [condition, negatedLength, events_unary, events_of_reach rfl rfl]
  change ((lengthCall listEnv (lengthCallOf (variableNamed "nums"))).map ([] ++ ·)).bind pure = _
  rw [lengthCall, lengthOf?_lengthCallOf typeOf_nums]
  rfl

def emptyValues : Valuation Int :=
  .ofTable [("nums", .container .list []), ("g", .iterator [])]

theorem forall_within {P : Node → Prop} {n : Node} (own : P n)
    (below : ∀ c ∈ n.children .calleeFirst, ∀ m : Node, m.Within c → P m) :
    ∀ m : Node, m.Within n → P m := by
  intro m within
  cases within with
  | refl => exact own
  | deeper child within => exact below _ child m within

/-- A node of no known type, or one that is said to be a list and is a list or a function. -/
def IsUntypedOrList (m : Node) : Prop :=
  isEmptyContainer m = false ∧ (listEnv.typeOf m = none ∨
    (listEnv.typeOf m = some (.cls listClass) ∨
      listEnv.typeOf m = some (.type (.inst listClass.ref []))) ∧
    ∀ v, emptyValues.eval m = some v → className? v = some "list" ∨ ∃ f, v = .function f)

theorem eq_list_of_classMatches {cls : String}
    (h : SymbolTable.classMatches listClass.ref.fullname (.builtin cls)) : cls = "list" := by
  have named : Expected.ofFullname? listClass.ref.fullname = some (.builtin "list") := by
    decide +kernel
  rw [SymbolTable.classMatches, named, Bool.or_eq_true, beq_iff_eq, beq_iff_eq] at h
  rcases h with same | other
  · cases same
    rfl
  · cases other

theorem fits_of_isUntypedOrList (h : ∀ m : Node, m.Within n → IsUntypedOrList m) :
    Fits listEnv emptyValues n where
  mapping m within isMapping := by
    have notMapping : listClass.mro.any (fun c => [Expected.named "typing.Mapping"].any
        (SymbolTable.classMatches c.fullname)) = false := by decide +kernel
    rw [Env.isMapping, SymbolTable.isMapping] at isMapping
    rcases (h m within).2 with untyped | ⟨isClass | isList, -⟩
    · rw [untyped] at isMapping
      cases isMapping
    · rw [isClass] at isMapping
      exact absurd (Except.ok.inj isMapping) (by rw [notMapping]; decide)
    · rw [isList, isSubclass_list, notMapping] at isMapping
      cases isMapping
  container m within cls known typed := by
    rw [Env.hasType, SymbolTable.hasAnyType, List.any_cons, List.any_nil, Bool.or_false] at typed
    rcases (h m within).2 with untyped | ⟨isClass | isList, values⟩
    · rw [untyped] at typed
      cases typed
    · rw [isClass] at typed
      rw [eq_list_of_classMatches typed]
      exact values
    · rw [isList] at typed
      rw [eq_list_of_classMatches typed]
      exact values
  display m within isEmpty := by
    rw [(h m within).1] at isEmpty
    cases isEmpty

theorem isUntypedOrList_listOf_nums :
    ∀ m : Node, m.Within (listOf (variableNamed "nums")) → IsUntypedOrList m := by
  refine forall_within ⟨rfl, .inr ⟨.inr (typeOf_listOf _), ?_⟩⟩
    (List.forall_mem_cons.2 ⟨?_, List.forall_mem_cons.2 ⟨?_, List.forall_mem_nil _⟩⟩)
  · intro v hv
    cases hv
    exact .inl rfl
  · refine forall_within ⟨rfl, .inr ⟨.inl ?_, ?_⟩⟩ (List.forall_mem_nil _)
    · change listEnv.table.entity "list" = _
      rw [SymbolTable.entity, get_list]
    · intro v hv
      cases hv
      exact .inr ⟨.list, rfl⟩
  · refine forall_within ⟨rfl, .inr ⟨.inr typeOf_nums, ?_⟩⟩ (List.forall_mem_nil _)
    intro v hv
    cases hv
    exact .inl rfl

theorem fits_emptyCopyTest : Fits listEnv emptyValues (emptyCopyTest (variableNamed "nums")) := by
  refine fits_of_isUntypedOrList (forall_within ⟨rfl, .inl rfl⟩
    (List.forall_mem_cons.2 ⟨?_, List.forall_mem_cons.2 ⟨?_, List.forall_mem_nil _⟩⟩))
  · refine forall_within ⟨rfl, .inl rfl⟩ (List.forall_mem_cons.2 ⟨?_, List.forall_mem_cons.2
      ⟨isUntypedOrList_listOf_nums, List.forall_mem_nil _⟩⟩)
    exact forall_within ⟨rfl, .inl rfl⟩ (List.forall_mem_nil _)
  · refine forall_within ⟨rfl, .inl ?_⟩ (List.forall_mem_nil _)
    change listEnv.table.builtinType "int" = none
    simp [listEnv, SymbolTable.builtinType, SymbolTable.builtinClass?]

theorem emptiness_test_same_iff_copy :
    ∃ f u, lengthTest listEnv ⟨default, .assertion (emptyCopyTest (variableNamed "nums")) none⟩ =
        .ok [f] ∧
      emptyValues.Plain (emptyCopyTest (variableNamed "nums")) ∧
      Fits listEnv emptyValues (emptyCopyTest (variableNamed "nums")) ∧
      emptyValues.eval (emptyCopyTest (variableNamed "nums")) = some (.truth true) ∧
      emptyValues.eval (suggestion default (variableNamed "nums") true) = some u ∧
      emptyValues.holds u = true := by
  obtain ⟨f, reported⟩ := exists_lengthTest_emptyCopyTest (x := variableNamed "nums") rfl
  have plain : emptyValues.Plain (emptyCopyTest (variableNamed "nums")) :=
    Valuation.plain_of_allDownTo 5 (by decide +kernel)
  have unanalyzed :
      Unanalyzed ⟨default, .assertion (emptyCopyTest (variableNamed "nums")) none⟩ :=
    fun m => of_allDownTo (k := 6) (by decide +kernel)
  obtain ⟨c, hc, C, m, x, negated, filled, asks, -, values⟩ :=
    emptiness_test_same_iff reported (List.mem_singleton.2 rfl) unanalyzed
  obtain rfl := List.mem_singleton.1 hc
  cases C with
  | here =>
    obtain rfl : emptyCopyTest (variableNamed "nums") = m := filled
    obtain ⟨rfl, rfl⟩ : x = variableNamed "nums" ∧ negated = true := by
      cases asks with
      | lengthCompared isLen sized asks through =>
        cases asks
        cases through
        exact ⟨rfl, rfl⟩
      | emptyCompared isEquality isEmpty typed => cases isEmpty
    obtain ⟨w, u, hw, hu, iff⟩ :=
      (values Int emptyValues plain fits_emptyCopyTest).1 (.truth true) rfl
    cases hw
    exact ⟨f, u, reported, plain, fits_emptyCopyTest, rfl, hu, iff.2 (by simp)⟩
  | _ => cases filled

/-- A copy of a generator can be empty although the generator counts as true; and the length below a
sign is a number, where a list cannot stand. -/
theorem emptiness_tests_differ :
    (∃ f, lengthTest listEnv ⟨default, .assertion (emptyCopyTest (variableNamed "g")) none⟩ =
        .ok [f]) ∧
      emptyValues.eval (emptyCopyTest (variableNamed "g")) = some (.truth true) ∧
      emptyValues.eval (suggestion default (variableNamed "g") true) = some (.truth false) ∧
    (∃ f, lengthTest listEnv ⟨default, .assertion negatedLength none⟩ = .ok [f]) ∧
      emptyValues.eval negatedLength = some (.number 0) ∧
      emptyValues.eval ⟨default, .unary .neg (variableNamed "nums") none⟩ = none :=
  ⟨exists_lengthTest_emptyCopyTest rfl, rfl, rfl, exists_lengthTest_negatedLength, rfl, rfl⟩

end Rules.Emptiness

end IdiomLint
