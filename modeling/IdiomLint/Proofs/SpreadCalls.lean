import IdiomLint.Proofs.Scopes
import IdiomLint.Rules.Comprehensions

/-! Comprehensions that spread the items of tuples over the arguments of a call, row by row. What such
a comprehension produces is what mapping the function over the rows gives, whatever expressions mean,
exactly if it has no conditions, is not asynchronous, the names of its targets differ and the function
depends on none of them. With conditions, the two agree on the rows that all pass and on no others. The
check looks at arguments and targets alone, so it reports all of these. -/
namespace IdiomLint

open Finding Rules.Functions Rules.Comprehensions

/-- A generator that calls a function for each row of a source. -/
structure SpreadCall where
  callee : Node
  args : List (CallArg Node)
  names : List String
  conditions : List Node
  isAsync : Bool

def spreadCall? : Node → Option SpreadCall
  | ⟨_, .generator ⟨_, .call callee args _⟩ [⟨⟨_, .tuple targets⟩, _, conditions, isAsync⟩]⟩ =>
    (targets.mapM nameOf?).map fun names => ⟨callee, args, names, conditions, isAsync⟩
  | _ => none

namespace Interpretation

variable {Val : Type} (M : Interpretation Val) (env : String → Val) (c : SpreadCall)

def inRow (row : List Val) : String → Val := bound env (c.names.zip row)

def passes (row : List Val) : Bool := c.conditions.all fun e => M.holds (M.value (inRow env c row) e)

/-- What a row gives. All arguments are passed by position. -/
def called (row : List Val) : Val :=
  M.apply (M.value (inRow env c row) c.callee) (c.args.map fun a => M.value (inRow env c row) a.value)

/-- The values of a comprehension over a sequence of rows, which is none that can be waited for. -/
def produced? (rows : List (List Val)) : Option (List Val) :=
  if c.isAsync then none else some ((rows.filter (M.passes env c)).map (M.called env c))

def starmapped (rows : List (List Val)) : List Val := rows.map (M.apply (M.value env c.callee))

end Interpretation

variable {c : SpreadCall}

namespace SpreadCall

/-- What is passed to the function are the names of the targets. -/
def PassesTargets (c : SpreadCall) : Prop :=
  c.args.map (fun a => nameOf? a.value) = c.names.map some

/-- When calling the function in a row is calling it with the row. -/
structure Spreads (c : SpreadCall) : Prop where
  isAsync : c.isAsync = false
  distinct : c.names.Nodup
  free : ∀ x ∈ c.names, ¬c.callee.DependsOn x

def AlwaysStarmap (c : SpreadCall) : Prop :=
  ∀ (Val : Type) (M : Interpretation Val) (env : String → Val) (rows : List (List Val)),
    (∀ row ∈ rows, row.length = c.names.length) →
      M.produced? env c rows = some (M.starmapped env c rows)

variable {Val : Type} {M : Interpretation Val} {env : String → Val}

theorem Spreads.called_eq (h : c.Spreads) (passed : c.PassesTargets) {row : List Val}
    (length : row.length = c.names.length) :
    M.called env c row = M.apply (M.value env c.callee) row := by
  have outside : M.value (Interpretation.inRow env c row) c.callee = M.value env c.callee := by
    apply M.value_bound
    rw [List.map_fst_zip (Nat.le_of_eq length.symm)]
    exact h.free
  rw [Interpretation.called, outside, M.map_value_of_nameOf? _ passed]
  exact congrArg _ (map_bound_zip h.distinct length.symm)

theorem Spreads.produced?_eq (h : c.Spreads) (passed : c.PassesTargets) {rows : List (List Val)}
    (lengths : ∀ row ∈ rows, row.length = c.names.length) :
    M.produced? env c rows = some (M.starmapped env c (rows.filter (M.passes env c))) := by
  rw [Interpretation.produced?, if_neg (by simp [h.isAsync]), Interpretation.starmapped]
  refine congrArg some (List.map_congr_left fun row hr => ?_)
  exact h.called_eq passed (lengths row (List.mem_of_mem_filter hr))

/-- The values are those of the function over the rows exactly if every row passes. -/
theorem Spreads.produced?_eq_starmapped_iff (h : c.Spreads) (passed : c.PassesTargets)
    {rows : List (List Val)} (lengths : ∀ row ∈ rows, row.length = c.names.length) :
    M.produced? env c rows = some (M.starmapped env c rows) ↔ ∀ row ∈ rows, M.passes env c row := by
  rw [h.produced?_eq passed lengths, Option.some.injEq]
  constructor
  · intro same
    have count : (rows.filter (M.passes env c)).length = rows.length := by
      simpa [Interpretation.starmapped] using congrArg List.length same
    exact List.length_filter_eq_length_iff.1 count
  · intro pass
    rw [List.filter_eq_self.2 pass]

end SpreadCall

namespace Interpretation

variable {x : String} {expected : List Nat}

/-- A meaning in which a call shows whether it passes the expected arguments. -/
noncomputable def expecting (x : String) (expected : List Nat) : Interpretation Nat :=
  { reading x with apply := fun f args => if args = expected then f else f + 1 }

theorem expecting_value : (expecting x expected).value = (reading x).value := rfl

theorem expecting_apply {f : Nat} {args : List Nat} :
    (expecting x expected).apply f args = if args = expected then f else f + 1 := rfl

end Interpretation

namespace SpreadCall

section

variable (always : c.AlwaysStarmap)
include always

/-- What a single row of numbers shows, where every other name stands for 0. -/
theorem AlwaysStarmap.inRow (passed : c.PassesTargets) (x : String) {row : List Nat}
    (length : row.length = c.names.length) :
    c.isAsync = false ∧ c.conditions = [] ∧
      c.names.map (Interpretation.inRow (fun _ => 0) c row) = row ∧
      (Interpretation.reading x).value (Interpretation.inRow (fun _ => 0) c row) c.callee = 0 := by
  have same := always Nat (.expecting x row) (fun _ => 0) [row] (by simp [length])
  rw [Interpretation.produced?] at same
  split at same
  case isTrue => cases same
  case isFalse isAsync =>
    have values := Option.some.inj same
    -- nothing counts as true, so a row only passes if there is no condition
    cases passes : (Interpretation.expecting x row).passes (fun _ => 0) c row with
    | false =>
      rw [List.filter_cons_of_neg (by simp [passes])] at values
      cases values
    | true =>
      have unconditional : c.conditions = [] := by
        rw [List.eq_nil_iff_forall_not_mem]
        intro e he
        have holds : false = true := List.all_eq_true.1 passes e he
        cases holds
      rw [List.filter_cons_of_pos passes] at values
      have called : (Interpretation.expecting x row).called (fun _ => 0) c row =
          (Interpretation.expecting x row).apply
            ((Interpretation.expecting x row).value (fun _ => 0) c.callee) row :=
        (List.cons.inj values).1
      rw [Interpretation.called, Interpretation.map_value_of_nameOf? _ _ passed,
        Interpretation.expecting_apply, Interpretation.expecting_apply, if_pos rfl,
        Interpretation.expecting_value, Interpretation.reading_zero] at called
      split at called
      case isTrue arguments => exact ⟨by simpa using isAsync, unconditional, arguments, called⟩
      case isFalse => cases called

theorem AlwaysStarmap.spreads (passed : c.PassesTargets) : c.Spreads ∧ c.conditions = [] := by
  -- the items of this row all differ, those of the one below are all 1
  obtain ⟨isAsync, unconditional, row, -⟩ := always.inRow passed "" List.length_range
  have distinct : c.names.Nodup := by
    apply List.Nodup.of_map
    rw [row]
    exact List.nodup_range
  refine ⟨⟨isAsync, distinct, fun x hx depends => ?_⟩, unconditional⟩
  obtain ⟨-, -, -, zero⟩ := always.inRow passed x List.length_replicate
  have one := Interpretation.reading_bound hx depends
  rw [← Interpretation.inRow, zero] at one
  cases one

end

theorem alwaysStarmap_iff (passed : c.PassesTargets) :
    c.AlwaysStarmap ↔ c.Spreads ∧ c.conditions = [] := by
  constructor
  · exact fun always => always.spreads passed
  · intro ⟨spreads, unconditional⟩ Val M env rows lengths
    rw [spreads.produced?_eq_starmapped_iff passed lengths]
    intro row _
    rw [Interpretation.passes, unconditional]
    rfl

theorem exists_names_of_passesNames {args : List (CallArg Node)} {targets : List Node}
    (h : passesNames args targets) :
    ∃ names, targets.mapM nameOf? = some names ∧
      args.map (fun a => nameOf? a.value) = names.map some := by
  rw [passesNames, Bool.and_eq_true, Bool.and_eq_true, Bool.and_eq_true] at h
  obtain ⟨⟨⟨-, length⟩, -⟩, alike⟩ := h
  replace length : targets.length = args.length := eq_of_beq length
  induction targets generalizing args with
  | nil =>
    obtain rfl := List.eq_nil_of_length_eq_zero length.symm
    exact ⟨[], rfl, rfl⟩
  | cons target targets ih =>
    cases args with
    | nil => cases length
    | cons a args =>
      rw [List.zip_cons_cons, List.all_cons, Bool.and_eq_true] at alike
      obtain ⟨names, rest, passed⟩ := ih alike.2 (Nat.succ.inj length)
      have first := alike.1
      dsimp only at first
      split at first
      case h_1 i r binding j s binding' value =>
        have name : r.name = s.name := eq_of_beq first
        refine ⟨s.name :: names, ?_, ?_⟩
        · rw [List.mapM_cons, rest]
          rfl
        · rw [List.map_cons, passed, value, ← name]
          rfl
      case h_2 => cases first

theorem exists_spreadCall?_of_isSpreadCall {g : Node} (h : isSpreadCall g) :
    ∃ c, spreadCall? g = some c ∧ c.PassesTargets := by
  unfold isSpreadCall at h
  split at h
  case h_1 i j callee args analyzed k targets source conditions isAsync =>
    obtain ⟨names, named, passed⟩ := exists_names_of_passesNames h
    exact ⟨⟨callee, args, names, conditions, isAsync⟩, by simp [spreadCall?, named], passed⟩
  case h_2 => cases h

/-- The generator that a node is or collects, how it is shown, and what is suggested. -/
def shown? : Node → Option (Node × String × String)
  | n@⟨_, .generator _ _⟩ => some (n, "f(...) for ... in x", "starmap(f, x)")
  | ⟨_, .listComp g⟩ => some (g, "[f(...) for ... in x]", "list(starmap(f, x))")
  | ⟨_, .setComp g⟩ => some (g, "\x7bf(...) for ... in x\x7d", "set(starmap(f, x))")
  | _ => none

theorem report_of_starmapOf {notes notes' : Notes} {g : Node} {oldOpen oldClose newOpen newClose : String}
    {fs : List Finding} {f : Finding}
    (reported : starmapOf notes g oldOpen oldClose newOpen newClose = (fs, notes')) (hf : f ∈ fs) :
    isSpreadCall g ∧ f = replace g (oldOpen ++ "f(...) for ... in x" ++ oldClose)
      (newOpen ++ "starmap(f, x)" ++ newClose) := by
  unfold starmapOf at reported
  split at reported
  case isTrue spread =>
    cases reported
    exact ⟨spread, List.mem_singleton.1 hf⟩
  case isFalse =>
    cases reported
    cases hf

theorem report_of_starmap {env : Env} {notes notes' : Notes} {n : Node} {fs : List Finding}
    {f : Finding} (reported : starmap env notes n = .ok (fs, notes')) (hf : f ∈ fs) :
    ∃ g old new, shown? n = some (g, old, new) ∧ isSpreadCall g ∧ f = replace g old new := by
  unfold starmap at reported
  split at reported
  case isTrue =>
    cases reported
    cases hf
  case isFalse =>
    split at reported
    case h_1 | h_2 | h_3 =>
      obtain ⟨spread, text⟩ := report_of_starmapOf (Except.ok.inj reported) hf
      exact ⟨_, _, _, rfl, spread, text⟩
    case h_4 =>
      cases reported
      cases hf

/-- What a reported comprehension produces is what the function gives over the rows, whatever
expressions mean, exactly if calling the function in a row is calling it with the row and there are no
conditions. Where there are some, the two agree exactly on rows that all pass. -/
theorem spread_call_same_iff {env : Env} {notes notes' : Notes} {n : Node} {fs : List Finding}
    {f : Finding} (reported : starmap env notes n = .ok (fs, notes')) (hf : f ∈ fs) :
    ∃ g old new c, shown? n = some (g, old, new) ∧ f = replace g old new ∧ spreadCall? g = some c ∧
      (c.AlwaysStarmap ↔ c.Spreads ∧ c.conditions = []) ∧
      (c.Spreads → ∀ (Val : Type) (M : Interpretation Val) (env : String → Val)
        (rows : List (List Val)), (∀ row ∈ rows, row.length = c.names.length) →
        (M.produced? env c rows = some (M.starmapped env c rows) ↔
          ∀ row ∈ rows, M.passes env c row)) := by
  obtain ⟨g, old, new, shown, spread, text⟩ := report_of_starmap reported hf
  obtain ⟨c, call, passed⟩ := exists_spreadCall?_of_isSpreadCall spread
  refine ⟨g, old, new, c, shown, text, call, c.alwaysStarmap_iff passed, ?_⟩
  intro spreads Val M env rows lengths
  exact spreads.produced?_eq_starmapped_iff passed lengths

def ofNames (names : List String) (callee : Node) (conditions : List Node) (isAsync : Bool) :
    SpreadCall :=
  ⟨callee, names.map fun x => ⟨nameNode x, .pos, none⟩, names, conditions, isAsync⟩

def collection (c : SpreadCall) : Node :=
  ⟨default, .listComp ⟨default, .generator ⟨default, .call c.callee c.args none⟩
    [⟨⟨default, .tuple (c.names.map nameNode)⟩, nameNode "xs", c.conditions, c.isAsync⟩]⟩⟩

theorem passesTargets_ofNames (names : List String) (callee : Node) (conditions : List Node)
    (isAsync : Bool) : (ofNames names callee conditions isAsync).PassesTargets := by
  simp [PassesTargets, ofNames, nameNode, nameOf?, Function.comp_def]

theorem spread_call_same_iff_plain :
    let env : Env := ⟨.empty, ⟨3, 10⟩, []⟩
    let c := ofNames ["x", "y"] (nameNode "f") [] false
    ∃ f notes, starmap env {} c.collection = .ok ([f], notes) ∧
      f.message = "Replace `[f(...) for ... in x]` with `list(starmap(f, x))`" ∧ c.AlwaysStarmap := by
  intro env c
  obtain ⟨f, notes, reported, text⟩ : ∃ f notes, starmap env {} c.collection = .ok ([f], notes) ∧
      f.message = "Replace `[f(...) for ... in x]` with `list(starmap(f, x))`" :=
    ⟨_, _, rfl, rfl⟩
  obtain ⟨g, old, new, d, shown, -, call, always, -⟩ :=
    spread_call_same_iff reported (List.mem_singleton.2 rfl)
  cases shown
  obtain rfl : c = d := Option.some.inj call
  refine ⟨f, notes, reported, text, always.2 ⟨⟨rfl, by decide, ?_⟩, rfl⟩⟩
  simp [c, ofNames, Node.dependsOn_nameNode]

/-- Rows that are left out, a function that each row has its own of, a name that stands for the last
item alone, and rows that are waited for. -/
theorem unfaithful_spread_call_reported :
    let env : Env := ⟨.empty, ⟨3, 10⟩, []⟩
    ∀ c ∈ [ofNames ["x", "y"] (nameNode "f") [nameNode "x"] false,
        ofNames ["x", "y"] (memberNode "x" "run") [] false,
        ofNames ["x", "x"] (nameNode "f") [] false, ofNames ["x", "y"] (nameNode "f") [] true],
      (∃ f notes, starmap env {} c.collection = .ok ([f], notes)) ∧ ¬c.AlwaysStarmap := by
  intro env
  have spreads {names : List String} {callee : Node} {conditions : List Node} {isAsync : Bool}
      (always : (ofNames names callee conditions isAsync).AlwaysStarmap) :=
    always.spreads (passesTargets_ofNames names callee conditions isAsync)
  simp only [List.forall_mem_cons]
  refine ⟨⟨⟨_, _, rfl⟩, fun always => ?_⟩, ⟨⟨_, _, rfl⟩, fun always => ?_⟩,
    ⟨⟨_, _, rfl⟩, fun always => ?_⟩, ⟨⟨_, _, rfl⟩, fun always => ?_⟩, by simp⟩
  · cases (spreads always).2
  · exact (spreads always).1.free "x" List.mem_cons_self (Node.dependsOn_memberNode.2 rfl)
  · exact absurd (spreads always).1.distinct (by decide)
  · cases (spreads always).1.isAsync

end SpreadCall

end IdiomLint
