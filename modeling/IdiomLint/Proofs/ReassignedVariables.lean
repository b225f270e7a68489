import IdiomLint.Proofs.FaultFreedom
import IdiomLint.Proofs.Scopes

/-! Variables that are assigned right before a `with` block that only assigns to them again. The block
goes step by step: it evaluates its resources, fills their targets and evaluates what it assigns.
Leaving the first assignment out changes none of these values, whatever expressions mean, exactly if
no step reads the variable before one binds it. The check looks at the names that are assigned and not
at the values, so it also reports variables that the block reads. -/
namespace IdiomLint

open Finding Node

/-- What a `with` block does up to the assignment in it. -/
inductive BlockStep where
  | evaluates (e : Node)
  | binds (x : String)

namespace BlockStep

mutual

/-- Names of a target are bound; of its other parts, what they consist of is evaluated. -/
def filling : Node → List BlockStep
  | ⟨_, .name ref _⟩ => [.binds ref.name]
  | ⟨_, .tuple items⟩ => fillingEach items
  | ⟨_, .list items⟩ => fillingEach items
  | ⟨_, .star value⟩ => filling value
  | ⟨_, .member base _⟩ => [.evaluates base]
  | ⟨_, .index base key _ _⟩ => [.evaluates base, .evaluates key]
  | n => [.evaluates n]

def fillingEach : List Node → List BlockStep
  | [] => []
  | n :: rest => filling n ++ fillingEach rest

end

/-- The resources one after the other, each with its target, and then the value that is assigned. -/
def ofBlock (items : List (WithItem Node)) (value : Node) : List BlockStep :=
  items.flatMap (fun i => .evaluates i.resource :: i.target.toList.flatMap filling) ++ [.evaluates value]

section

variable {Val : Type} (M : Interpretation Val) (given : List Val → String → Val)

/-- The values that the steps compute, where `computed` are those computed before. What a name is
bound to depends on the latter. -/
def values (env : String → Val) (computed : List Val) : List BlockStep → List Val
  | [] => []
  | .evaluates e :: rest => M.value env e :: values env (M.value env e :: computed) rest
  | .binds x :: rest => values (Function.update env x (given computed x)) computed rest

end

/-- Some step reads the variable before one binds it. -/
def Reads (x : String) : List BlockStep → Prop
  | [] => False
  | .evaluates e :: rest => e.DependsOn x ∨ Reads x rest
  | .binds y :: rest => y ≠ x ∧ Reads x rest

/-- The values are the same whatever the variable was assigned before. -/
def Ignores (x : String) (steps : List BlockStep) : Prop :=
  ∀ (Val : Type) (M : Interpretation Val) (given : List Val → String → Val) (env : String → Val)
    (v : Val), values M given (bound env [(x, v)]) [] steps = values M given env [] steps

variable {x : String} {steps : List BlockStep}

/-- Where no step reads a variable, it can have any value. -/
theorem values_congr {Val : Type} (M : Interpretation Val) (given : List Val → String → Val)
    {env env' : String → Val} (agree : ∀ y, y ≠ x → env y = env' y) (unread : ¬Reads x steps)
    (computed : List Val) : values M given env computed steps = values M given env' computed steps := by
  induction steps generalizing env env' computed with
  | nil => rfl
  | cons step rest ih =>
    cases step with
    | evaluates e =>
      obtain ⟨free, unread⟩ := not_or.1 unread
      have same : M.value env e = M.value env' e := by
        apply M.value_congr
        intro y depends
        exact agree y fun equal => free (equal ▸ depends)
      rw [values, values, same, ih agree unread]
    | binds y =>
      rw [values, values]
      by_cases equal : y = x
      · -- from here on both have the new value
        have both :
            Function.update env y (given computed y) = Function.update env' y (given computed y) := by
          funext z
          by_cases hz : z = y
          · simp [hz]
          · rw [Function.update_of_ne hz, Function.update_of_ne hz]
            exact agree z fun hx => hz (hx.trans equal.symm)
        rw [both]
      · refine ih (fun z hz => ?_) (fun reads => unread ⟨equal, reads⟩) computed
        by_cases bound : z = y
        · simp [bound]
        · rw [Function.update_of_ne bound, Function.update_of_ne bound, agree z hz]

section

open Interpretation

/-- Names that are bound get 0, so a variable with the value 1 shows where it is read before. -/
theorem one_mem_values (reads : Reads x steps) {env : String → Nat} (one : env x = 1)
    (computed : List Nat) : 1 ∈ values (reading x) (fun _ _ => 0) env computed steps := by
  induction steps generalizing env computed with
  | nil => exact reads.elim
  | cons step rest ih =>
    cases step with
    | evaluates e =>
      obtain depends | reads := reads
      · rw [values, reading_of_dependsOn depends, one]
        exact List.mem_cons_self
      · exact List.mem_cons_of_mem _ (ih reads one _)
    | binds y =>
      obtain ⟨other, reads⟩ := reads
      exact ih reads (by rw [Function.update_of_ne other.symm, one]) computed

theorem one_not_mem_values (computed : List Nat) :
    1 ∉ values (reading x) (fun _ _ => 0) (fun _ => 0) computed steps := by
  induction steps generalizing computed with
  | nil => exact List.not_mem_nil
  | cons step rest ih =>
    cases step with
    | evaluates e =>
      rw [values, reading_zero, List.mem_cons]
      exact fun mem => mem.elim Nat.one_ne_zero (ih _)
    | binds y =>
      rw [values, Function.update_eq_self_iff.2 rfl]
      exact ih computed

end

theorem ignores_iff : Ignores x steps ↔ ¬Reads x steps := by
  constructor
  · intro ignores reads
    have one : bound (fun _ => (0 : Nat)) [(x, 1)] x = 1 := by simp [bound]
    have mem := one_mem_values reads one []
    rw [ignores] at mem
    exact one_not_mem_values [] mem
  · intro unread Val M given env v
    exact values_congr M given (fun y other => Function.update_of_ne other v env) unread []

end BlockStep

namespace Rules.Assignments

/-- The first statement assigns to the name `x`, and the second is a `with` block that takes `steps`,
assigns to the same name and suppresses no exceptions. -/
inductive AssignedAgain : Node → Node → String → List BlockStep → Prop
  | intro {first stmt old value : Node} {ref again : Ref} {i j : Info}
      {items : List (WithItem Node)} {isAsync : Bool}
      (assigned : Assigns first ref old) (assignedAgain : Assigns stmt again value)
      (known : ref.fullname ≠ "") (same : again.fullname = ref.fullname)
      (raising : ∀ item ∈ items, isSuppression item.resource = false) :
    AssignedAgain first ⟨i, .withBlock items ⟨j, .block [stmt]⟩ isAsync⟩ ref.name
      (BlockStep.ofBlock items value)

variable {first second : Node} {ref : Ref}

theorem assignedName?_eq_some_iff :
    assignedName? first = some ref ↔ ∃ value, Assigns first ref value := by
  constructor
  · intro h
    unfold assignedName? at h
    split at h
    · obtain rfl := Option.some.inj h
      exact ⟨_, .intro⟩
    · cases h
  · rintro ⟨value, ⟨⟩⟩
    rfl

theorem reassigns_iff :
    reassigns ref.fullname second = true ↔
      ∃ i j items isAsync stmt again value,
        second = ⟨i, .withBlock items ⟨j, .block [stmt]⟩ isAsync⟩ ∧ Assigns stmt again value ∧
          ref.fullname ≠ "" ∧ again.fullname = ref.fullname ∧
            ∀ item ∈ items, isSuppression item.resource = false := by
  constructor
  · intro h
    unfold reassigns at h
    split at h
    · next i items j stmt isAsync =>
      split at h
      · next again name =>
        obtain ⟨value, assigns⟩ := assignedName?_eq_some_iff.1 name
        simp only [Bool.and_eq_true, bne_iff_ne, beq_iff_eq, Bool.not_eq_true', List.any_eq_false,
          Bool.not_eq_true] at h
        obtain ⟨⟨known, same⟩, raising⟩ := h
        exact ⟨i, j, items, isAsync, stmt, again, value, rfl, assigns, same ▸ known, same, raising⟩
      · cases h
    · cases h
  · rintro ⟨i, j, items, isAsync, stmt, again, value, rfl, assigns, known, same, raising⟩
    simpa [reassigns, assignedName?_eq_some_iff.2 ⟨_, assigns⟩, known, same] using raising

theorem exists_assignedAgain_iff :
    (∃ x steps, AssignedAgain first second x steps) ↔
      ∃ ref, assignedName? first = some ref ∧ reassigns ref.fullname second = true := by
  constructor
  · rintro ⟨x, steps, ⟨assigned, again, known, same, raising⟩⟩
    refine ⟨_, assignedName?_eq_some_iff.2 ⟨_, assigned⟩, ?_⟩
    exact reassigns_iff.2 ⟨_, _, _, _, _, _, _, rfl, again, known, same, raising⟩
  · rintro ⟨ref, name, reassigned⟩
    obtain ⟨old, assigned⟩ := assignedName?_eq_some_iff.1 name
    obtain ⟨i, j, items, isAsync, stmt, _, value, rfl, again, known, same, raising⟩ :=
      reassigns_iff.1 reassigned
    exact ⟨ref.name, BlockStep.ofBlock items value, .intro assigned again known same raising⟩

def removable : String := "This variable is redeclared later, and can be removed here"

variable {f : Finding} {stmts : List Node}

theorem mem_reassignedStmts_cons_cons :
    f ∈ reassignedStmts (first :: second :: stmts) ↔
      (∃ x steps, AssignedAgain first second x steps) ∧ f = ofNode first removable ∨
        f ∈ reassignedStmts (second :: stmts) := by
  rw [exists_assignedAgain_iff, reassignedStmts]
  split
  · next ref name =>
    split
    · next again => simp [name, again, removable]
    · next again => simp [name, again]
  · next name => simp [name]

theorem mem_reassignedStmts_iff :
    f ∈ reassignedStmts stmts ↔ ∃ first second, [first, second] <:+: stmts ∧
      (∃ x steps, AssignedAgain first second x steps) ∧ f = ofNode first removable := by
  induction stmts with
  | nil => simp [reassignedStmts]
  | cons first rest ih =>
    cases rest with
    | nil => simp [reassignedStmts, List.infix_cons_iff]
    | cons second rest =>
      rw [mem_reassignedStmts_cons_cons, ih]
      constructor
      · rintro (⟨again, rfl⟩ | ⟨a, b, adjacent, again⟩)
        · exact ⟨first, second, ⟨[], rest, rfl⟩, again, rfl⟩
        · exact ⟨a, b, adjacent.trans (List.suffix_cons ..).isInfix, again⟩
      · rintro ⟨a, b, adjacent, again, rfl⟩
        obtain here | later := List.infix_cons_iff.1 adjacent
        · simp only [List.cons_prefix_cons] at here
          obtain ⟨rfl, rfl, -⟩ := here
          exact .inl ⟨again, rfl⟩
        · exact .inr ⟨a, b, later, again, rfl⟩

/-- A variable is reported if the next statement is a `with` block that only assigns to it. Leaving
its assignment out changes no value that the block computes exactly if no step of the block reads
the variable before one binds it. -/
theorem reassigned_variable_reported_iff {env : Env} {n : Node} :
    (f ∈ withAssignment env n ↔
      ∃ stmts first second x steps, n.statementList? = some stmts ∧ [first, second] <:+: stmts ∧
        AssignedAgain first second x steps ∧ f = ofNode first removable) ∧
    ∀ (x : String) (steps : List BlockStep),
      BlockStep.Ignores x steps ↔ ¬BlockStep.Reads x steps := by
  refine ⟨?_, fun _ _ => BlockStep.ignores_iff⟩
  rw [withAssignment]
  cases n.statementList? with
  | none => simp [reassignedStmts]
  | some stmts =>
    rw [Option.getD_some, mem_reassignedStmts_iff]
    constructor
    · rintro ⟨first, second, adjacent, ⟨x, steps, again⟩, rfl⟩
      exact ⟨stmts, first, second, x, steps, rfl, adjacent, again, rfl⟩
    · rintro ⟨_, first, second, x, steps, ⟨⟩, adjacent, again, rfl⟩
      exact ⟨first, second, adjacent, ⟨x, steps, again⟩, rfl⟩

def assigning (value : Node) : Node := ⟨default, .assignment [knownAs "x" "x"] value⟩

def assigningWithin (resource : Node) (target : Option Node) (value : Node) : Node :=
  ⟨default, .withBlock [⟨resource, target⟩] ⟨default, .block [assigning value]⟩ false⟩

theorem reported_of_reads {e resource value : Node} {target : Option Node}
    (raising : isSuppression resource = false)
    (reads : BlockStep.Reads "x" (BlockStep.ofBlock [⟨resource, target⟩] value)) :
    let second := assigningWithin resource target value
    ofNode (assigning e) removable ∈ reassignedStmts [assigning e, second] ∧
      ∃ steps, AssignedAgain (assigning e) second "x" steps ∧ ¬BlockStep.Ignores "x" steps := by
  intro second
  have assigned (value : Node) : Assigns (assigning value) ⟨"x", "x", none, false⟩ value := .intro
  have again : AssignedAgain (assigning e) second "x"
      (BlockStep.ofBlock [⟨resource, target⟩] value) :=
    .intro (assigned e) (assigned value) (by decide) rfl (by simpa using raising)
  refine ⟨mem_reassignedStmts_iff.2 ⟨_, _, List.infix_rfl, ⟨_, _, again⟩, rfl⟩, _, again, ?_⟩
  rw [BlockStep.ignores_iff]
  exact not_not_intro reads

/-- With `open(x) as f`, with `x = x` in the block and with `as d[x]`, the assignment of `e` to `x`
is reported although the block reads `x`. -/
theorem variable_read_in_block_reported :
    let first := assigning (nameNode "e")
    let opened : Node := ⟨default, .call (nameNode "open") [⟨nameNode "x", .pos, none⟩] none⟩
    let entry : Node := ⟨default, .index (nameNode "d") (nameNode "x") none none⟩
    ∀ second ∈ [assigningWithin opened (nameNode "f") (nameNode "f"),
        assigningWithin (nameNode "f") none (nameNode "x"),
        assigningWithin (nameNode "f") entry (nameNode "d")],
      ofNode first removable ∈ reassignedStmts [first, second] ∧
        ∃ steps, AssignedAgain first second "x" steps ∧ ¬BlockStep.Ignores "x" steps := by
  intro first opened entry
  have read : (nameNode "x").DependsOn "x" := Node.dependsOn_nameNode.2 rfl
  have passed : opened.DependsOn "x" := by
    refine .outer ?_ read
    simp [Node.outerParts, opened, Node.children]
  simp only [List.forall_mem_cons]
  exact ⟨reported_of_reads rfl (.inl passed), reported_of_reads rfl (.inr (.inl read)),
    reported_of_reads rfl (.inr (.inr (.inl read))), List.forall_mem_nil _⟩

end Rules.Assignments

end IdiomLint
