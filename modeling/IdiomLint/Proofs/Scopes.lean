import IdiomLint.Rules.Functions
import Mathlib.Data.List.Nodup
import Mathlib.Logic.Function.Basic

/-! Which names an expression depends on, and what it means where these names have values. A lambda
and a comprehension have names of their own; a default and the first source of a comprehension are
evaluated outside of them. Main statement: an expression has the same value inside of a construct that
binds a name as outside of it, whatever expressions mean, exactly if it does not depend on the name. -/
namespace IdiomLint

open Rules.Functions (nameOf?)

namespace Node

mutual

def targetNames : Node → List String
  | ⟨_, .name ref _⟩ => [ref.name]
  | ⟨_, .tuple items⟩ => eachTargetNames items
  | ⟨_, .list items⟩ => eachTargetNames items
  | ⟨_, .star value⟩ => targetNames value
  | _ => []

def eachTargetNames : List Node → List String
  | [] => []
  | n :: rest => targetNames n ++ eachTargetNames rest

end

inductive Assigns : Node → Ref → Node → Prop
  | intro {i j : Info} {ref : Ref} {binding : Option Binding} {value : Node} :
    Assigns ⟨i, .assignment [⟨j, .name ref binding⟩] value⟩ ref value

/-- The names that a node gives a meaning of its own to. -/
def ownNames : Node → List String
  | ⟨_, .lambda params _ _⟩ => params.map (·.name)
  | ⟨_, .generator _ clauses⟩ => clauses.flatMap (·.index.targetNames)
  | ⟨_, .dictComp _ _ clauses⟩ => clauses.flatMap (·.index.targetNames)
  | _ => []

/-- The parts that are evaluated where the node stands. -/
def outerParts : Node → List Node
  | ⟨_, .lambda params _ _⟩ => params.filterMap (·.initial)
  | ⟨_, .generator _ clauses⟩ => (clauses.take 1).map (·.source)
  | ⟨_, .dictComp _ _ clauses⟩ => (clauses.take 1).map (·.source)
  | n => n.children .calleeFirst

/-- The parts that are evaluated with the node's own names. -/
def innerParts : Node → List Node
  | ⟨_, .lambda _ body _⟩ => [body]
  | ⟨_, .generator element clauses⟩ =>
    element :: (clauses.drop 1).map (·.source) ++ clauses.flatMap fun c => c.index :: c.conditions
  | ⟨_, .dictComp key value clauses⟩ =>
    key :: value :: (clauses.drop 1).map (·.source)
      ++ clauses.flatMap fun c => c.index :: c.conditions
  | _ => []

/-- The node holds a name `x` that refers to the variable of that name where the node stands. -/
inductive DependsOn (x : String) : Node → Prop
  | name {i : Info} {ref : Ref} {binding : Option Binding} (spelled : ref.name = x) :
    DependsOn x ⟨i, .name ref binding⟩
  | outer {n c : Node} (part : c ∈ n.outerParts) (inside : DependsOn x c) : DependsOn x n
  | inner {n c : Node} (part : c ∈ n.innerParts) (free : x ∉ n.ownNames) (inside : DependsOn x c) :
    DependsOn x n

section

variable {x : String} {i : Info}

theorem dependsOn_name {ref : Ref} {binding : Option Binding} :
    DependsOn x ⟨i, .name ref binding⟩ ↔ ref.name = x := by
  constructor
  · intro h
    cases h with
    | name spelled => exact spelled
    | outer part => cases part
    | inner part => cases part
  · exact .name

theorem dependsOn_iff_of_nameOf? {n : Node} {y : String} (h : nameOf? n = some y) :
    DependsOn x n ↔ y = x := by
  obtain ⟨i, shape⟩ := n
  cases shape with
  | name ref binding =>
    cases h
    exact dependsOn_name
  | _ => cases h

/-- A node that binds nothing and is no name depends on what its children depend on. -/
theorem dependsOn_iff_of_children {n : Node} (outer : n.outerParts = n.children .calleeFirst)
    (inner : n.innerParts = []) (other : ∀ i ref binding, n ≠ ⟨i, .name ref binding⟩) :
    DependsOn x n ↔ ∃ c ∈ n.children .calleeFirst, DependsOn x c := by
  constructor
  · intro h
    cases h with
    | name spelled => exact absurd rfl (other _ _ _)
    | outer part inside => exact ⟨_, outer ▸ part, inside⟩
    | inner part =>
      rw [inner] at part
      cases part
  · rintro ⟨c, part, inside⟩
    exact .outer (outer ▸ part) inside

theorem dependsOn_member {base : Node} {ref : Ref} :
    DependsOn x ⟨i, .member base ref⟩ ↔ DependsOn x base := by
  rw [dependsOn_iff_of_children rfl rfl (by simp)]
  simp [children]

end

end Node

def nameNode (name : String) : Node := ⟨default, .name ⟨name, "", none, false⟩ none⟩

def memberNode (base name : String) : Node :=
  ⟨default, .member (nameNode base) ⟨name, "", none, false⟩⟩

namespace Node

theorem dependsOn_nameNode {x name : String} : (nameNode name).DependsOn x ↔ name = x := dependsOn_name

theorem dependsOn_memberNode {x base name : String} :
    (memberNode base name).DependsOn x ↔ base = x := by
  rw [memberNode, dependsOn_member, dependsOn_nameNode]

end Node

section

variable {Val : Type}

def bound (env : String → Val) (pairs : List (String × Val)) : String → Val :=
  pairs.foldl (fun env p => Function.update env p.1 p.2) env

variable {env : String → Val} {pairs : List (String × Val)} {x : String}

theorem bound_cons {p : String × Val} :
    bound env (p :: pairs) = bound (Function.update env p.1 p.2) pairs := rfl

theorem bound_of_not_mem (h : x ∉ pairs.map (·.1)) : bound env pairs x = env x := by
  induction pairs generalizing env with
  | nil => rfl
  | cons p pairs ih =>
    rw [List.map_cons, List.mem_cons, not_or] at h
    rw [bound_cons, ih h.2, Function.update_of_ne h.1]

theorem bound_of_mem {v : Val} (distinct : (pairs.map (·.1)).Nodup) (mem : (x, v) ∈ pairs) :
    bound env pairs x = v := by
  induction pairs generalizing env with
  | nil => cases mem
  | cons p pairs ih =>
    rw [List.map_cons, List.nodup_cons] at distinct
    rw [bound_cons]
    rcases List.mem_cons.1 mem with rfl | mem
    · rw [bound_of_not_mem distinct.1, Function.update_self]
    · exact ih distinct.2 mem

theorem bound_of_forall {v : Val} (h : ∀ p ∈ pairs, p.2 = v) (hx : x ∈ pairs.map (·.1)) :
    bound env pairs x = v := by
  induction pairs generalizing env with
  | nil => cases hx
  | cons p pairs ih =>
    rw [List.forall_mem_cons] at h
    rw [bound_cons]
    by_cases later : x ∈ pairs.map (·.1)
    · exact ih h.2 later
    · obtain rfl : x = p.1 := (List.mem_cons.1 hx).resolve_right later
      rw [bound_of_not_mem later, Function.update_self, h.1]

/-- Names that are all different get their own values. -/
theorem map_bound_zip {names : List String} {vals : List Val} (distinct : names.Nodup)
    (length : names.length = vals.length) : names.map (bound env (names.zip vals)) = vals := by
  induction names generalizing env vals with
  | nil => exact (List.eq_nil_of_length_eq_zero length.symm).symm
  | cons name names ih =>
    cases vals with
    | nil => cases length
    | cons v vals =>
      rw [List.nodup_cons] at distinct
      have fresh : name ∉ (names.zip vals).map (·.1) := by
        rw [List.map_fst_zip (Nat.le_of_eq (Nat.succ.inj length))]
        exact distinct.1
      rw [List.zip_cons_cons, List.map_cons, bound_cons, ih distinct.2 (Nat.succ.inj length),
        bound_of_not_mem fresh, Function.update_self]

end

/-- What expressions mean where names have values. Errors can be values too. -/
structure Interpretation (Val : Type) where
  value : (String → Val) → Node → Val
  /-- What calling a value with others gives. -/
  apply : Val → List Val → Val
  /-- What a value has at an index. -/
  item : Val → Val → Val
  tuple : List Val → Val
  /-- A mapping from names. -/
  mapping : List (String × Val) → Val
  /-- Which values count as true. -/
  holds : Val → Bool
  value_name : ∀ env i ref binding, value env ⟨i, .name ref binding⟩ = env ref.name
  value_congr : ∀ env env' n, (∀ x, Node.DependsOn x n → env x = env' x) →
    value env n = value env' n

namespace Interpretation

open Node (dependsOn_iff_of_nameOf?)

theorem value_of_nameOf? {Val : Type} (M : Interpretation Val) (env : String → Val) {n : Node}
    {x : String} (h : nameOf? n = some x) : M.value env n = env x := by
  obtain ⟨i, shape⟩ := n
  cases shape with
  | name ref binding =>
    cases h
    exact M.value_name env i ref binding
  | _ => cases h

/-- Arguments that are names have the values of the names. -/
theorem map_value_of_nameOf? {Val : Type} (M : Interpretation Val) (env : String → Val)
    {args : List (CallArg Node)} {names : List String}
    (h : args.map (fun a => nameOf? a.value) = names.map some) :
    args.map (fun a => M.value env a.value) = names.map env := by
  induction args generalizing names with
  | nil =>
    cases names with
    | nil => rfl
    | cons name names => cases h
  | cons a args ih =>
    cases names with
    | nil => cases h
    | cons name names =>
      rw [List.map_cons, List.map_cons, List.cons.injEq] at h
      rw [List.map_cons, List.map_cons, M.value_of_nameOf? env h.1, ih h.2]

/-- An expression that depends on none of the names that are bound means what it meant before. -/
theorem value_bound {Val : Type} (M : Interpretation Val) {env : String → Val}
    {pairs : List (String × Val)} {n : Node} (free : ∀ x ∈ pairs.map (·.1), ¬n.DependsOn x) :
    M.value (bound env pairs) n = M.value env n := by
  apply M.value_congr
  intro x depends
  exact bound_of_not_mem fun mem => free x mem depends

open Classical in
/-- A meaning that looks at one name: every expression that depends on it has its value. -/
noncomputable def reading (x : String) : Interpretation Nat where
  value env n := (nameOf? n).elim (if n.DependsOn x then env x else 0) env
  apply f _ := f
  item _ k := k
  tuple vs := vs.foldr (· + ·) 2
  mapping _ := 0
  holds _ := false
  value_name _ _ _ _ := rfl
  value_congr env env' n agree := by
    cases name : nameOf? n with
    | some y => exact agree y ((dependsOn_iff_of_nameOf? name).2 rfl)
    | none =>
      by_cases depends : n.DependsOn x
      · simp [depends, agree x depends]
      · simp [depends]

variable {x : String} {n : Node}

theorem reading_of_dependsOn (depends : n.DependsOn x) (env : String → Nat) :
    (reading x).value env n = env x := by
  change (nameOf? n).elim _ env = _
  cases name : nameOf? n with
  | some y =>
    obtain rfl : y = x := (dependsOn_iff_of_nameOf? name).1 depends
    rfl
  | none => exact if_pos depends

theorem two_le_reading_tuple {vs : List Nat} : 2 ≤ (reading x).tuple vs := by
  change 2 ≤ vs.foldr (· + ·) 2
  induction vs with
  | nil => exact Nat.le_refl 2
  | cons v vs ih => exact Nat.le_trans ih (Nat.le_add_left _ v)

theorem reading_tuple_eq_two_iff {vs : List Nat} : (reading x).tuple vs = 2 ↔ ∀ v ∈ vs, v = 0 := by
  induction vs with
  | nil => simp [reading]
  | cons v vs ih =>
    have rest : 2 ≤ (reading x).tuple vs := two_le_reading_tuple
    have first : (reading x).tuple (v :: vs) = v + (reading x).tuple vs := rfl
    rw [List.forall_mem_cons, ← ih, first]
    omega

theorem reading_zero : (reading x).value (fun _ => 0) n = 0 := by
  change (nameOf? n).elim _ _ = _
  cases nameOf? n with
  | some y => rfl
  | none => exact ite_self 0

/-- If all names that are bound get the value 1, an expression that depends on one of them has it. -/
theorem reading_bound {names : List String} (mem : x ∈ names) (depends : n.DependsOn x) :
    (reading x).value (bound (fun _ => 0) (names.zip (List.replicate names.length 1))) n = 1 := by
  rw [reading_of_dependsOn depends]
  apply bound_of_forall
  · exact fun p hp => List.eq_of_mem_replicate (List.of_mem_zip hp).2
  · rwa [List.map_fst_zip (by simp)]

/-- An expression has the same value inside of a construct that binds a name as outside, whatever
expressions mean, exactly if it does not depend on the name. -/
theorem forall_value_bound_iff : (∀ (Val : Type) (M : Interpretation Val) (env : String → Val) (v : Val),
    M.value (bound env [(x, v)]) n = M.value env n) ↔ ¬n.DependsOn x := by
  constructor
  · intro same depends
    have inside : (reading x).value (bound (fun _ => 0) [(x, 1)]) n = 1 :=
      reading_bound (List.mem_singleton_self x) depends
    rw [same, reading_zero] at inside
    cases inside
  · intro free Val M env v
    exact M.value_bound (by simpa using free)

end Interpretation

end IdiomLint
