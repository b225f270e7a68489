import IdiomLint.Proofs.MethodChains
import Mathlib.Data.List.Forall2

/-! Hashes that are made without data and updated by the statements right after. The check holds a hash
for fresh as long as statements update it, so it joins every update of such a run with the assignment in
front, not the first one alone. Joining moves the data of an update before the assignment and before the
data of the updates between. Compared here with the bytes that the hash is fed with: they stay the same,
whatever expressions and hashes mean, exactly if the data is passed as it is and does not depend on the
variable and if all updates between pass the same. -/
namespace IdiomLint

open Rules.Functions (nameOf?)

/-- What hashes are, beside what expressions mean. -/
structure Hashing (Val Byte : Type) extends Interpretation Val where
  /-- The hash that a call without data makes. -/
  make : Val → Val
  feed : Val → List Byte → Val
  /-- The bytes of an argument. -/
  passes : ArgKind → Val → List Byte

/-- The values of the variables, and what the hashes in them have been fed with. -/
structure Hashes (Val Byte : Type) where
  env : String → Val
  fed : String → List Byte

namespace Hashing

variable {Val Byte : Type} (M : Hashing Val Byte)

def bytes (env : String → Val) (a : CallArg Node) : List Byte := M.passes a.kind (M.value env a.value)

/-- A variable is fed with the data of a call. -/
def absorb (s : Hashes Val Byte) (x : String) (h : Val) (fed : List Byte)
    (args : List (CallArg Node)) : Hashes Val Byte where
  env := Function.update s.env x (M.feed h (args.flatMap (M.bytes s.env)))
  fed := Function.update s.fed x (fed ++ args.flatMap (M.bytes s.env))

/-- What `x = maker(data)` and `x.update(data)` do; no other statements are looked at. -/
def exec (s : Hashes Val Byte) : Node → Hashes Val Byte
  | ⟨_, .assignment [⟨_, .name x _⟩] ⟨_, .call maker args _⟩⟩ =>
    M.absorb s x.name (M.make (M.value s.env maker)) [] args
  | ⟨_, .expression ⟨_, .call ⟨_, .member ⟨_, .name x _⟩ method⟩ args _⟩⟩ =>
    if method.name = "update" then M.absorb s x.name (s.env x.name) (s.fed x.name) args else s
  | _ => s

def run (s : Hashes Val Byte) (stmts : List Node) : Hashes Val Byte := stmts.foldl M.exec s

end Hashing

namespace Rules.Digests

open Finding MethodChains

inductive Makes (x : Ref) (maker : Node) (args : List (CallArg Node)) : Node → Prop
  | intro {i j k : Info} {binding : Option Binding} {analyzed : Option Node} :
    Makes x maker args ⟨i, .assignment [⟨j, .name x binding⟩] ⟨k, .call maker args analyzed⟩⟩

inductive Feeds (base : Node) (arg : CallArg Node) : Node → Prop
  | intro {i j k : Info} {method : Ref} {analyzed : Option Node} (named : method.name = "update") :
    Feeds base arg ⟨i, .expression ⟨j, .call ⟨k, .member base method⟩ [arg] analyzed⟩⟩

/-- A new hash, made without data. -/
structure Creation where
  stmt : Node
  x : Ref
  maker : Node
  algorithm : ∃ ref, maker.ref? = some ref ∧ ref.fullname ∈ algorithms
  makes : Makes x maker [] stmt

structure Update where
  stmt : Node
  base : Node
  ref : Ref
  arg : CallArg Node
  refers : base.ref? = some ref
  feeds : Feeds base arg stmt

/-- Right before a place with an update stands the assignment of a new hash, with nothing but updates
between. All of them refer to the variable that is assigned. -/
structure UpdatedAt (p : Place) (made : Creation) (between : List Update) (u : Update) : Prop where
  here : p.stmt = u.stmt
  behind : ∃ before, p.earlier = (between.map (·.stmt)).reverse ++ made.stmt :: before
  same : ∀ v ∈ between ++ [u], v.ref.fullname = made.x.fullname

/-- The report that joins an update of `x` with the assignment. -/
def joining (made maker : Node) (x : String) (data : Node) : Finding :=
  replace made (x ++ " = " ++ maker.sourceText ++ "(); " ++ x ++ ".update(" ++ data.sourceText ++ ")")
    (x ++ " = " ++ maker.sourceText ++ "(" ++ data.sourceText ++ ")")

/-- To make the hash with the data of an update, which is left out, changes nothing about the bytes that
it is fed with. -/
def Keeps (made : Creation) (between : List Update) (u : Update) : Prop :=
  ∀ (Val Byte : Type) (M : Hashing Val Byte) (s : Hashes Val Byte) (joined : Node),
    Makes made.x made.maker [⟨u.arg.value, .pos, none⟩] joined →
      (M.run s (joined :: between.map (·.stmt))).fed made.x.name =
        (M.run s (made.stmt :: (between ++ [u]).map (·.stmt))).fed made.x.name

variable {last : Option FreshHash} {h : FreshHash} {stmt : Node} {earlier rest : List Node}

def Creation.fresh (made : Creation) : FreshHash := ⟨made.stmt, made.x.fullname, made.maker⟩

theorem freshHash?_eq_some_iff :
    freshHash? stmt = some h ↔ ∃ made : Creation, made.stmt = stmt ∧ made.fresh = h := by
  constructor
  · intro found
    unfold freshHash? at found
    split at found
    · next i j x binding k maker analyzed =>
      split at found
      · next ref refers =>
        split at found
        · next known =>
          obtain rfl := Option.some.inj found
          exact ⟨⟨_, x, maker, ⟨ref, refers, List.contains_iff_mem.1 known⟩, .intro⟩, rfl, rfl⟩
        · cases found
      · cases found
    · cases found
  · rintro ⟨⟨stmt, x, maker, ⟨ref, refers, known⟩, ⟨⟩⟩, rfl, rfl⟩
    simp [freshHash?, refers, known, Creation.fresh]

theorem update?_eq_some_iff {ref : Ref} {data : Node} :
    update? stmt = some (ref, data) ↔
      ∃ u : Update, u.stmt = stmt ∧ u.ref = ref ∧ u.arg.value = data := by
  constructor
  · intro found
    unfold update? at found
    split at found
    · next i j k base method value kind name analyzed =>
      split at found
      · next named =>
        obtain ⟨ref, refers, pair⟩ := Option.map_eq_some_iff.1 found
        obtain ⟨rfl, rfl⟩ := Prod.mk.inj pair
        exact ⟨⟨_, base, ref, ⟨value, kind, name⟩, refers, .intro (beq_iff_eq.1 named)⟩, rfl, rfl, rfl⟩
      · cases found
    · cases found
  · rintro ⟨⟨stmt, base, ref, arg, refers, ⟨named⟩⟩, rfl, rfl, rfl⟩
    simp [update?, named, refers]

theorem Update.freshHash? (u : Update) : freshHash? u.stmt = none := by
  obtain ⟨stmt, base, ref, arg, refers, ⟨named⟩⟩ := u
  rfl

def reportAt (fresh : Option FreshHash) (stmt : Node) : Option Finding :=
  fresh.bind fun h => ((update? stmt).filter fun u => h.target == u.1.fullname).map fun u =>
    joining h.stmt h.maker u.1.name u.2

def freshAfter (fresh : Option FreshHash) (stmt : Node) : Option FreshHash :=
  (freshHash? stmt).or
    (fresh.filter fun h => (update? stmt).any fun u => h.target == u.1.fullname)

theorem hashUpdates_cons :
    hashUpdates last (stmt :: rest) =
      (reportAt last stmt).toList ++ hashUpdates (freshAfter last stmt) rest := by
  cases made : freshHash? stmt with
  | some h =>
    have other : update? stmt = none := by
      rw [Option.eq_none_iff_forall_ne_some]
      rintro ⟨ref, data⟩ found
      obtain ⟨u, rfl, -⟩ := update?_eq_some_iff.1 found
      rw [u.freshHash?] at made
      cases made
    cases last <;> simp [hashUpdates, made, reportAt, freshAfter, other]
  | none =>
    cases last with
    | none => simp [hashUpdates, made, reportAt, freshAfter]
    | some h =>
      cases found : update? stmt with
      | none => simp [hashUpdates, made, found, reportAt, freshAfter]
      | some u =>
        by_cases same : h.target = u.1.fullname
        · simp [hashUpdates, made, found, reportAt, freshAfter, Option.filter_some, same, joining]
        · simp [hashUpdates, made, found, reportAt, freshAfter, Option.filter_some, same]

def remembered : List Node → Option FreshHash
  | [] => none
  | stmt :: earlier => freshAfter (remembered earlier) stmt

theorem hashUpdates_remembered (stmts : List Node) :
    hashUpdates (remembered earlier) stmts =
      (placesFrom earlier stmts).filterMap fun p => reportAt (remembered p.earlier) p.stmt := by
  induction stmts generalizing earlier with
  | nil => rfl
  | cons stmt rest ih =>
    have step : hashUpdates (remembered (stmt :: earlier)) rest = _ := ih
    rw [remembered] at step
    rw [hashUpdates_cons, step, placesFrom, List.filterMap_cons]
    cases reportAt (remembered earlier) stmt <;> rfl

/-- What is remembered is the last hash that was made, if only updates of its variable came after. -/
theorem remembered_eq_some_iff :
    remembered earlier = some h ↔
      ∃ (made : Creation) (between : List Update) (before : List Node),
        earlier = (between.map (·.stmt)).reverse ++ made.stmt :: before ∧
          (∀ v ∈ between, v.ref.fullname = made.x.fullname) ∧ made.fresh = h := by
  induction earlier generalizing h with
  | nil => simp [remembered]
  | cons stmt earlier ih =>
    rw [remembered, freshAfter, Option.or_eq_some_iff]
    constructor
    · rintro (found | ⟨-, kept⟩)
      · obtain ⟨made, rfl, rfl⟩ := freshHash?_eq_some_iff.1 found
        exact ⟨made, [], earlier, rfl, by simp, rfl⟩
      · obtain ⟨known, updated⟩ := Option.filter_eq_some_iff.1 kept
        obtain ⟨⟨ref, data⟩, found, same⟩ := (Option.any_eq_true _ _).1 updated
        obtain ⟨made, between, before, rfl, alike, rfl⟩ := ih.1 known
        obtain ⟨u, rfl, rfl, rfl⟩ := update?_eq_some_iff.1 found
        have last : ∀ v ∈ [u], v.ref.fullname = made.x.fullname :=
          List.forall_mem_singleton.2 (beq_iff_eq.1 same).symm
        exact ⟨made, between ++ [u], before, by simp, List.forall_mem_append.2 ⟨alike, last⟩, rfl⟩
    · rintro ⟨made, between, before, split, alike, rfl⟩
      -- the last statement is the last update, or the assignment where there is none
      obtain rfl | ⟨between, u, rfl⟩ := List.eq_nil_or_concat between
      · obtain ⟨rfl, rfl⟩ := List.cons.inj split
        exact .inl (freshHash?_eq_some_iff.2 ⟨made, rfl, rfl⟩)
      · obtain ⟨alike, last⟩ := List.forall_mem_append.1 (List.concat_eq_append ▸ alike)
        obtain ⟨rfl, rfl⟩ : stmt = u.stmt ∧
            earlier = (between.map (·.stmt)).reverse ++ made.stmt :: before := by simpa using split
        refine .inr ⟨u.freshHash?, Option.filter_eq_some_iff.2 ⟨?_, (Option.any_eq_true _ _).2 ?_⟩⟩
        · exact ih.2 ⟨made, between, before, rfl, alike, rfl⟩
        · have same := List.forall_mem_singleton.1 last
          exact ⟨_, update?_eq_some_iff.2 ⟨u, rfl, rfl, rfl⟩, by simp [Creation.fresh, same]⟩

/-- A report is made at the places that the relation describes, and joins the update there. -/
theorem reportAt_eq_some_iff {p : Place} {f : Finding} :
    reportAt (remembered p.earlier) p.stmt = some f ↔
      ∃ made between u, UpdatedAt p made between u ∧
        f = joining made.stmt made.maker u.ref.name u.arg.value := by
  constructor
  · intro found
    obtain ⟨h, known, reported⟩ := Option.bind_eq_some_iff.1 found
    obtain ⟨⟨ref, data⟩, taken, rfl⟩ := Option.map_eq_some_iff.1 reported
    obtain ⟨updated, same⟩ := Option.filter_eq_some_iff.1 taken
    obtain ⟨made, between, before, split, alike, rfl⟩ := remembered_eq_some_iff.1 known
    obtain ⟨u, here, rfl, rfl⟩ := update?_eq_some_iff.1 updated
    have last : ∀ v ∈ [u], v.ref.fullname = made.x.fullname :=
      List.forall_mem_singleton.2 (beq_iff_eq.1 same).symm
    exact ⟨made, between, u,
      ⟨here.symm, ⟨before, split⟩, List.forall_mem_append.2 ⟨alike, last⟩⟩, rfl⟩
  · rintro ⟨made, between, u, ⟨here, ⟨before, split⟩, same⟩, rfl⟩
    obtain ⟨alike, last⟩ := List.forall_mem_append.1 same
    have known : remembered p.earlier = some made.fresh :=
      remembered_eq_some_iff.2 ⟨made, between, before, split, alike, rfl⟩
    have updated : update? p.stmt = some (u.ref, u.arg.value) :=
      update?_eq_some_iff.2 ⟨u, here.symm, rfl, rfl⟩
    simp [reportAt, known, updated, Creation.fresh, Option.filter_some, List.forall_mem_singleton.1 last]

theorem Makes.exec {x : Ref} {maker : Node} {args : List (CallArg Node)} (makes : Makes x maker args stmt)
    {Val Byte : Type} (M : Hashing Val Byte) (s : Hashes Val Byte) :
    M.exec s stmt = M.absorb s x.name (M.make (M.value s.env maker)) [] args := by
  obtain ⟨⟩ := makes
  rfl

theorem Update.exec {x : String} (u : Update) (named : nameOf? u.base = some x) {Val Byte : Type}
    (M : Hashing Val Byte) (s : Hashes Val Byte) :
    M.exec s u.stmt = M.absorb s x (s.env x) (s.fed x) [u.arg] := by
  obtain ⟨stmt, ⟨i, shape⟩, ref, arg, refers, ⟨method⟩⟩ := u
  cases shape with
  | name ref binding =>
    obtain rfl : ref.name = x := Option.some.inj named
    exact if_pos method
  | _ => cases named

section

variable {x : String} {updates between : List Update} {made : Creation} {u : Update}

/-- Where each update passes known bytes, whatever the updates before have made of the hash, these are
added in order. -/
theorem fed_run {Val Byte : Type} (M : Hashing Val Byte) {env : String → Val} {possible : Val → Prop}
    {given : Update → List Byte} (closed : ∀ v bytes, possible (M.feed v bytes))
    (named : ∀ u ∈ updates, nameOf? u.base = some x)
    (passed : ∀ u ∈ updates, ∀ v, possible v → M.bytes (Function.update env x v) u.arg = given u)
    {v : Val} (hv : possible v) (fed : String → List Byte) :
    (M.run ⟨Function.update env x v, fed⟩ (updates.map (·.stmt))).fed x =
      fed x ++ updates.flatMap given := by
  induction updates generalizing v fed with
  | nil => exact (List.append_nil _).symm
  | cons u updates ih =>
    rw [List.forall_mem_cons] at named passed
    have first : M.exec ⟨Function.update env x v, fed⟩ u.stmt =
        ⟨Function.update env x (M.feed v (given u)), Function.update fed x (fed x ++ given u)⟩ := by
      rw [u.exec named.1]
      simp [Hashing.absorb, passed.1 v hv]
    have later := ih named.2 passed.2 (closed v (given u)) (Function.update fed x (fed x ++ given u))
    rw [List.map_cons, Hashing.run, List.foldl_cons, first]
    rw [Hashing.run] at later
    simp [later]

theorem fed_run_of_makes {y : Ref} {maker : Node} {args : List (CallArg Node)}
    (makes : Makes y maker args stmt) {Val Byte : Type} (M : Hashing Val Byte) {s : Hashes Val Byte}
    {possible : Val → Prop} {given : Update → List Byte} (closed : ∀ v bytes, possible (M.feed v bytes))
    (named : ∀ u ∈ updates, nameOf? u.base = some y.name)
    (passed : ∀ u ∈ updates, ∀ v, possible v → M.bytes (Function.update s.env y.name v) u.arg = given u) :
    (M.run s (stmt :: updates.map (·.stmt))).fed y.name =
      args.flatMap (M.bytes s.env) ++ updates.flatMap given := by
  have later := fed_run M closed named passed (closed (M.make (M.value s.env maker))
    (args.flatMap (M.bytes s.env))) (Function.update s.fed y.name ([] ++ args.flatMap (M.bytes s.env)))
  simpa [Hashing.run, makes.exec, Hashing.absorb] using later

/-- Expressions that mean the same wherever they stand. -/
def SameMeaning (a b : Node) : Prop := a = b ∨ ∃ y, nameOf? a = some y ∧ nameOf? b = some y

theorem SameMeaning.value {a b : Node} (h : SameMeaning a b) {Val : Type} (M : Interpretation Val)
    (env : String → Val) : M.value env a = M.value env b := by
  obtain rfl | ⟨y, left, right⟩ := h
  · rfl
  · rw [M.value_of_nameOf? env left, M.value_of_nameOf? env right]

/-- Equal bytes can be fed in any order. -/
theorem flatMap_const_concat {α β : Type} (as : List α) (bs : List β) :
    (as.flatMap fun _ => bs) ++ bs = bs ++ as.flatMap fun _ => bs := by
  induction as with
  | nil => simp
  | cons a as ih => simp [ih]

theorem keeps_of_same (named : ∀ v ∈ between ++ [u], nameOf? v.base = some made.x.name)
    (free : ¬u.arg.value.DependsOn made.x.name)
    (same : ∀ v ∈ between ++ [u], v.arg.kind = .pos ∧ SameMeaning v.arg.value u.arg.value) :
    Keeps made between u := by
  intro Val Byte M s joined makes
  have passed : ∀ v ∈ between ++ [u], ∀ h, True →
      M.bytes (Function.update s.env made.x.name h) v.arg =
        M.passes .pos (M.value s.env u.arg.value) := by
    intro v hv h _
    obtain ⟨kind, meaning⟩ := same v hv
    have unread : M.value (Function.update s.env made.x.name h) u.arg.value =
        M.value s.env u.arg.value := by
      change M.value (bound s.env [(made.x.name, h)]) _ = _
      exact M.value_bound (by simpa using free)
    rw [Hashing.bytes, kind, meaning.value, unread]
  have before := fed_run_of_makes made.makes M (fun _ _ => trivial) named passed
  have after := fed_run_of_makes makes M (fun _ _ => trivial)
    (fun v hv => named v (List.mem_append_left _ hv)) (fun v hv => passed v (List.mem_append_left _ hv))
  rw [before, after]
  simp [Hashing.bytes, flatMap_const_concat]

open Classical in
/-- The data has the value 1, other expressions that are no names have the value of the variable if they
depend on it. A hash has the value 0. -/
noncomputable def telling (x : String) (data : Node) : Hashing Nat Nat where
  value env n := (nameOf? n).elim (if n.DependsOn x then env x else if n = data then 1 else 0) env
  apply f _ := f
  item _ k := k
  tuple _ := 0
  mapping _ := 0
  holds _ := false
  value_name _ _ _ _ := rfl
  value_congr env env' n agree := by
    cases name : nameOf? n with
    | some y => exact agree y ((Node.dependsOn_iff_of_nameOf? name).2 rfl)
    | none =>
      by_cases depends : n.DependsOn x
      · simp [depends, agree x depends]
      · simp [depends]
  make _ := 0
  feed _ _ := 0
  passes kind v := [if kind = .pos then v else 0]

/-- The variable has the value 1, and so has the data if it is another one. -/
def telltale (x : String) (data : Node) (y : String) : Nat :=
  if y = x ∨ nameOf? data = some y then 1 else 0

variable {data n : Node}

theorem telling_data : (telling x data).value (telltale x data) data = 1 := by
  change (nameOf? data).elim _ _ = _
  cases name : nameOf? data with
  | some y => simp [telltale, name]
  | none => simp [telltale]

theorem of_telling_eq_one
    (one : (telling x data).value (Function.update (telltale x data) x 0) n = 1) :
    ¬n.DependsOn x ∧ SameMeaning n data := by
  change (nameOf? n).elim _ _ = _ at one
  cases name : nameOf? n with
  | some y =>
    rw [name, Option.elim_some, Function.update_apply] at one
    rw [Node.dependsOn_iff_of_nameOf? name]
    by_cases equal : y = x
    · simp [equal] at one
    · exact ⟨equal, .inr ⟨y, name, by simpa [telltale, equal] using one⟩⟩
  | none =>
    by_cases depends : n.DependsOn x
    · simp [name, depends] at one
    · exact ⟨depends, .inl (by simpa [name, depends] using one)⟩

theorem forall_mem_eq_of_concat_eq_cons {α : Type} {as : List α} {a b : α} (h : as ++ [b] = a :: as) :
    ∀ c ∈ as ++ [b], c = a := by
  induction as generalizing a with
  | nil => simpa using h
  | cons c as ih =>
    obtain ⟨rfl, rest⟩ := List.cons.inj h
    exact List.forall_mem_cons.2 ⟨rfl, ih rest⟩

theorem Keeps.same (named : ∀ v ∈ between ++ [u], nameOf? v.base = some made.x.name)
    (keeps : Keeps made between u) :
    ∀ v ∈ between ++ [u], v.arg.kind = .pos ∧ ¬v.arg.value.DependsOn made.x.name ∧
      SameMeaning v.arg.value u.arg.value := by
  let M := telling made.x.name u.arg.value
  let s : Hashes Nat Nat := ⟨telltale made.x.name u.arg.value, fun _ => []⟩
  let code (v : Update) : Nat :=
    if v.arg.kind = .pos then M.value (Function.update s.env made.x.name 0) v.arg.value else 0
  have passed : ∀ v ∈ between ++ [u], ∀ h, h = 0 →
      M.bytes (Function.update s.env made.x.name h) v.arg = [code v] := by
    rintro v - h rfl
    rfl
  have joined : Makes made.x made.maker [⟨u.arg.value, .pos, none⟩]
      ⟨default, .assignment [⟨default, .name made.x none⟩]
        ⟨default, .call made.maker [⟨u.arg.value, .pos, none⟩] none⟩⟩ := .intro
  have before := fed_run_of_makes made.makes M (fun _ _ => rfl) named passed
  have after := fed_run_of_makes joined M (fun _ _ => rfl)
    (fun v hv => named v (List.mem_append_left _ hv)) (fun v hv => passed v (List.mem_append_left _ hv))
  -- the joined data is a 1 in front, which moves to the end only if all bytes are the same
  have first : M.bytes s.env ⟨u.arg.value, .pos, none⟩ = [1] := congrArg (· :: []) telling_data
  have equal := keeps Nat Nat M s _ joined
  rw [before, after, ← List.map_eq_flatMap, ← List.map_eq_flatMap, List.map_append] at equal
  simp only [List.flatMap_cons, List.flatMap_nil, first, List.nil_append, List.append_nil,
    List.singleton_append, List.map_cons, List.map_nil] at equal
  intro v hv
  have one : code v = 1 := forall_mem_eq_of_concat_eq_cons equal.symm (code v)
    (by simpa using List.mem_map_of_mem (f := code) hv)
  by_cases kind : v.arg.kind = .pos
  · exact ⟨kind, of_telling_eq_one (by simpa [code, kind] using one)⟩
  · simp [code, kind] at one

theorem keeps_iff (named : ∀ v ∈ between ++ [u], nameOf? v.base = some made.x.name) :
    Keeps made between u ↔
      ¬u.arg.value.DependsOn made.x.name ∧
        ∀ v ∈ between ++ [u], v.arg.kind = .pos ∧ SameMeaning v.arg.value u.arg.value := by
  constructor
  · intro keeps
    have same := keeps.same named
    exact ⟨(same u (by simp)).2.1, fun v hv => ⟨(same v hv).1, (same v hv).2.2⟩⟩
  · rintro ⟨free, same⟩
    exact keeps_of_same named free same

end

theorem forall₂_filter_filterMap {α β : Type} {P : α → Prop} [DecidablePred P] {R : α → β → Prop}
    {g : α → Option β} (reported : ∀ a, (∃ b, g a = some b) ↔ P a)
    (related : ∀ a b, g a = some b → R a b) (as : List α) :
    List.Forall₂ R (as.filter fun a => P a) (as.filterMap g) := by
  induction as with
  | nil => exact .nil
  | cons a as ih =>
    cases here : g a with
    | none =>
      have silent : ¬P a := by simp [← reported, here]
      simpa [here, silent] using ih
    | some b =>
      have reports : P a := (reported a).1 ⟨b, here⟩
      simpa [here, reports, related a b here] using ih

open scoped Classical in
/-- Every update in a run of updates right after a new hash was assigned is joined with the assignment,
in order, and nothing else is reported. Where the updates are all spelled with the name that is assigned,
the hash is fed with the same bytes after joining exactly if the data does not depend on the hash and all
updates up to there pass the same as it is. -/
theorem hash_updates_joined (env : Env) (n : Node) :
    List.Forall₂
      (fun p f => ∃ made between u, UpdatedAt p made between u ∧
        f = joining made.stmt made.maker u.ref.name u.arg.value ∧
          ((∀ v ∈ between ++ [u], nameOf? v.base = some made.x.name) →
            (Keeps made between u ↔ ¬u.arg.value.DependsOn made.x.name ∧
              ∀ v ∈ between ++ [u], v.arg.kind = .pos ∧ SameMeaning v.arg.value u.arg.value)))
      ((places (n.statementList?.getD [])).filter fun p => ∃ made between u, UpdatedAt p made between u)
      (hashConstructor env n) := by
  have scanned : hashConstructor env n = (places (n.statementList?.getD [])).filterMap
      fun p => reportAt (remembered p.earlier) p.stmt := @hashUpdates_remembered [] _
  rw [scanned]
  apply forall₂_filter_filterMap
  · intro p
    constructor
    · rintro ⟨f, reported⟩
      obtain ⟨made, between, u, updated, -⟩ := reportAt_eq_some_iff.1 reported
      exact ⟨made, between, u, updated⟩
    · rintro ⟨made, between, u, updated⟩
      exact ⟨_, reportAt_eq_some_iff.2 ⟨made, between, u, updated, rfl⟩⟩
  · intro p f reported
    obtain ⟨made, between, u, updated, text⟩ := reportAt_eq_some_iff.1 reported
    exact ⟨made, between, u, updated, text, keeps_iff⟩

def newHash : Creation where
  stmt := ⟨default, .assignment [⟨default, .name ⟨"h", "h", none, false⟩ none⟩]
    ⟨default, .call ⟨default, .name ⟨"sha256", "hashlib.sha256", none, false⟩ none⟩ [] none⟩⟩
  x := ⟨"h", "h", none, false⟩
  maker := ⟨default, .name ⟨"sha256", "hashlib.sha256", none, false⟩ none⟩
  algorithm := ⟨_, rfl, by decide⟩
  makes := .intro

def updating (arg : CallArg Node) : Update where
  stmt := ⟨default, .expression ⟨default, .call
    ⟨default, .member ⟨default, .name ⟨"h", "h", none, false⟩ none⟩ ⟨"update", "", none, false⟩⟩
    [arg] none⟩⟩
  base := ⟨default, .name ⟨"h", "h", none, false⟩ none⟩
  ref := ⟨"h", "h", none, false⟩
  arg := arg
  refers := rfl
  feeds := .intro rfl

/-- After `h = sha256()`, both updates with `a` and with `b` are joined with the assignment, although the
second one would put `b` in front of `a`. So are updates with `h.digest()` and with `*c`. -/
theorem moved_data_joined :
    let env : Env := ⟨.empty, ⟨3, 10⟩, []⟩
    let a := updating ⟨nameNode "a", .pos, none⟩
    let b := updating ⟨nameNode "b", .pos, none⟩
    let own := updating ⟨⟨default, .call (memberNode "h" "digest") [] none⟩, .pos, none⟩
    let spread := updating ⟨nameNode "c", .star, none⟩
    let joined (u : Update) := joining newHash.stmt newHash.maker "h" u.arg.value
    hashConstructor env ⟨default, .block [newHash.stmt, a.stmt, b.stmt]⟩ = [joined a, joined b] ∧
      ¬Keeps newHash [a] b ∧
      ∀ u ∈ [own, spread], hashConstructor env ⟨default, .block [newHash.stmt, u.stmt]⟩ = [joined u] ∧
        ¬Keeps newHash [] u := by
  intro env a b own spread joined
  refine ⟨rfl, fun keeps => ?_, ?_⟩
  · have same := ((keeps_iff (by simp [a, b, updating, newHash, nameOf?])).1 keeps).2 a (by simp)
    simpa [SameMeaning, a, b, updating, nameNode, nameOf?] using same.2
  · simp only [List.forall_mem_cons]
    refine ⟨⟨rfl, fun keeps => ?_⟩, ⟨rfl, fun keeps => ?_⟩, List.forall_mem_nil _⟩
    · have free := ((keeps_iff (by simp [own, updating, newHash, nameOf?])).1 keeps).1
      have digest : (memberNode "h" "digest").DependsOn "h" := Node.dependsOn_memberNode.2 rfl
      refine free (.outer ?_ digest)
      simp [own, updating, Node.outerParts, Node.children]
    · have same := ((keeps_iff (by simp [spread, updating, newHash, nameOf?])).1 keeps).2 spread (by simp)
      cases same.1

end Rules.Digests

end IdiomLint
