import IdiomLint.Syntax.Equivalence
import Mathlib.Data.List.Basic
import Mathlib.Data.List.Forall2
import Mathlib.Data.List.Nodup

/-! Which parameter receives which argument of a call, as the language binds them, and what leaving
out arguments does to that: the parameters that lose theirs fall back to their defaults, and nothing
else changes, if every argument left out equals the default of its parameter and no argument that
is passed by position stands behind it. Which parameters a call may name is given by `nameable`: all
that are not marked as filled by position only, and possibly some of those, since a parameter can be
marked so for its name alone. -/
namespace IdiomLint

/-- One thing that a call passes: an argument as it is written, or something that is unpacked from a
starred argument or handed over by the language. -/
inductive Passed (Value : Type) where
  | written (value : Node)
  | unpacked (value : Value)

inductive Received (Value : Type) where
  | one (passed : Passed Value)
  | byDefault
  | rest (passed : List (Passed Value))
  | restByName (passed : List (String × Passed Value))

/-- What the starred arguments of a call hold. -/
structure Contents (Value : Type) where
  items : Node → List Value
  entries : Node → List (String × Value)

def ArgKind.isPositional : ArgKind → Bool
  | .pos | .opt => true
  | _ => false

def ArgKind.gathers : ArgKind → Bool
  | .star | .starStar => true
  | _ => false

def ArgKind.place : ArgKind → Nat
  | .pos | .opt => 0
  | .star => 1
  | .named | .namedOpt => 2
  | .starStar => 3

namespace CallArg

variable {Value : Type} (contents : Contents Value)

def placed (a : CallArg Node) : List (Passed Value) :=
  match a.kind with
  | .pos => [.written a.value]
  | .star => (contents.items a.value).map .unpacked
  | _ => []

def named (a : CallArg Node) : List (String × Passed Value) :=
  match a.kind with
  | .named => a.name.toList.map fun name => (name, .written a.value)
  | .starStar => (contents.entries a.value).map fun e => (e.1, .unpacked e.2)
  | _ => []

variable {contents}

theorem placed_eq_nil {a : CallArg Node} (h : ¬(a.kind = .pos ∨ a.kind = .star)) :
    a.placed contents = [] := by
  cases kind : a.kind <;> simp_all [placed]

end CallArg

namespace CallBinding

variable {Value : Type} (nameable : Param Node → Bool)

/-- Fills a parameter by its name, or else leaves it to its default. -/
def fill? (p : Param Node) (named : List (String × Passed Value)) :
    Option (Received Value × List (String × Passed Value)) :=
  match if nameable p then named.lookup p.name else none with
  | some x => some (.one x, named.filter (·.1 != p.name))
  | none => if p.initial.isSome then some (.byDefault, named) else none

/-- What one parameter receives, and what remains for the next. A parameter that is filled by
position may not be named too. -/
def take? (p : Param Node) (placed : List (Passed Value)) (named : List (String × Passed Value)) :
    Option (Received Value × List (Passed Value) × List (String × Passed Value)) :=
  match p.kind, placed with
  | .star, placed => some (.rest placed, [], named)
  | .starStar, placed => some (.restByName named, placed, [])
  | .pos, x :: placed | .opt, x :: placed =>
    if nameable p && named.any (·.1 == p.name) then none else some (.one x, placed, named)
  | _, placed => (fill? nameable p named).map fun (x, named) => (x, placed, named)

def all? : List (Param Node) → List (Passed Value) → List (String × Passed Value) →
    Option (List (Param Node × Received Value))
  | [], [], [] => some []
  | [], _, _ => none
  | p :: ps, placed, named => do
    let (x, placed, named) ← take? nameable p placed named
    let rest ← all? ps placed named
    return (p, x) :: rest

/-- What the parameters receive from a call, with what the language hands over before its arguments;
none if the call is refused. A name may be given once. -/
def call? (params : List (Param Node)) (handed : List Value) (contents : Contents Value)
    (args : List (CallArg Node)) : Option (List (Param Node × Received Value)) :=
  let named := args.flatMap (·.named contents)
  if (named.map (·.1)).Nodup then
    all? nameable params (handed.map .unpacked ++ args.flatMap (·.placed contents)) named
  else none

section

variable {nameable : Param Node → Bool} {p : Param Node} {x : Passed Value}
  {placed : List (Passed Value)} {named : List (String × Passed Value)}

theorem lookup_eq_some_iff_mem (keys : (named.map (·.1)).Nodup) {name : String} :
    named.lookup name = some x ↔ (name, x) ∈ named := by
  induction named with
  | nil => simp
  | cons e named ih =>
    obtain ⟨key, y⟩ := e
    rw [List.map_cons, List.nodup_cons] at keys
    rw [List.lookup_cons, List.mem_cons, Prod.mk.injEq]
    by_cases same : name = key
    · subst same
      have absent : (name, x) ∉ named := fun h => keys.1 (List.mem_map.2 ⟨_, h, rfl⟩)
      simp [absent, eq_comm]
    · have differs : (name == key) = false := by simpa using same
      simp only [differs, same, false_and, false_or]
      exact ih keys.2

theorem fill?_of_named (h : nameable p) (found : named.lookup p.name = some x) :
    fill? nameable p named = some (.one x, named.filter (·.1 != p.name)) := by
  simp [fill?, h, found]

theorem fill?_of_unnamed (absent : nameable p → p.name ∉ named.map (·.1)) :
    fill? nameable p named = if p.initial.isSome then some (.byDefault, named) else none := by
  have notFound : (if nameable p then named.lookup p.name else none) = none := by
    by_cases can : nameable p
    · rw [if_pos can, List.lookup_eq_none_iff]
      intro e he
      simpa using fun same : p.name = e.1 => absent can (same ▸ List.mem_map_of_mem he)
    · rw [if_neg can]
  rw [fill?, notFound]

theorem take?_of_star (h : p.kind = .star) :
    take? nameable p placed named = some (.rest placed, [], named) := by
  simp [take?, h]

theorem eq_starStar_of_gathers {kind : ArgKind} (h : kind.gathers) (star : kind ≠ .star) :
    kind = .starStar := by
  cases kind <;> simp_all [ArgKind.gathers]

theorem take?_of_starStar (h : p.kind = .starStar) :
    take? nameable p placed named = some (.restByName named, placed, []) := by
  simp [take?, h]

theorem take?_cons (h : p.kind.isPositional) :
    take? nameable p (x :: placed) named =
      if nameable p && named.any (·.1 == p.name) then none else some (.one x, placed, named) := by
  cases kind : p.kind <;> simp_all [take?, ArgKind.isPositional]

theorem take?_of_fill (single : p.kind.gathers = false) (h : p.kind.isPositional → placed = []) :
    take? nameable p placed named =
      (fill? nameable p named).map fun (y, named) => (y, placed, named) := by
  cases kind : p.kind <;> simp_all [take?, ArgKind.isPositional, ArgKind.gathers]

def EqualsDefault (p : Param Node) (x : Passed Value) : Prop :=
  ∃ value initial, x = .written value ∧ p.initial = some initial ∧ value.equivalent initial

/-- What a parameter receives when the arguments that are gone are left out: its default, equal to
the argument it has lost, or what it received before. -/
def Survives (gone : Passed Value → Bool) :
    Param Node × Received Value → Param Node × Received Value → Prop
  | (p, .one x), (q, y) => p = q ∧ if gone x then y = .byDefault ∧ EqualsDefault p x else y = .one x
  | before, after => before = after

/-- Parameters as the language lets them be declared: those that can be filled by position, one that
gathers positions, those that can be filled by name only, and one that gathers names. -/
structure Declared (nameable : Param Node → Bool) (params : List (Param Node)) : Prop where
  ordered : params.Pairwise fun p q => p.kind.place ≤ q.kind.place
  distinct : (params.map (·.name)).Nodup
  gathering : ∀ p ∈ params, p.kind.gathers → p.initial = none
  nameable : ∀ p ∈ params, p.positionOnly = false → p.kind.gathers = false → nameable p

/-- Something that is passed by name and equals the default of the parameter that it names. -/
def NamesDefault (nameable : Param Node → Bool) (params : List (Param Node))
    (e : String × Passed Value) : Prop :=
  ∃ p ∈ params, p.kind.gathers = false ∧ nameable p ∧ p.name = e.1 ∧ EqualsDefault p e.2

/-- What may be left out of the things that are passed to parameters: each equals the default of the
parameter that it is for, and none that is passed by position has one behind it that stays. -/
structure Removable (nameable : Param Node → Bool) (gone : Passed Value → Bool)
    (params : List (Param Node)) (placed : List (Passed Value))
    (named : List (String × Passed Value)) : Prop where
  toTheEnd : placed.Pairwise fun x y => gone x → gone y
  byPlace : ∀ (i : Nat) (x : Passed Value), placed[i]? = some x → gone x →
    ∃ p, params[i]? = some p ∧ p.kind.isPositional ∧ EqualsDefault p x
  byName : ∀ e ∈ named, gone e.2 → NamesDefault nameable params e

variable {gone : Passed Value → Bool} {ps : List (Param Node)}

theorem Declared.tail (h : Declared nameable (p :: ps)) : Declared nameable ps where
  ordered := (List.pairwise_cons.1 h.ordered).2
  distinct := (List.nodup_cons.1 h.distinct).2
  gathering q hq := h.gathering q (List.mem_cons_of_mem _ hq)
  nameable q hq := h.nameable q (List.mem_cons_of_mem _ hq)

theorem Declared.place_le (h : Declared nameable (p :: ps)) {q : Param Node} (hq : q ∈ p :: ps) :
    p.kind.place ≤ q.kind.place := by
  rcases List.mem_cons.1 hq with rfl | hq
  · exact Nat.le_refl _
  · exact (List.pairwise_cons.1 h.ordered).1 q hq

theorem Declared.eq_of_name (h : Declared nameable (p :: ps)) {q : Param Node} (hq : q ∈ p :: ps)
    (name : q.name = p.name) : q = p :=
  List.inj_on_of_nodup_map h.distinct hq List.mem_cons_self name

theorem place_eq_zero_iff {kind : ArgKind} : kind.place = 0 ↔ kind.isPositional := by
  cases kind <;> simp [ArgKind.place, ArgKind.isPositional]

theorem gathers_of_place {kind : ArgKind} (h : 3 ≤ kind.place) : kind.gathers := by
  cases kind <;> simp_all [ArgKind.place, ArgKind.gathers]

/-- Behind a parameter that is not filled by position nothing is, so that nothing which is passed by
position goes. -/
theorem Removable.kept_of_not_positional (rem : Removable nameable gone (p :: ps) placed named)
    (declared : Declared nameable (p :: ps)) (h : ¬p.kind.isPositional) :
    ∀ y ∈ placed, gone y = false := by
  intro y hy
  by_contra leaves
  obtain ⟨i, hi⟩ := List.mem_iff_getElem?.1 hy
  obtain ⟨q, at_, positional, -⟩ := rem.byPlace i y hi (by simpa using leaves)
  have le := declared.place_le (List.mem_of_getElem? at_)
  rw [← place_eq_zero_iff] at h positional
  omega

/-- What goes by name is for one of the parameters that follow, unless it is for this one. -/
theorem Removable.namesDefault_tail (rem : Removable nameable gone (p :: ps) placed named)
    {e : String × Passed Value} (he : e ∈ named) (leaves : gone e.2)
    (other : p.kind.gathers = false → nameable p → p.name ≠ e.1) : NamesDefault nameable ps e := by
  obtain ⟨q, hq, single, can, name, equals⟩ := rem.byName e he leaves
  rcases List.mem_cons.1 hq with rfl | hq
  · exact absurd name (other single can)
  · exact ⟨q, hq, single, can, name, equals⟩

/-- What is passed by position is left out from some place on, or not at all. -/
theorem Removable.of_append {kept left : List (Passed Value)} (stays : ∀ y ∈ kept, gone y = false)
    (leaves : ∀ (i : Nat) (y : Passed Value), left[i]? = some y → gone y ∧
      ∃ q, ps[kept.length + i]? = some q ∧ q.kind.isPositional ∧ EqualsDefault q y)
    (byName : ∀ e ∈ named, gone e.2 → NamesDefault nameable ps e) :
    Removable nameable gone ps (kept ++ left) named where
  toTheEnd := by
    have leavesAll (y : Passed Value) (hy : y ∈ left) : gone y := by
      obtain ⟨i, hi⟩ := List.mem_iff_getElem?.1 hy
      exact (leaves i y hi).1
    refine List.pairwise_append.2 ⟨?_, ?_, fun y hy z hz _ => leavesAll z hz⟩
    · refine List.pairwise_iff_forall_sublist.2 fun {y z} within goes => ?_
      rw [stays y (within.subset List.mem_cons_self)] at goes
      cases goes
    · exact List.pairwise_iff_forall_sublist.2 fun {y z} within _ =>
        leavesAll z (within.subset (by simp))
  byPlace i y hi goes := by
    by_cases early : i < kept.length
    · rw [List.getElem?_append_left early] at hi
      rw [stays y (List.mem_of_getElem? hi)] at goes
      cases goes
    · have le : kept.length ≤ i := by omega
      rw [List.getElem?_append_right le] at hi
      have found := (leaves _ y hi).2
      rwa [Nat.add_sub_cancel' le] at found
  byName := byName

theorem Removable.of_kept (kept : ∀ y ∈ placed, gone y = false)
    (byName : ∀ e ∈ named, gone e.2 → NamesDefault nameable ps e) :
    Removable nameable gone ps placed named := by
  have rem : Removable nameable gone ps (placed ++ []) named := .of_append kept (by simp) byName
  rwa [List.append_nil] at rem

theorem survives_of_gone (leaves : gone x) (equals : EqualsDefault p x) :
    Survives gone (p, .one x) (p, .byDefault) := by
  refine ⟨rfl, ?_⟩
  rw [if_pos leaves]
  exact ⟨rfl, equals⟩

theorem survives_of_stays (stays : ¬gone x) : Survives gone (p, .one x) (p, .one x) := by
  refine ⟨rfl, ?_⟩
  rw [if_neg stays]

theorem EqualsDefault.isSome_initial (h : EqualsDefault p x) : p.initial.isSome := by
  obtain ⟨value, initial, -, declared, -⟩ := h
  simp [declared]

abbrev stay (gone : Passed Value → Bool) (placed : List (Passed Value)) : List (Passed Value) :=
  placed.filter (!gone ·)

abbrev stayNamed (gone : Passed Value → Bool) (named : List (String × Passed Value)) :
    List (String × Passed Value) := named.filter (!gone ·.2)

theorem stay_eq_self (kept : ∀ y ∈ placed, gone y = false) : stay gone placed = placed := by
  simpa [stay] using kept

/-- A parameter that is filled by name or by default. -/
theorem exists_fill?_stayNamed (declared : Declared nameable (p :: ps))
    (keys : (named.map (·.1)).Nodup) (rem : Removable nameable gone (p :: ps) placed named)
    {y : Received Value} {named' : List (String × Passed Value)}
    (h : fill? nameable p named = some (y, named')) :
    ∃ z, fill? nameable p (stayNamed gone named) = some (z, stayNamed gone named') ∧
      Survives gone (p, y) (p, z) ∧ (named'.map (·.1)).Nodup ∧
      ∀ e ∈ named', gone e.2 → NamesDefault nameable ps e := by
  have keptKeys : ((stayNamed gone named).map (·.1)).Nodup :=
    keys.sublist (List.filter_sublist.map _)
  by_cases given : nameable p ∧ p.name ∈ named.map (·.1)
  · obtain ⟨can, hn⟩ := given
    obtain ⟨⟨name, x⟩, hx, same⟩ := List.mem_map.1 hn
    cases same
    rw [fill?_of_named can ((lookup_eq_some_iff_mem keys).2 hx)] at h
    cases h
    have nodup : ((named.filter (·.1 != p.name)).map (·.1)).Nodup :=
      keys.sublist (List.filter_sublist.map _)
    have later (e : String × Passed Value) (he : e ∈ named.filter (·.1 != p.name))
        (leaves : gone e.2) : NamesDefault nameable ps e := by
      obtain ⟨inNamed, differs⟩ := List.mem_filter.1 he
      exact rem.namesDefault_tail inNamed leaves fun _ _ name => by simp [name] at differs
    by_cases leaves : gone x
    · -- the parameter loses the only argument of its name
      have alone (e : String × Passed Value) (he : e ∈ named) (name : e.1 = p.name) : gone e.2 := by
        rwa [List.inj_on_of_nodup_map keys he hx name]
      have absent : p.name ∉ (stayNamed gone named).map (·.1) := by
        intro hn
        obtain ⟨e, he, name⟩ := List.mem_map.1 hn
        obtain ⟨inNamed, stays⟩ := List.mem_filter.1 he
        simp [alone e inNamed name] at stays
      have rest : stayNamed gone (named.filter (·.1 != p.name)) = stayNamed gone named := by
        rw [stayNamed, List.filter_filter]
        refine List.filter_congr fun e he => ?_
        by_cases name : e.1 = p.name
        · simp [alone e he name]
        · simp [name]
      obtain ⟨q, hq, single, -, name, equals⟩ := rem.byName _ hx leaves
      obtain rfl := declared.eq_of_name hq name
      refine ⟨.byDefault, ?_, survives_of_gone leaves equals, nodup, later⟩
      rw [fill?_of_unnamed fun _ => absent, rest, if_pos equals.isSome_initial]
    · have stays : (p.name, x) ∈ stayNamed gone named := by simp [stayNamed, hx, leaves]
      refine ⟨.one x, ?_, survives_of_stays leaves, nodup, later⟩
      rw [fill?_of_named can ((lookup_eq_some_iff_mem keptKeys).2 stays), stayNamed, stayNamed,
        List.filter_comm]
  · have absent : nameable p → p.name ∉ named.map (·.1) := fun can hn => given ⟨can, hn⟩
    have stillAbsent : nameable p → p.name ∉ (stayNamed gone named).map (·.1) :=
      fun can hn => absent can ((List.filter_sublist.map _).subset hn)
    rw [fill?_of_unnamed absent] at h
    split at h
    case isFalse => cases h
    case isTrue initial =>
      cases h
      refine ⟨.byDefault, ?_, rfl, keys, fun e he leaves => ?_⟩
      · rw [fill?_of_unnamed stillAbsent, if_pos initial]
      · exact rem.namesDefault_tail he leaves fun _ can name =>
          absent can (name ▸ List.mem_map_of_mem he)

/-- What leaving out does at one parameter: it receives what it received or its default, and what
may be left out of the rest may be left out for the parameters that follow. -/
def StepStays (nameable : Param Node → Bool) (gone : Passed Value → Bool) (p : Param Node)
    (ps : List (Param Node)) (placed : List (Passed Value)) (named : List (String × Passed Value))
    (y : Received Value) (placed' : List (Passed Value)) (named' : List (String × Passed Value)) :
    Prop :=
  ∃ z, take? nameable p (stay gone placed) (stayNamed gone named) =
      some (z, stay gone placed', stayNamed gone named') ∧
    Survives gone (p, y) (p, z) ∧ (named'.map (·.1)).Nodup ∧
    Removable nameable gone ps placed' named'

variable {y : Received Value} {placed' : List (Passed Value)}
  {named' : List (String × Passed Value)}

/-- Nothing that a gathering parameter receives goes. -/
theorem stepStays_of_gathers (declared : Declared nameable (p :: ps))
    (keys : (named.map (·.1)).Nodup) (rem : Removable nameable gone (p :: ps) placed named)
    (gathers : p.kind.gathers) (h : take? nameable p placed named = some (y, placed', named')) :
    StepStays nameable gone p ps placed named y placed' named' := by
  have notPositional : ¬p.kind.isPositional := by
    cases kind : p.kind <;> simp_all [ArgKind.gathers, ArgKind.isPositional]
  have kept := rem.kept_of_not_positional declared notPositional
  have later (e : String × Passed Value) (he : e ∈ named) (leaves : gone e.2) :
      NamesDefault nameable ps e :=
    rem.namesDefault_tail he leaves fun single => by simp [gathers] at single
  by_cases star : p.kind = .star
  · rw [take?_of_star star] at h
    cases h
    refine ⟨.rest placed, ?_, rfl, keys, .of_kept (by simp) later⟩
    rw [take?_of_star star, stay_eq_self kept]
    rfl
  · have starStar := eq_starStar_of_gathers gathers star
    rw [take?_of_starStar starStar] at h
    cases h
    have keptNamed : stayNamed gone named = named := by
      refine List.filter_eq_self.2 fun e he => ?_
      by_contra leaves
      obtain ⟨q, hq, single, -⟩ := rem.byName e he (by simpa using leaves)
      have le := declared.place_le hq
      rw [starStar] at le
      rw [gathers_of_place le] at single
      cases single
    refine ⟨.restByName named, ?_, rfl, by simp, .of_kept kept (by simp)⟩
    rw [take?_of_starStar starStar, keptNamed]
    rfl

/-- A parameter that is filled by position. -/
theorem stepStays_cons (keys : (named.map (·.1)).Nodup)
    (rem : Removable nameable gone (p :: ps) (x :: placed) named) (positional : p.kind.isPositional)
    (h : take? nameable p (x :: placed) named = some (y, placed', named')) :
    StepStays nameable gone p ps (x :: placed) named y placed' named' := by
  have single : p.kind.gathers = false := by
    cases kind : p.kind <;> simp_all [ArgKind.gathers, ArgKind.isPositional]
  rw [take?_cons positional] at h
  split at h
  case isTrue => cases h
  case isFalse clear =>
    cases h
    have absent (can : nameable p) : p.name ∉ named.map (·.1) := by
      intro hn
      obtain ⟨e, he, name⟩ := List.mem_map.1 hn
      refine clear ?_
      simp only [can, Bool.true_and, List.any_eq_true]
      exact ⟨e, he, by simpa using name⟩
    have stillAbsent (can : nameable p) : p.name ∉ (stayNamed gone named).map (·.1) :=
      fun hn => absent can ((List.filter_sublist.map _).subset hn)
    obtain ⟨behind, tail⟩ := List.pairwise_cons.1 rem.toTheEnd
    have later : Removable nameable gone ps placed named := {
      toTheEnd := tail
      byPlace := fun i y hi leaves => by
        simpa using rem.byPlace (i + 1) y (by simpa using hi) leaves
      byName := fun e he leaves => rem.namesDefault_tail he leaves fun _ can name =>
        absent can (name ▸ List.mem_map_of_mem he) }
    by_cases leaves : gone x
    · have noneStays : stay gone placed = [] := by simpa [stay] using fun y hy => behind y hy leaves
      have empty : stay gone (x :: placed) = [] := by simpa [stay, leaves] using noneStays
      obtain ⟨q, at_, -, equals⟩ := rem.byPlace 0 x rfl leaves
      cases at_
      refine ⟨.byDefault, ?_, survives_of_gone leaves equals, keys, later⟩
      rw [empty, noneStays, take?_of_fill single fun _ => rfl, fill?_of_unnamed stillAbsent,
        if_pos equals.isSome_initial]
      rfl
    · refine ⟨.one x, ?_, survives_of_stays leaves, keys, later⟩
      have stays : stay gone (x :: placed) = x :: stay gone placed := by simp [stay, leaves]
      rw [stays, take?_cons positional, if_neg]
      simpa using stillAbsent

/-- One parameter. -/
theorem stepStays_of_take? (declared : Declared nameable (p :: ps))
    (keys : (named.map (·.1)).Nodup) (rem : Removable nameable gone (p :: ps) placed named)
    (h : take? nameable p placed named = some (y, placed', named')) :
    StepStays nameable gone p ps placed named y placed' named' := by
  by_cases gathers : p.kind.gathers
  · exact stepStays_of_gathers declared keys rem gathers h
  · by_cases byPlace : p.kind.isPositional ∧ placed ≠ []
    · obtain ⟨positional, nonempty⟩ := byPlace
      obtain ⟨x, placed, rfl⟩ := List.exists_cons_of_ne_nil nonempty
      exact stepStays_cons keys rem positional h
    · have single : p.kind.gathers = false := by simpa using gathers
      have empty (positional : p.kind.isPositional) : placed = [] :=
        by_contra fun nonempty => byPlace ⟨positional, nonempty⟩
      have kept : ∀ y ∈ placed, gone y = false := by
        by_cases positional : p.kind.isPositional
        · simp [empty positional]
        · exact rem.kept_of_not_positional declared positional
      rw [take?_of_fill single empty, Option.map_eq_some_iff] at h
      obtain ⟨⟨x, rest⟩, filled, same⟩ := h
      cases same
      obtain ⟨z, fills, survives, nodup, later⟩ := exists_fill?_stayNamed declared keys rem filled
      refine ⟨z, ?_, survives, nodup, .of_kept kept later⟩
      rw [stay_eq_self kept, take?_of_fill single empty, fills]
      rfl

theorem all?_cons {before : List (Param Node × Received Value)}
    (h : all? nameable (p :: ps) placed named = some before) : ∃ y placed' named' rest,
      take? nameable p placed named = some (y, placed', named') ∧
      all? nameable ps placed' named' = some rest ∧ before = (p, y) :: rest := by
  rw [all?, Option.bind_eq_bind, Option.bind_eq_some_iff] at h
  obtain ⟨⟨y, placed', named'⟩, taken, h⟩ := h
  rw [Option.bind_eq_bind, Option.bind_eq_some_iff] at h
  obtain ⟨rest, filled, same⟩ := h
  cases same
  exact ⟨y, placed', named', rest, taken, filled, rfl⟩

/-- A call: by induction over the parameters. -/
theorem exists_all?_stay {params : List (Param Node)} (declared : Declared nameable params)
    (keys : (named.map (·.1)).Nodup) (rem : Removable nameable gone params placed named)
    {before : List (Param Node × Received Value)}
    (h : all? nameable params placed named = some before) :
    ∃ after, all? nameable params (stay gone placed) (stayNamed gone named) = some after ∧
      List.Forall₂ (Survives gone) before after := by
  induction params generalizing placed named before with
  | nil =>
    match placed, named with
    | [], [] =>
      cases h
      exact ⟨[], rfl, .nil⟩
    | _ :: _, _ => cases h
    | [], _ :: _ => cases h
  | cons p ps ih =>
    obtain ⟨y, placed', named', rest, taken, filled, rfl⟩ := all?_cons h
    obtain ⟨z, stays, survives, nodup, later⟩ := stepStays_of_take? declared keys rem taken
    obtain ⟨after, bound, each⟩ := ih declared.tail nodup later filled
    refine ⟨(p, z) :: after, ?_, .cons survives each⟩
    rw [all?, stays]
    simp [bound]

theorem take?_of_not_positional (positional : ¬p.kind.isPositional) (star : p.kind ≠ .star)
    (h : take? nameable p placed named = some (y, placed', named')) : placed' = placed := by
  by_cases gathers : p.kind.gathers
  · have starStar := eq_starStar_of_gathers gathers star
    rw [take?_of_starStar starStar] at h
    cases h
    rfl
  · rw [take?_of_fill (by simpa using gathers) fun h => absurd h positional,
      Option.map_eq_some_iff] at h
    obtain ⟨⟨x, rest⟩, -, same⟩ := h
    cases same
    rfl

theorem eq_nil_of_all? {params : List (Param Node)} {before : List (Param Node × Received Value)}
    (unfit : ∀ q ∈ params, ¬q.kind.isPositional ∧ q.kind ≠ .star)
    (h : all? nameable params placed named = some before) : placed = [] := by
  induction params generalizing placed named before with
  | nil =>
    match placed, named with
    | [], _ => rfl
    | _ :: _, _ => cases h
  | cons p ps ih =>
    obtain ⟨y, placed', named', rest, taken, filled, -⟩ := all?_cons h
    obtain ⟨here, below⟩ := List.forall_mem_cons.1 unfit
    obtain rfl := take?_of_not_positional here.1 here.2 taken
    exact ih below filled

/-- Without a parameter that gathers positions, what is passed by position goes to the parameters in
order, each of which can be filled so. -/
theorem exists_positional_of_all? {params : List (Param Node)}
    {before : List (Param Node × Received Value)} (declared : Declared nameable params)
    (noStar : ∀ q ∈ params, q.kind ≠ .star)
    (h : all? nameable params placed named = some before) {i : Nat} (hi : i < placed.length) :
    ∃ q, params[i]? = some q ∧ q.kind.isPositional := by
  induction params generalizing placed named before i with
  | nil =>
    match placed, named with
    | [], _ => cases hi
    | _ :: _, _ => cases h
  | cons p ps ih =>
    by_cases positional : p.kind.isPositional
    · cases i with
      | zero => exact ⟨p, rfl, positional⟩
      | succ i =>
        obtain ⟨x, placed, rfl⟩ := List.exists_cons_of_length_pos (Nat.zero_lt_of_lt hi)
        obtain ⟨y, placed', named', rest, taken, filled, -⟩ := all?_cons h
        rw [take?_cons positional] at taken
        split at taken <;> cases taken
        exact ih declared.tail (List.forall_mem_cons.1 noStar).2 filled (by simpa using hi)
    · have unfit (q : Param Node) (hq : q ∈ p :: ps) : ¬q.kind.isPositional ∧ q.kind ≠ .star := by
        have le := declared.place_le hq
        rw [← place_eq_zero_iff] at positional ⊢
        exact ⟨by omega, noStar q hq⟩
      rw [eq_nil_of_all? unfit h] at hi
      cases hi

theorem length_le_of_all? {params : List (Param Node)}
    {before : List (Param Node × Received Value)} (declared : Declared nameable params)
    (noStar : ∀ q ∈ params, q.kind ≠ .star)
    (h : all? nameable params placed named = some before) : placed.length ≤ params.length := by
  by_contra longer
  obtain ⟨q, at_, -⟩ := exists_positional_of_all? declared noStar h (Nat.lt_of_not_le longer)
  rw [List.getElem?_eq_none (Nat.le_refl _)] at at_
  cases at_

end

/-- Whether something that is passed goes when arguments with these values are left out. -/
def goesWith (out : Node → Bool) : Passed Value → Bool
  | .written value => out value
  | .unpacked _ => false

variable {nameable} {out : Node → Bool} {contents : Contents Value} {args : List (CallArg Node)}

/-- Leaving out arguments leaves out what they pass. -/
theorem flatMap_filter {Given : Type} {passes : CallArg Node → List Given} {gone : Given → Bool}
    (same : ∀ a ∈ args, ∀ x ∈ passes a, gone x = out a.value) :
    (args.filter (!out ·.value)).flatMap passes = (args.flatMap passes).filter (!gone ·) := by
  induction args with
  | nil => rfl
  | cons a args ih =>
    obtain ⟨here, below⟩ := List.forall_mem_cons.1 same
    rw [List.flatMap_cons, List.filter_append, ← ih below]
    cases goes : out a.value with
    | false =>
      have kept : (passes a).filter (!gone ·) = passes a :=
        List.filter_eq_self.2 fun x hx => by simp [here x hx, goes]
      rw [List.filter_cons_of_pos (by simp [goes]), List.flatMap_cons, kept]
    | true =>
      have none : (passes a).filter (!gone ·) = [] :=
        List.filter_eq_nil_iff.2 fun x hx => by simp [here x hx, goes]
      rw [List.filter_cons_of_neg (by simp [goes]), none, List.nil_append]

theorem goesWith_of_placed {a : CallArg Node} {x : Passed Value}
    (starred : a.kind = .star → out a.value = false) (hx : x ∈ a.placed contents) :
    goesWith out x = out a.value := by
  cases kind : a.kind <;> simp only [CallArg.placed, kind, List.mem_singleton, List.mem_map,
    List.not_mem_nil] at hx
  case pos => rw [hx, goesWith]
  case star =>
    obtain ⟨item, -, rfl⟩ := hx
    rw [starred kind, goesWith]

theorem goesWith_of_named {a : CallArg Node} {e : String × Passed Value}
    (starred : a.kind = .starStar → out a.value = false) (he : e ∈ a.named contents) :
    goesWith out e.2 = out a.value := by
  cases kind : a.kind <;> simp only [CallArg.named, kind, List.mem_map, List.not_mem_nil] at he
  case named =>
    obtain ⟨name, -, rfl⟩ := he
    rw [goesWith]
  case starStar =>
    obtain ⟨entry, -, rfl⟩ := he
    rw [starred kind, goesWith]

/-- A call with removable arguments left out is accepted, and hands over the rest as before. -/
theorem exists_call?_filter {params : List (Param Node)} {handed : List Value}
    {before : List (Param Node × Received Value)} (declared : Declared nameable params)
    (starred : ∀ a ∈ args, a.kind = .star ∨ a.kind = .starStar → out a.value = false)
    (rem : Removable nameable (goesWith out) params
      (handed.map .unpacked ++ args.flatMap (·.placed contents))
      (args.flatMap (·.named contents)))
    (h : call? nameable params handed contents args = some before) : ∃ after,
      call? nameable params handed contents (args.filter (!out ·.value)) = some after ∧
      List.Forall₂ (Survives (goesWith out)) before after := by
  rw [call?, Option.ite_none_right_eq_some] at h
  obtain ⟨keys, h⟩ := h
  obtain ⟨after, bound, survive⟩ := exists_all?_stay declared keys rem h
  have placed : handed.map .unpacked ++
      (args.filter (!out ·.value)).flatMap (·.placed contents) =
      stay (goesWith out) (handed.map .unpacked ++ args.flatMap (·.placed contents)) := by
    have stays : (handed.map .unpacked).filter (!goesWith out ·) = handed.map .unpacked := by
      refine List.filter_eq_self.2 fun x hx => ?_
      obtain ⟨item, -, rfl⟩ := List.mem_map.1 hx
      rfl
    rw [stay, List.filter_append, stays, flatMap_filter fun a ha x hx =>
      goesWith_of_placed (fun k => starred a ha (.inl k)) hx]
  have named : (args.filter (!out ·.value)).flatMap (·.named contents) =
      stayNamed (goesWith out) (args.flatMap (·.named contents)) :=
    flatMap_filter fun a ha x hx => goesWith_of_named (fun k => starred a ha (.inr k)) hx
  refine ⟨after, ?_, survive⟩
  rw [call?, placed, named, if_pos, bound]
  exact keys.sublist ((List.filter_sublist).map _)

end CallBinding

end IdiomLint
