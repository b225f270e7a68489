import IdiomLint.Loading.Load
import IdiomLint.Proofs.IgnoreComments
import Mathlib.Data.List.Chain
import Mathlib.Data.List.Lex
import Mathlib.Data.List.Nodup

/-! Which modules a run loads. Names may repeat and packages may hold each other and the checks that
come with the program; every module is loaded once all the same, so that no check is registered
twice. -/
namespace IdiomLint

theorem mapM_eq_ok_iff {ε α β : Type} {f : α → Except ε β} {as : List α} {bs : List β} :
    as.mapM f = .ok bs ↔ List.Forall₂ (fun a b => f a = .ok b) as bs := by
  constructor
  · intro mapped
    induction as generalizing bs with
    | nil =>
      cases mapped
      exact .nil
    | cons a as ih =>
      rw [List.mapM_cons] at mapped
      obtain ⟨b, first, mapped⟩ := bind_eq_ok mapped
      obtain ⟨bs', rest, mapped⟩ := bind_eq_ok mapped
      cases mapped
      exact .cons first (ih rest)
  · intro each
    induction each with
    | nil => rfl
    | cons first _ ih =>
      rw [List.mapM_cons, first, ih]
      rfl

theorem mapM_append_eq_ok {ε α β : Type} {f : α → Except ε β} {as as' : List α} {bs bs' : List β}
    (first : as.mapM f = .ok bs) (second : as'.mapM f = .ok bs') :
    (as ++ as').mapM f = .ok (bs ++ bs') :=
  mapM_eq_ok_iff.2 (List.rel_append (mapM_eq_ok_iff.1 first) (mapM_eq_ok_iff.1 second))

/-- What is added to the modules that are there while others are met one after another: each name
that is new, once. -/
structure Adds (before met new : List CheckModule) : Prop where
  among : new.Sublist met
  distinct : (before.map CheckModule.path).Nodup → ((before ++ new).map CheckModule.path).Nodup
  complete : ∀ m ∈ met, m.path ∈ (before ++ new).map CheckModule.path
  whole : ((before ++ met).map CheckModule.path).Nodup → new = met

namespace Adds

variable {before met new : List CheckModule} {m : CheckModule}

theorem nothing (known : ∀ m ∈ met, m.path ∈ before.map CheckModule.path) : Adds before met [] where
  among := List.nil_sublist met
  distinct := by rw [List.append_nil]; exact id
  complete := by rw [List.append_nil]; exact known
  whole := by
    rw [List.map_append, List.nodup_append]
    rintro ⟨-, -, apart⟩
    symm
    refine List.eq_nil_iff_forall_not_mem.2 fun m hm => ?_
    exact apart _ (known m hm) _ (List.mem_map_of_mem hm) rfl

theorem skip (known : m.path ∈ before.map CheckModule.path) (adds : Adds before met new) :
    Adds before (m :: met) new where
  among := adds.among.cons m
  distinct := adds.distinct
  complete := by
    rw [List.forall_mem_cons]
    refine ⟨?_, adds.complete⟩
    rw [List.map_append]
    exact List.mem_append_left _ known
  whole := by
    rw [List.map_append, List.nodup_append]
    rintro ⟨-, -, apart⟩
    exact absurd rfl (apart _ known m.path (List.mem_map_of_mem List.mem_cons_self))

theorem keep (fresh : m.path ∉ before.map CheckModule.path) (adds : Adds (before ++ [m]) met new) :
    Adds before (m :: met) (m :: new) where
  among := adds.among.cons_cons m
  distinct := by
    intro nodup
    rw [← List.singleton_append, ← List.append_assoc]
    apply adds.distinct
    rw [List.map_append, List.nodup_append]
    refine ⟨nodup, List.nodup_singleton _, ?_⟩
    rintro path known _ only rfl
    rw [List.map_singleton, List.mem_singleton] at only
    exact fresh (only ▸ known)
  complete := by
    rw [← List.singleton_append (l := new), ← List.append_assoc, List.forall_mem_cons]
    exact ⟨by simp, adds.complete⟩
  whole := by
    rw [← List.singleton_append (l := met), ← List.append_assoc]
    exact fun nodup => congrArg (m :: ·) (adds.whole nodup)

theorem append {more added : List CheckModule} (adds : Adds before met new)
    (next : Adds (before ++ new) more added) : Adds before (met ++ more) (new ++ added) where
  among := adds.among.append next.among
  distinct := by
    rw [← List.append_assoc]
    exact next.distinct ∘ adds.distinct
  complete := by
    rw [← List.append_assoc, List.forall_mem_append]
    refine ⟨fun m hm => ?_, next.complete⟩
    rw [List.map_append]
    exact List.mem_append_left _ (adds.complete m hm)
  whole := by
    intro nodup
    rw [← List.append_assoc] at nodup
    have first : new = met := by
      apply adds.whole
      rw [List.map_append] at nodup
      exact (List.nodup_append.1 nodup).1
    subst first
    rw [next.whole nodup]

end Adds

/-- The modules that come with what a name stands for. -/
def Loadable.modules (walk : List String → List CheckModule) : Loadable → List CheckModule
  | .module m => [m]
  | .package path => walk path

namespace Loaded

variable {walk : List String → List CheckModule} {l : Loaded} {m : CheckModule} {x y : Loadable}

theorem has_iff : l.has m = true ↔ m.path ∈ l.modules.map CheckModule.path := by
  simp [has]

theorem add_of_mem (known : m.path ∈ l.modules.map CheckModule.path) : l.add m = l := by
  rw [add, if_pos (has_iff.2 known)]

theorem add_of_not_mem (fresh : m.path ∉ l.modules.map CheckModule.path) :
    l.add m = { l with modules := l.modules ++ [m] } := by
  rw [add, if_neg (mt has_iff.1 fresh)]

/-- A walk adds what it meets and leaves the list of packages alone. -/
theorem exists_foldl_add (met : List CheckModule) (l : Loaded) :
    ∃ new, met.foldl add l = { l with modules := l.modules ++ new } ∧ Adds l.modules met new := by
  induction met generalizing l with
  | nil => exact ⟨[], by simp, .nothing (by simp)⟩
  | cons m met ih =>
    rw [List.foldl_cons]
    by_cases known : m.path ∈ l.modules.map CheckModule.path
    · rw [add_of_mem known]
      obtain ⟨new, walked, adds⟩ := ih l
      exact ⟨new, walked, adds.skip known⟩
    · rw [add_of_not_mem known]
      obtain ⟨new, walked, adds⟩ := ih { l with modules := l.modules ++ [m] }
      exact ⟨m :: new, by simpa using walked, adds.keep known⟩

/-- Whether something is loaded, as far as is remembered: a module by its name among those that are
there, a package by its name alone. -/
def Done (l : Loaded) : Loadable → Prop
  | .module m => m.path ∈ l.modules.map CheckModule.path
  | .package path => path ∈ l.packages

/-- What is known of packages that were walked through: their modules are there. -/
def Walked (walk : List String → List CheckModule) (l : Loaded) : Prop :=
  ∀ path ∈ l.packages, ∀ m ∈ walk path, m.path ∈ l.modules.map CheckModule.path

theorem load_of_done (done : l.Done x) : l.load walk x = l := by
  cases x with
  | module m => exact add_of_mem done
  | package path => rw [load, if_pos (List.contains_iff_mem.2 done)]

/-- What is not loaded yet is loaded and remembered. -/
theorem exists_load_of_not_done (walk : List String → List CheckModule) (fresh : ¬ l.Done x) :
    ∃ new, (l.load walk x).modules = l.modules ++ new
      ∧ Adds l.modules (x.modules walk) new := by
  cases x with
  | module m =>
    rw [load, add_of_not_mem fresh]
    exact ⟨[m], rfl, .keep fresh (.nothing (by simp))⟩
  | package path =>
    obtain ⟨new, walked, adds⟩ := exists_foldl_add (walk path) l
    rw [load, if_neg (mt List.contains_iff_mem.1 fresh), walked]
    exact ⟨new, rfl, adds⟩

/-- One step: whatever is loaded, its modules are there afterwards and no name is there twice. -/
theorem exists_load (walked : l.Walked walk) (x : Loadable) :
    ∃ new, (l.load walk x).modules = l.modules ++ new
      ∧ Adds l.modules (x.modules walk) new := by
  by_cases done : l.Done x
  · refine ⟨[], by rw [load_of_done done, List.append_nil], .nothing ?_⟩
    cases x with
    | module m => exact List.forall_mem_singleton.2 done
    | package path => exact walked path done
  · exact exists_load_of_not_done walk done

theorem mem_packages_load {path : List String} :
    path ∈ (l.load walk x).packages ↔ path ∈ l.packages ∨ x = .package path := by
  cases x with
  | module m =>
    by_cases known : m.path ∈ l.modules.map CheckModule.path
    · simp [load, add_of_mem known]
    · simp [load, add_of_not_mem known]
  | package other =>
    by_cases done : l.Done (.package other)
    · rw [load_of_done done]
      refine ⟨.inl, ?_⟩
      rintro (listed | ⟨⟨⟩⟩)
      · exact listed
      · exact done
    · rw [load, if_neg (mt List.contains_iff_mem.1 done)]
      simp [or_comm, eq_comm]

theorem subset_load (x : Loadable) {path : List String}
    (known : path ∈ l.modules.map CheckModule.path) :
    path ∈ (l.load walk x).modules.map CheckModule.path := by
  by_cases done : l.Done x
  · rwa [load_of_done done]
  · obtain ⟨new, loaded, -⟩ := exists_load_of_not_done walk done
    rw [loaded, List.map_append]
    exact List.mem_append_left _ known

theorem Walked.load (walked : l.Walked walk) (x : Loadable) : (l.load walk x).Walked walk := by
  intro path listed m hm
  rcases mem_packages_load.1 listed with before | rfl
  · exact subset_load x (walked path before m hm)
  · obtain ⟨new, loaded, adds⟩ := exists_load walked (.package path)
    rw [loaded]
    exact adds.complete m hm

theorem Done.load (done : l.Done y) (x : Loadable) : (l.load walk x).Done y := by
  cases y with
  | module m => exact subset_load x done
  | package path => exact mem_packages_load.2 (.inl done)

theorem done_load (l : Loaded) (x : Loadable) : (l.load walk x).Done x := by
  cases x with
  | package path => exact mem_packages_load.2 (.inr rfl)
  | module m =>
    by_cases done : l.Done (.module m)
    · exact done.load _
    · obtain ⟨new, loaded, adds⟩ := exists_load_of_not_done walk done
      have there : m.path ∈ (l.modules ++ new).map CheckModule.path :=
        adds.complete m List.mem_cons_self
      rwa [← loaded] at there

theorem exists_foldl_load (found : List Loadable) (walked : l.Walked walk) :
    ∃ new, (found.foldl (load walk) l).modules = l.modules ++ new
      ∧ Adds l.modules (found.flatMap (Loadable.modules walk)) new := by
  induction found generalizing l with
  | nil => exact ⟨[], by simp, .nothing (by simp)⟩
  | cons x found ih =>
    obtain ⟨new, loaded, adds⟩ := exists_load walked x
    obtain ⟨more, rest, next⟩ := ih (walked.load x)
    rw [loaded] at rest next
    exact ⟨new ++ more, by rw [List.foldl_cons, rest, List.append_assoc],
      by rw [List.flatMap_cons]; exact adds.append next⟩

theorem Done.foldl_load (done : l.Done y) (found : List Loadable) :
    (found.foldl (Loaded.load walk) l).Done y := by
  induction found generalizing l with
  | nil => exact done
  | cons x found ih => exact ih (done.load x)

theorem done_foldl_load {found : List Loadable} (member : x ∈ found) (l : Loaded) :
    (found.foldl (load walk) l).Done x := by
  induction found generalizing l with
  | nil => cases member
  | cons y found ih =>
    rcases List.mem_cons.1 member with rfl | member
    · exact (done_load l x).foldl_load found
    · exact ih member (l.load walk y)

/-- Loading what is loaded already changes nothing. -/
theorem foldl_load_of_done {found : List Loadable} (done : ∀ x ∈ found, l.Done x) :
    found.foldl (load walk) l = l := by
  induction found with
  | nil => rfl
  | cons x found ih =>
    obtain ⟨first, others⟩ := List.forall_mem_cons.1 done
    rw [List.foldl_cons, load_of_done first, ih others]

end Loaded

namespace Library

variable {lib : Library}

/-- What names stand for, all of which can be loaded. -/
theorem exists_found {names : List Toml.Value} (loadable : ∀ v ∈ names, ∃ x, lib.named v = .ok x) :
    ∃ found, names.mapM lib.named = .ok found
      ∧ ∀ x, x ∈ found ↔ ∃ v ∈ names, lib.named v = .ok x := by
  induction names with
  | nil => exact ⟨[], rfl, by simp⟩
  | cons v names ih =>
    obtain ⟨⟨x, first⟩, others⟩ := List.forall_mem_cons.1 loadable
    obtain ⟨found, mapped, same⟩ := ih others
    refine ⟨x :: found, mapM_eq_ok_iff.2 (.cons first (mapM_eq_ok_iff.1 mapped)), fun y => ?_⟩
    rw [List.mem_cons, same, List.exists_mem_cons_iff, first, Except.ok.injEq, eq_comm]

theorem load_eq_ok {names : List Toml.Value} {found : List Loadable}
    (mapped : (lib.allNames names).mapM lib.named = .ok found) :
    lib.load names
      = .ok ((.package checksPath :: found).foldl (Loaded.load lib.walk) {}).modules := by
  unfold load
  rw [mapped]
  rfl

end Library

theorem CheckModule.content_of_selected {s : Settings} {m : CheckModule} {c : Check}
    (selected : m.selected s = .ok (some c)) : m.content = .check c := by
  unfold CheckModule.selected at selected
  split at selected
  · cases selected
  · split at selected <;> cases selected
    assumption
  · split at selected <;> cases selected

/-- Checks that are picked out of those of modules come from modules of their own, in the same
order. -/
theorem exists_sources {s : Settings} {ms : List CheckModule} {selected : List (Option Check)}
    (loaded : ms.mapM (CheckModule.selected s) = .ok selected) (p : Check → Bool) :
    ∃ sources, sources.Sublist ms
      ∧ List.Forall₂ (fun m c => m.content = .check c ∧ p c = true) sources
        ((selected.filterMap id).filter p) := by
  have each := mapM_eq_ok_iff.1 loaded
  clear loaded
  induction each with
  | nil => exact ⟨[], .slnil, .nil⟩
  | @cons m c ms selected first _ ih =>
    obtain ⟨sources, among, same⟩ := ih
    cases c with
    | none => exact ⟨sources, among.cons m, same⟩
    | some c =>
      have shown : (some c :: selected).filterMap id = c :: selected.filterMap id := rfl
      rw [shown]
      by_cases picked : p c = true
      · rw [List.filter_cons_of_pos picked]
        exact ⟨m :: sources, among.cons_cons m,
          .cons ⟨CheckModule.content_of_selected first, picked⟩ same⟩
      · rw [List.filter_cons_of_neg picked]
        exact ⟨sources, among.cons m, same⟩

namespace Signature

theorem label_of_ofLabel? {name : String} {cls : NodeClass}
    (known : NodeClass.ofLabel? name = some cls) : cls.label = name := by
  unfold NodeClass.ofLabel? at known
  simpa using List.find?_some known

theorem nodup_eraseDups (names : List String) : names.eraseDups.Nodup := by
  induction h : names.length using Nat.strong_induction_on generalizing names with
  | _ n ih =>
    cases names with
    | nil => exact List.nodup_nil
    | cons name names =>
      rw [List.eraseDups_cons, List.nodup_cons, List.mem_eraseDups]
      refine ⟨by simp, ih _ ?_ _ rfl⟩
      rw [← h, List.length_cons, Nat.lt_succ_iff]
      exact List.length_filter_le _ names

theorem nodup_of_simplified {declared : ParamType} {names : List String}
    (union : declared.simplified = .union names) : names.Nodup := by
  unfold ParamType.simplified at union
  split at union
  · split at union <;> cases union
    exact nodup_eraseDups _
  · subst union
    rename_i other
    exact absurd rfl (other names)

theorem nodup_knownClasses {names : List String} (distinct : names.Nodup) :
    (knownClasses names).1.Nodup ∧ ∀ cls ∈ (knownClasses names).1, cls.label ∈ names := by
  induction names with
  | nil => exact ⟨List.nodup_nil, by simp [knownClasses]⟩
  | cons name names ih =>
    obtain ⟨fresh, distinct⟩ := List.nodup_cons.1 distinct
    obtain ⟨nodup, labels⟩ := ih distinct
    unfold knownClasses
    cases known : NodeClass.ofLabel? name with
    | none => simp
    | some cls =>
      have label := label_of_ofLabel? known
      refine ⟨List.nodup_cons.2 ⟨fun again => fresh (label ▸ labels cls again), nodup⟩, ?_⟩
      rw [List.forall_mem_cons, label]
      exact ⟨List.mem_cons_self, fun c hc => List.mem_cons_of_mem _ (labels c hc)⟩

/-- A check function is declared for no class twice. -/
theorem nodup_nodeClasses (sig : Signature) : sig.nodeClasses.1.Nodup := by
  unfold nodeClasses
  split
  · split
    · exact List.nodup_nil
    · split
      · exact List.nodup_nil
      · split
        · exact List.nodup_nil
        · exact (nodup_knownClasses (nodup_of_simplified ‹_›)).1
        · exact (nodup_knownClasses (List.nodup_singleton _)).1
        · exact List.nodup_nil
  · exact List.nodup_nil

end Signature

namespace Library

variable {lib : Library} {names : List Toml.Value}

theorem mem_paths_iff {found : List Loadable} {ms : List CheckModule}
    (same : ∀ x, x ∈ found ↔ ∃ v ∈ names, lib.named v = .ok x)
    (adds : Adds [] ((.package checksPath :: found).flatMap (Loadable.modules lib.walk)) ms)
    (path : List String) :
    path ∈ ms.map CheckModule.path ↔ path ∈ (lib.walk checksPath).map CheckModule.path
      ∨ ∃ v ∈ names, ∃ x, lib.named v = .ok x
        ∧ path ∈ (x.modules lib.walk).map CheckModule.path := by
  rw [List.flatMap_cons] at adds
  constructor
  · intro there
    obtain ⟨m, hm, rfl⟩ := List.mem_map.1 there
    rcases List.mem_append.1 (adds.among.subset hm) with hm | hm
    · exact .inl (List.mem_map_of_mem hm)
    · obtain ⟨x, hx, hm⟩ := List.mem_flatMap.1 hm
      obtain ⟨v, hv, named⟩ := (same x).1 hx
      exact .inr ⟨v, hv, x, named, List.mem_map_of_mem hm⟩
  · rintro (there | ⟨v, hv, x, named, there⟩)
    · obtain ⟨m, hm, rfl⟩ := List.mem_map.1 there
      exact adds.complete m (List.mem_append_left _ hm)
    · obtain ⟨m, hm, rfl⟩ := List.mem_map.1 there
      have hx : x ∈ found := (same x).2 ⟨v, hv, named⟩
      exact adds.complete m (List.mem_append_right _ (List.mem_flatMap.2 ⟨x, hx, hm⟩))

/-- Names that occur already are done when their turn comes, before the plugins have theirs. -/
theorem load_append_of_subset (loadable : ∀ v ∈ lib.allNames names, ∃ x, lib.named v = .ok x)
    {more : List Toml.Value} (again : more ⊆ names) :
    lib.load (names ++ more) = lib.load names := by
  obtain ⟨given, installed⟩ := List.forall_mem_append.1 loadable
  obtain ⟨found, mapped, same⟩ := exists_found given
  obtain ⟨repeated, mapped', same'⟩ := exists_found fun v hv => given v (again hv)
  obtain ⟨plugged, mapped'', -⟩ := exists_found installed
  have once : (lib.allNames names).mapM lib.named = .ok (found ++ plugged) :=
    mapM_append_eq_ok mapped mapped''
  have both : (lib.allNames (names ++ more)).mapM lib.named = .ok (found ++ repeated ++ plugged) :=
    mapM_append_eq_ok (mapM_append_eq_ok mapped mapped') mapped''
  have done : ∀ x ∈ repeated,
      ((.package checksPath :: found).foldl (Loaded.load lib.walk) {}).Done x := by
    intro x hx
    obtain ⟨v, hv, named⟩ := (same' x).1 hx
    exact Loaded.done_foldl_load (List.mem_cons_of_mem _ ((same x).2 ⟨v, again hv, named⟩)) {}
  rw [load_eq_ok both, load_eq_ok once, ← List.cons_append, ← List.cons_append, ← List.cons_append,
    List.foldl_append, List.foldl_append, List.foldl_append, Loaded.foldl_load_of_done done]

theorem exists_sources_of_registered {s : Settings} {ms : List CheckModule}
    {checks found : List Check}
    (loaded : lib.load s.load = .ok ms) (selected : lib.checks s = .ok checks) {cls : NodeClass}
    (registered : Registry.ofChecks checks cls = some found) :
    ∃ sources, sources.Sublist ms
      ∧ List.Forall₂ (fun m c => m.content = .check c ∧ c.classes.contains cls = true) sources
        found := by
  obtain ⟨_, known, selected⟩ := bind_eq_ok selected
  cases known.symm.trans loaded
  obtain ⟨each, mapped, selected⟩ := bind_eq_ok selected
  cases selected
  have picked : (each.filterMap id).filter (fun c => c.classes.contains cls) = found := by
    unfold Registry.ofChecks at registered
    split at registered
    · cases registered
    · exact Option.some.inj registered
  rw [← picked]
  exact exists_sources mapped fun c => c.classes.contains cls

/-- Whatever is named, in whatever order and however often, alone or through packages that overlap,
by the settings or by plugins: no module is loaded twice, those that come with the program are
loaded first, and naming something again changes nothing. So for each class of nodes the registered
checks come from different modules, and none of them is registered twice; nor does a check function
declare a class twice. -/
theorem modules_loaded_once (lib : Library) {names : List Toml.Value}
    (loadable : ∀ v ∈ lib.allNames names, ∃ x, lib.named v = .ok x) :
    ∃ first ms, lib.load names = .ok ms
      ∧ (ms.map CheckModule.path).Nodup
      ∧ first <+: ms ∧ first.Sublist (lib.walk checksPath)
      ∧ (∀ m ∈ lib.walk checksPath, m.path ∈ first.map CheckModule.path)
      ∧ (((lib.walk checksPath).map CheckModule.path).Nodup → first = lib.walk checksPath)
      ∧ (∀ path, path ∈ ms.map CheckModule.path
        ↔ path ∈ (lib.walk checksPath).map CheckModule.path
          ∨ ∃ v ∈ lib.allNames names, ∃ x, lib.named v = .ok x
            ∧ path ∈ (x.modules lib.walk).map CheckModule.path)
      ∧ (∀ more, more ⊆ names → lib.load (names ++ more) = .ok ms)
      ∧ (∀ s checks, s.load = names → lib.checks s = .ok checks →
        ∀ cls found, Registry.ofChecks checks cls = some found → ∃ sources, sources.Sublist ms
          ∧ List.Forall₂ (fun m c => m.content = .check c ∧ c.classes.contains cls = true) sources
            found)
      ∧ ∀ sig : Signature, sig.nodeClasses.1.Nodup := by
  obtain ⟨found, mapped, same⟩ := exists_found loadable
  have walked : Loaded.Walked lib.walk {} := by simp [Loaded.Walked]
  obtain ⟨first, start, begins⟩ := Loaded.exists_load walked (.package checksPath)
  obtain ⟨rest, loaded, adds⟩ :=
    Loaded.exists_foldl_load found (walked.load (.package checksPath))
  rw [start] at loaded adds
  have whole : Adds [] ((.package checksPath :: found).flatMap (Loadable.modules lib.walk))
      (first ++ rest) := by
    rw [List.flatMap_cons]
    exact begins.append adds
  have run : lib.load names = .ok (first ++ rest) := by
    rw [load_eq_ok mapped, List.foldl_cons, loaded]
    rfl
  refine ⟨first, first ++ rest, run, whole.distinct List.nodup_nil, List.prefix_append _ _,
    begins.among, begins.complete, begins.whole, mem_paths_iff same whole, fun more again => ?_, ?_,
    Signature.nodup_nodeClasses⟩
  · rw [load_append_of_subset loadable again, run]
  · rintro s checks rfl selected cls registered
    exact exists_sources_of_registered run selected

/-- A name can be loaded if it is that of a module or of a package around one. -/
theorem exists_named {modules : List CheckModule} {m : CheckModule} (member : m ∈ modules)
    (plugins : List String) {name : String} (given : name ≠ "")
    (absolute : name.toList.head? ≠ some '.') (below : Text.split '.' name <+: m.path) :
    ∃ x, (ofModules modules plugins).named (.string name) = .ok x := by
  have found : ∃ x, (ofModules modules plugins).find? (Text.split '.' name) = some x := by
    have inside : (modules.any fun m => (Text.split '.' name).isPrefixOf m.path) = true :=
      List.any_eq_true.2 ⟨m, member, List.isPrefixOf_iff_prefix.2 below⟩
    unfold ofModules
    dsimp only
    cases modules.find? fun m => m.path == Text.split '.' name with
    | some n => exact ⟨.module n, rfl⟩
    | none => exact ⟨.package _, if_pos inside⟩
  obtain ⟨x, found⟩ := found
  exact ⟨x, by simp [named, given, absolute, found]⟩

theorem modules_loaded_once_overlapping :
    let lib := ofModules (builtin ++ plain ++ examples) ["test.custom_checks", "refurb.checks"]
    ∃ ms, lib.load [.string "test.custom_checks.settings", .string "refurb"] = .ok ms
      ∧ (ms.map CheckModule.path).Nodup
      ∧ lib.load [.string "test.custom_checks.settings", .string "refurb", .string "refurb",
        .string "test.custom_checks.settings"] = .ok ms := by
  intro lib
  have settings : CheckModule.ofCheck Catalogue.Examples.checkedFiles
      ∈ builtin ++ plain ++ examples :=
    List.mem_append_right _ (List.mem_append_left _
      (List.mem_map_of_mem (by simp [Catalogue.Examples.all])))
  have extend : CheckModule.ofCheck Catalogue.Containers.extend ∈ builtin ++ plain ++ examples :=
    List.mem_append_left _ (List.mem_append_left _ (List.mem_map_of_mem List.mem_cons_self))
  have loadable : ∀ v ∈ lib.allNames [.string "test.custom_checks.settings", .string "refurb"],
      ∃ x, lib.named v = .ok x := by
    have names : lib.allNames [.string "test.custom_checks.settings", .string "refurb"]
        = [.string "test.custom_checks.settings", .string "refurb", .string "test.custom_checks",
          .string "refurb.checks"] := rfl
    rw [names]
    refine List.forall_mem_cons.2 ⟨?_, List.forall_mem_cons.2 ⟨?_, List.forall_mem_cons.2 ⟨?_,
      List.forall_mem_singleton.2 ?_⟩⟩⟩
    · exact exists_named settings _ (by decide) (by decide) (by decide +kernel)
    · exact exists_named extend _ (by decide) (by decide) (by decide +kernel)
    · exact exists_named settings _ (by decide) (by decide) (by decide +kernel)
    · exact exists_named extend _ (by decide) (by decide) (by decide +kernel)
  obtain ⟨_, ms, run, nodup, -, -, -, -, -, again, -⟩ := modules_loaded_once lib loadable
  exact ⟨ms, run, nodup, again [.string "refurb", .string "test.custom_checks.settings"] (by simp)⟩

end Library

def stem (location : String) : List Char := location.toList.take (location.toList.length - 3)

theorem moduleOfFile_eq (location : String) :
    moduleOfFile location = Text.split '/' (String.ofList (stem location)) := by
  unfold moduleOfFile stem
  rw [String.length_toList]
  rfl

theorem path_ofCheck (c : Check) : (CheckModule.ofCheck c).path = moduleOfFile c.location := by
  rw [CheckModule.ofCheck]

theorem stem_eq_of_moduleOfFile {a b : String} (same : moduleOfFile a = moduleOfFile b) :
    stem a = stem b := by
  rw [moduleOfFile_eq, moduleOfFile_eq] at same
  have joined := congrArg (String.singleton '/').intercalate same
  rw [Text.intercalate_split, Text.intercalate_split] at joined
  exact String.ofList_injective joined

/-- One text comes before another, and the characters that decide it stand before the last
three. -/
inductive Precedes : List Char → List Char → Prop where
  | here {a b : Char} {as bs : List Char} (less : a < b) (long : 3 ≤ as.length)
      (long' : 3 ≤ bs.length) : Precedes (a :: as) (b :: bs)
  | next {a : Char} {as bs : List Char} (rest : Precedes as bs) : Precedes (a :: as) (a :: bs)

namespace Precedes

theorem length {l m : List Char} (h : Precedes l m) : 3 < l.length ∧ 3 < m.length := by
  induction h with
  | here _ long long' => exact ⟨Nat.lt_succ_of_le long, Nat.lt_succ_of_le long'⟩
  | next _ ih => exact ⟨Nat.lt_succ_of_lt ih.1, Nat.lt_succ_of_lt ih.2⟩

theorem stem_lt {l m : List Char} (h : Precedes l m) :
    stem (String.ofList l) < stem (String.ofList m) := by
  unfold stem
  rw [String.toList_ofList, String.toList_ofList]
  have cut {a : Char} {as : List Char} (long : 3 ≤ as.length) :
      (a :: as).take ((a :: as).length - 3) = a :: as.take (as.length - 3) := by
    rw [List.length_cons, Nat.sub_add_comm long, List.take_succ_cons]
  induction h with
  | here less long long' =>
    rw [cut long, cut long']
    exact .rel less
  | next rest ih =>
    rw [cut rest.length.1.le, cut rest.length.2.le]
    exact .cons ih

end Precedes

theorem isChain_stem : (Catalogue.builtin.map (stem ·.location)).IsChain (· < ·) := by
  -- evaluating locations takes the kernel long, so neighbours are compared by their characters
  unfold Catalogue.builtin
  simp only [List.map_cons, List.map_nil, List.isChain_cons_cons, List.isChain_singleton, and_true]
  repeat' apply And.intro
  all_goals apply Precedes.stem_lt
  all_goals repeat' first | exact .here (by decide) (by decide) (by decide) | apply Precedes.next

theorem nodup_of_isChain_stem {cs : List Check}
    (sorted : (cs.map (stem ·.location)).IsChain (· < ·)) :
    ((cs.map CheckModule.ofCheck).map CheckModule.path).Nodup := by
  have sorted := List.pairwise_map.1 (List.isChain_iff_pairwise.1 sorted)
  rw [List.map_map, List.Nodup, List.pairwise_map]
  refine sorted.imp fun {a b} less same => ?_
  rw [Function.comp_apply, Function.comp_apply, path_ofCheck, path_ofCheck] at same
  rw [stem_eq_of_moduleOfFile same] at less
  exact List.lt_irrefl _ less

def checksStart : List Char :=
  ['r', 'e', 'f', 'u', 'r', 'b', '/', 'c', 'h', 'e', 'c', 'k', 's', '/']

theorem prefix_moduleOfFile {l : List Char} (starts : checksStart <+: l) (long : 17 ≤ l.length) :
    Library.checksPath <+: moduleOfFile (String.ofList l) := by
  obtain ⟨rest, rfl⟩ := starts
  have cut : (checksStart ++ rest).length - 3 = checksStart.length + (rest.length - 3) := by
    rw [List.length_append] at long ⊢
    have short : checksStart.length = 14 := rfl
    omega
  have kept : stem (String.ofList (checksStart ++ rest)) = ['r', 'e', 'f', 'u', 'r', 'b'] ++ '/' ::
      (['c', 'h', 'e', 'c', 'k', 's'] ++ '/' :: rest.take (rest.length - 3)) := by
    rw [stem, String.toList_ofList, cut, List.take_length_add_append]
    rfl
  rw [moduleOfFile_eq, kept, Text.split, String.toList_ofList, Text.splitOn_append_cons (by decide),
    Text.splitOn_append_cons (by decide)]
  exact List.prefix_append _ _

theorem prefix_of_mem_builtin : ∀ c ∈ Catalogue.builtin,
    Library.checksPath <+: moduleOfFile c.location := by
  unfold Catalogue.builtin
  simp only [List.forall_mem_cons, List.not_mem_nil, false_imp_iff, implies_true, and_true]
  repeat' apply And.intro
  all_goals apply prefix_moduleOfFile
  all_goals first | exact ⟨_, rfl⟩ | decide

namespace Library

theorem meets_checksPath : meets checksPath = fun m => checksPath.isPrefixOf m.path := by
  funext m
  have apart : (!checksPath.isPrefixOf unmarked) = true := by decide
  rw [meets, apart, Bool.or_true, Bool.true_or, Bool.and_true]

theorem exists_walk_checksPath :
    ∃ rest, standard.walk checksPath = builtin ++ rest ∧ ∀ m ∈ rest, m.content = .nothing := by
  have all : builtin.filter (fun m => checksPath.isPrefixOf m.path) = builtin := by
    rw [List.filter_eq_self]
    intro m hm
    obtain ⟨c, hc, rfl⟩ := List.mem_map.1 hm
    rw [List.isPrefixOf_iff_prefix, path_ofCheck]
    exact prefix_of_mem_builtin c hc
  have none : examples.filter (fun m => checksPath.isPrefixOf m.path) = [] := by
    rw [List.filter_eq_nil_iff]
    decide +kernel
  refine ⟨plain.filter fun m => checksPath.isPrefixOf m.path, ?_, fun m hm => ?_⟩
  · unfold standard ofModules
    dsimp only
    rw [meets_checksPath, List.filter_append, List.filter_append, all, none, List.append_nil]
  · obtain ⟨name, -, rfl⟩ := List.mem_map.1 (List.mem_filter.1 hm).1
    rfl

/-- Without names, the package of the checks is walked through. -/
theorem exists_load_nil {lib : Library} (alone : lib.plugins = []) {ms others : List CheckModule}
    (walk : lib.walk checksPath = ms ++ others) (distinct : (ms.map CheckModule.path).Nodup) :
    ∃ rest, lib.load [] = .ok (ms ++ rest) ∧ rest.Sublist others := by
  obtain ⟨new, walked, adds⟩ := Loaded.exists_foldl_add ms {}
  obtain ⟨rest, walked', adds'⟩ := Loaded.exists_foldl_add others { modules := ms }
  have nothing : (lib.allNames []).mapM lib.named = .ok [] := by
    rw [allNames, alone]
    rfl
  have loaded : lib.load [] = .ok ((lib.walk checksPath).foldl Loaded.add {}).modules :=
    load_eq_ok nothing
  rw [adds.whole distinct, List.nil_append] at walked
  rw [loaded, walk, List.foldl_append, walked, walked']
  exact ⟨rest, rfl, adds'.among⟩

end Library

theorem CheckModule.selected_of_nothing {m : CheckModule} (nothing : m.content = .nothing)
    (s : Settings) : m.selected s = .ok none := by
  rw [selected, nothing]

/-- Without names, the selected checks are among those that come with the program. -/
theorem loadChecks_of_unnamed {s : Settings} (unnamed : s.load = []) :
    loadChecks s = .ok (Catalogue.builtin.filter fun c => s.selects c.kind) := by
  obtain ⟨plain, walk, nothing⟩ := Library.exists_walk_checksPath
  obtain ⟨rest, loaded, among⟩ :=
    Library.exists_load_nil rfl walk (nodup_of_isChain_stem isChain_stem)
  have selected : (Library.builtin ++ rest).mapM (CheckModule.selected s) =
      .ok (Catalogue.builtin.map (Option.guard fun c => s.selects c.kind)
        ++ rest.map fun _ => none) := by
    refine mapM_eq_ok_iff.2 (List.rel_append ?_ ?_)
    · rw [Library.builtin, List.forall₂_map_left_iff, List.forall₂_map_right_iff, List.forall₂_same]
      intro c _
      rfl
    · rw [List.forall₂_map_right_iff, List.forall₂_same]
      exact fun m hm => CheckModule.selected_of_nothing (nothing m (among.subset hm)) s
  unfold loadChecks Library.checks
  rw [unnamed, loaded]
  dsimp only [bind, Except.bind]
  rw [selected]
  simp [pure, Except.pure, List.filterMap_map, List.filterMap_eq_filter]

end IdiomLint
