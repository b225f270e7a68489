import IdiomLint.Proofs.AnnotatedFiles
import Mathlib.Data.List.Chain
import Mathlib.Data.List.Range

/-! Which directories are marked as packages for a new file: those on the way from the working
directory down to the place that a path leads to, from the place upwards. -/
namespace IdiomLint.Path

/-- A directory strictly below the working directory, on the way down to a place. -/
structure OnTheWay (cwd : Path) (target : List String) (q : Path) : Prop where
  rooted : q.root = .slash
  below : ∃ names, names ≠ [] ∧ q.parts = cwd.parts ++ names
  above : q.parts <+: target

/-- All directories on the way to a place, the place itself first and then upwards. -/
structure IsWayUp (cwd : Path) (target : List String) (folders : List Path) : Prop where
  mem_iff : ∀ q, q ∈ folders ↔ OnTheWay cwd target q
  first : ∀ q ∈ folders.head?, q.parts = target
  upwards : folders.IsChain fun lower upper => upper = lower.parent

variable {links : Links} {cwd p : Path} {names : List String}

theorem OnTheWay.prefix_target {target : List String} {q : Path} (h : OnTheWay cwd target q) :
    cwd.parts <+: target := by
  obtain ⟨front, -, parts⟩ := h.below
  exact (parts ▸ List.prefix_append cwd.parts front).trans h.above

theorem IsWayUp.cwd_not_mem {target : List String} {folders : List Path}
    (way : IsWayUp cwd target folders) : cwd ∉ folders := by
  intro listed
  obtain ⟨front, nonempty, parts⟩ := ((way.mem_iff cwd).1 listed).below
  exact nonempty (List.self_eq_append_right.1 parts)

/-- The directory that is so many steps above the place below the working directory. -/
def above (cwd : Path) (names : List String) (steps : Nat) : Path :=
  ⟨.slash, cwd.parts ++ names.take (names.length - steps)⟩

theorem parent_above {steps : Nat} (h : steps < names.length) :
    (above cwd names steps).parent = above cwd names (steps + 1) := by
  have shorter : (names.take (names.length - steps)).dropLast
      = names.take (names.length - (steps + 1)) := by
    rw [List.dropLast_eq_take, List.length_take, List.take_take]
    congr 1
    omega
  have nonempty : names.take (names.length - steps) ≠ [] := by
    rw [ne_eq, List.take_eq_nil_iff, ← List.length_eq_zero_iff]
    omega
  rw [above, parent, List.dropLast_append_of_ne_nil nonempty, shorter, above]

theorem onTheWay_iff (q : Path) :
    OnTheWay cwd (cwd.parts ++ names) q ↔ ∃ steps < names.length, q = above cwd names steps := by
  constructor
  · rintro ⟨rooted, ⟨front, nonempty, parts⟩, upper⟩
    rw [parts, List.prefix_append_right_inj] at upper
    have shown : front.length ≤ names.length := upper.length_le
    refine ⟨names.length - front.length, ?_, ?_⟩
    · have := List.length_pos_iff.2 nonempty
      omega
    · have taken : names.take (names.length - (names.length - front.length)) = front := by
        rw [Nat.sub_sub_self shown]
        exact (List.prefix_iff_eq_take.1 upper).symm
      rw [above, taken, ← rooted, ← parts]
  · rintro ⟨steps, inside, rfl⟩
    refine ⟨rfl, ⟨_, ?_, rfl⟩, ?_⟩
    · rw [ne_eq, List.take_eq_nil_iff, ← List.length_eq_zero_iff]
      omega
    · rw [above, List.prefix_append_right_inj]
      exact List.take_prefix _ _

theorem isWayUp_map_above (below : names ≠ []) :
    IsWayUp cwd (cwd.parts ++ names) ((List.range names.length).map (above cwd names)) where
  mem_iff q := by
    rw [onTheWay_iff, List.mem_map]
    simp only [List.mem_range, eq_comm]
  first := by
    intro q head
    rw [List.head?_map, List.head?_range, if_neg (mt List.length_eq_zero_iff.1 below)] at head
    obtain rfl := Option.mem_some.1 head
    rw [above, Nat.sub_zero, List.take_length]
  upwards := by
    rw [List.isChain_map, List.isChain_range]
    intro steps inside
    exact (parent_above (by omega)).symm

theorem foldersBelow_of_null (null : p.hasNull = true) :
    cwd.foldersBelow links p = .error .nullCharacter := by
  rw [foldersBelow, if_pos null]

theorem foldersBelow_of_outside (clean : ¬ p.hasNull = true)
    (outside : ¬ cwd.parts <+: (cwd.resolve links p).parts) :
    cwd.foldersBelow links p = .ok [] := by
  have no : (cwd.resolve links p).isBelow cwd = false := by
    rw [isBelow, Bool.and_eq_false_iff, ← Bool.not_eq_true (List.isPrefixOf _ _),
      List.isPrefixOf_iff_prefix]
    exact .inr outside
  simp [foldersBelow, clean, no]

theorem isBelow_resolve (rooted : cwd.root = .slash)
    (target : (cwd.resolve links p).parts = cwd.parts ++ names) :
    (cwd.resolve links p).isBelow cwd = true := by
  rw [isBelow, target, rooted]
  simp [resolve]

theorem foldersBelow_of_here (rooted : cwd.root = .slash) (clean : ¬ p.hasNull = true)
    (target : (cwd.resolve links p).parts = cwd.parts) :
    cwd.foldersBelow links p = .ok [cwd] := by
  have yes := isBelow_resolve rooted (target.trans (List.append_nil _).symm)
  have same : cwd.resolve links p = cwd := by
    calc
      cwd.resolve links p = ⟨.slash, (cwd.resolve links p).parts⟩ := rfl
      _ = ⟨cwd.root, cwd.parts⟩ := by rw [target, rooted]
  rw [same] at yes
  simp [foldersBelow, clean, same, yes]

/-- Below the working directory the place comes first, and its parents stop one step before the
working directory. -/
theorem foldersBelow_of_below (rooted : cwd.root = .slash) (clean : ¬ p.hasNull = true)
    (below : names ≠ []) (target : (cwd.resolve links p).parts = cwd.parts ++ names) :
    cwd.foldersBelow links p = .ok ((List.range names.length).map (above cwd names)) := by
  have yes := isBelow_resolve rooted target
  obtain ⟨count, length⟩ := Nat.exists_eq_succ_of_ne_zero (mt List.length_eq_zero_iff.1 below)
  have place : cwd.resolve links p = above cwd names 0 := by
    rw [above, Nat.sub_zero, List.take_length, ← target]
    rfl
  have parents (steps : Nat) (inside : steps < count) :
      (cwd.parts ++ names).take ((cwd.parts ++ names).length - 1 - steps)
        = (above cwd names (steps + 1)).parts := by
    rw [List.take_append, List.take_of_length_le, above, List.length_append]
    · congr 2
      omega
    · rw [List.length_append]
      omega
  rw [foldersBelow, if_neg clean]
  simp only [yes, if_true, target, length, List.range_succ_eq_map, List.map_cons, List.map_map]
  rw [← place]
  congr 2
  have rest : (cwd.parts ++ names).length - cwd.parts.length - 1 = count := by
    rw [List.length_append]
    omega
  rw [rest]
  refine List.map_congr_left fun steps inside => ?_
  rw [parents steps (List.mem_range.1 inside)]
  rfl

/-- The directories listed for a path are those on the way from the working directory to the place
that it leads to, from the place upwards, if and only if that place is not the working directory,
which is listed for itself. A path with a null character is refused. -/
theorem folders_way_up_iff (links : Links) (rooted : cwd.root = .slash) (p : Path) :
    ∃ target, (∀ place, LeadsTo links cwd p place ↔ place = target)
      ∧ (p.hasNull = true → cwd.foldersBelow links p = .error .nullCharacter)
      ∧ (¬ p.hasNull = true → ∃ folders, cwd.foldersBelow links p = .ok folders
        ∧ (IsWayUp cwd target folders ↔ target ≠ cwd.parts)
        ∧ (target = cwd.parts → folders = [cwd])
        ∧ (¬ cwd.parts <+: target → folders = [])) := by
  refine ⟨_, leadsTo_iff p, foldersBelow_of_null, fun clean => ?_⟩
  by_cases inside : cwd.parts <+: (cwd.resolve links p).parts
  · obtain ⟨names, target⟩ := inside
    by_cases here : names = []
    · have same : (cwd.resolve links p).parts = cwd.parts := by
        rw [← target, here, List.append_nil]
      refine ⟨_, foldersBelow_of_here rooted clean same, iff_of_false (fun way => ?_) (· same),
        fun _ => rfl, fun outside => absurd ⟨names, target⟩ outside⟩
      exact way.cwd_not_mem (List.mem_singleton_self cwd)
    · have elsewhere : (cwd.resolve links p).parts ≠ cwd.parts := by
        rw [← target]
        exact fun same => here (List.append_right_eq_self.1 same)
      refine ⟨_, foldersBelow_of_below rooted clean here target.symm, iff_of_true ?_ elsewhere,
        fun same => absurd same elsewhere, fun outside => absurd ⟨names, target⟩ outside⟩
      rw [← target]
      exact isWayUp_map_above here
  · have elsewhere : (cwd.resolve links p).parts ≠ cwd.parts := fun same =>
      inside (same ▸ List.prefix_rfl)
    refine ⟨_, foldersBelow_of_outside clean inside, iff_of_true ?_ elsewhere,
      fun same => absurd same elsewhere, fun _ => rfl⟩
    exact ⟨fun q => iff_of_false List.not_mem_nil fun way => inside way.prefix_target, by simp,
      .nil⟩

theorem folders_way_up_iff_back :
    root ⟨.slash, ["w"]⟩ = .slash
      ∧ (∃ folders, foldersBelow [] ⟨.slash, ["w"]⟩ (.ofText "a/../b//c/") = .ok folders
        ∧ folders = [⟨.slash, ["w", "b", "c"]⟩, ⟨.slash, ["w", "b"]⟩]
        ∧ IsWayUp ⟨.slash, ["w"]⟩ ["w", "b", "c"] folders)
      ∧ foldersBelow [(["w", "a"], ["v"])] ⟨.slash, ["w"]⟩ (.ofText "a/b") = .ok [] := by
  have rooted : root ⟨.slash, ["w"]⟩ = .slash := rfl
  have path : ofText "a/../b//c/" = ⟨.relative, ["a", "..", "b", "c"]⟩ := by decide +kernel
  have linked : ofText "a/b" = ⟨.relative, ["a", "b"]⟩ := by decide +kernel
  have back : LeadsTo [] ⟨.slash, ["w"]⟩ (.ofText "a/../b//c/") ["w", "b", "c"] := by
    rw [path]
    exact .down (by decide) rfl (.up (.down (by decide) rfl (.down (by decide) rfl (.here _))))
  have away : LeadsTo [(["w", "a"], ["v"])] ⟨.slash, ["w"]⟩ (.ofText "a/b") ["v", "b"] := by
    rw [linked]
    exact .through (by decide) rfl (.down (by decide) rfl (.here _))
  obtain ⟨target, leads, -, listed⟩ := folders_way_up_iff [] rooted (.ofText "a/../b//c/")
  obtain ⟨other, leads', -, unlisted⟩ :=
    folders_way_up_iff [(["w", "a"], ["v"])] rooted (.ofText "a/b")
  cases (leads _).1 back
  cases (leads' _).1 away
  obtain ⟨folders, run, way, -⟩ := listed (by decide +kernel)
  obtain ⟨none, run', -, -, outside⟩ := unlisted (by decide +kernel)
  refine ⟨rooted, ⟨folders, run, ?_, way.2 (by decide)⟩, ?_⟩
  · refine Except.ok.inj (run.symm.trans ?_)
    decide +kernel
  · rw [run', outside (by decide)]

/-- The working directory itself is listed, although it is not below itself. -/
theorem working_directory_listed :
    root ⟨.slash, ["w"]⟩ = .slash ∧ LeadsTo [] ⟨.slash, ["w"]⟩ (.ofText ".") ["w"]
      ∧ foldersBelow [] ⟨.slash, ["w"]⟩ (.ofText ".") = .ok [⟨.slash, ["w"]⟩]
      ∧ ¬ IsWayUp ⟨.slash, ["w"]⟩ ["w"] [⟨.slash, ["w"]⟩] := by
  have path : ofText "." = ⟨.relative, []⟩ := by decide +kernel
  exact ⟨rfl, path ▸ .here _, by decide +kernel,
    fun way => way.cwd_not_mem (List.mem_singleton_self _)⟩

end IdiomLint.Path
