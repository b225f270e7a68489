import IdiomLint.Proofs.AnnotatedFiles
import IdiomLint.Proofs.IgnoredFindings

/-! Which reports the entries of `ignore` with a path leave out. Where an entry applies is said by
walking along its path, component by component, from the directory of the configuration file. -/
namespace IdiomLint

namespace Path

variable {links : Links} {cwd : Path}

/-- Walking to a directory and on from there is walking along the joined path. -/
theorem leadsTo_join {base : Path} {directory : List String}
    (start : LeadsTo links cwd base directory) (p : Path) (target : List String) :
    LeadsTo links cwd (base.join p) target ↔ LeadsFrom links directory p target := by
  unfold LeadsTo LeadsFrom join at *
  cases h : p.root with
  | relative =>
    dsimp only
    rw [leads_iff, leads_iff, List.foldl_append, ← leads_iff.1 start, if_pos rfl]
  | slash => simp [h]
  | doubleSlash => simp [h]

theorem isBelow_resolve_iff {p base : Path} {target place : List String}
    (leads : LeadsTo links cwd p target) (above : LeadsTo links cwd base place) :
    (cwd.resolve links p).isBelow (cwd.resolve links base) = true ↔ place <+: target := by
  rw [(leadsTo_iff p target).1 leads, (leadsTo_iff base place).1 above]
  simp [isBelow, resolve]

end Path

/-- The directory that the paths of settings start from: the one that the configuration file is in,
and the working directory if no such file is named. -/
inductive Settings.StartsFrom (s : Settings) (links : Path.Links) (cwd : Path) :
    List String → Prop where
  | file {file : String} {directory : List String} (named : s.namedConfigFile = some file)
      (leads : Path.LeadsTo links cwd (Path.ofText file).parent directory) :
      StartsFrom s links cwd directory
  | here (unnamed : s.namedConfigFile = none) : StartsFrom s links cwd cwd.parts

/-- An entry that applies to a place and all that is below it. -/
def Classifier.AppliesAt (c : Classifier) (links : Path.Links) (start place : List String) : Prop :=
  ∃ p, c.path = some p ∧ Path.LeadsFrom links start p place

/-- An entry means a report by its code as it is printed, or by one of its categories. -/
inductive Classifier.Means (r : Report) : Classifier → Prop where
  | code {own : Code} (same : own.toText = r.code.toText) (path : Option Path) :
      Means r (.code own path)
  | category {name : String} (listed : name ∈ r.categories) (path : Option Path) :
      Means r (.category name path)

/-- An entry with a path that holds a null character, so that nothing can have it. -/
def Settings.HasNullPath (s : Settings) : Prop :=
  ∃ c ∈ s.ignore, ∃ p, c.path = some p ∧ (s.root.join p).hasNull = true

section

variable {s : Settings} {links : Path.Links} {cwd : Path} {r : Report} {file : String}

theorem Classifier.isAbout_iff (c : Classifier) : c.isAbout r = true ↔ c.Means r := by
  constructor
  · intro about
    cases c with
    | code own path => exact .code (eq_of_beq about) path
    | category name path => exact .category (List.contains_iff_mem.1 about) path
  · rintro (⟨same, path⟩ | ⟨listed, path⟩)
    · exact beq_of_eq same
    · exact List.contains_iff_mem.2 listed

theorem Settings.root_of_unnamed (unnamed : s.namedConfigFile = none) : s.root = .empty := by
  unfold namedConfigFile at unnamed
  unfold root
  cases h : s.configFile with
  | none => rfl
  | some file =>
    have nothing : file = "" := by simpa [h, Option.filter] using unnamed
    simp [nothing]

theorem Settings.root_of_named (named : s.namedConfigFile = some file) :
    s.root = (Path.ofText file).parent := by
  obtain ⟨set, given⟩ := Option.filter_eq_some_iff.1 named
  have known : file ≠ "" := by simpa using given
  simp [root, set, known]

theorem Settings.startsFrom_iff (s : Settings) (place : List String) :
    s.StartsFrom links cwd place ↔ Path.LeadsTo links cwd s.root place := by
  constructor
  · rintro (⟨named, leads⟩ | unnamed)
    · rwa [root_of_named named]
    · rw [root_of_unnamed unnamed]
      exact .here _
  · intro leads
    cases named : s.namedConfigFile with
    | none =>
      rw [root_of_unnamed named] at leads
      rw [(Path.Leads.here cwd.parts).unique leads]
      exact .here named
    | some file => exact .file named (root_of_named named ▸ leads)

theorem Classifier.coversFile_iff {start target : List String}
    (starts : Path.LeadsTo links cwd s.root start)
    (leads : Path.LeadsTo links cwd (.ofText file) target) (c : Classifier) :
    c.coversFile links cwd s.root file = true
      ↔ ∃ place, c.AppliesAt links start place ∧ place <+: target := by
  unfold coversFile AppliesAt
  cases c.path with
  | none => simp
  | some p =>
    have above := Path.leadsTo_resolve links cwd (s.root.join p)
    rw [Path.isBelow_resolve_iff leads above]
    constructor
    · exact fun below => ⟨_, ⟨p, rfl, (Path.leadsTo_join starts p _).1 above⟩, below⟩
    · rintro ⟨place, ⟨_, ⟨⟩, there⟩, below⟩
      rwa [((Path.leadsTo_join starts p place).2 there).unique above]

theorem Settings.any_hasNull_iff (s : Settings) :
    s.ignoredPaths.any Path.hasNull = true ↔ s.HasNullPath := by
  simp only [ignoredPaths, HasNullPath, List.any_eq_true, List.mem_filterMap,
    Option.map_eq_some_iff]
  constructor
  · rintro ⟨_, ⟨c, listed, p, path, rfl⟩, null⟩
    exact ⟨c, listed, p, path, null⟩
  · rintro ⟨c, listed, p, path, null⟩
    exact ⟨_, ⟨c, listed, p, path, rfl⟩, null⟩

theorem ignoredByPath_of_null (null : '\x00' ∈ file.toList ∨ s.HasNullPath) :
    ignoredByPath s links cwd r file = .error .nullCharacter := by
  unfold ignoredByPath
  rw [if_pos]
  rwa [Bool.or_eq_true, Path.hasNull_ofText, s.any_hasNull_iff]

theorem ignoredByPath_of_clean (clean : '\x00' ∉ file.toList) (valid : ¬ s.HasNullPath) :
    ignoredByPath s links cwd r file
      = .ok (s.ignore.any fun c => c.coversFile links cwd s.root file && c.isAbout r) := by
  unfold ignoredByPath
  rw [if_neg]
  rw [Bool.or_eq_true, Path.hasNull_ofText, s.any_hasNull_iff]
  exact not_or.2 ⟨clean, valid⟩

/-- An entry for one name of a directory does not cover what has another name there, whatever the
two names start with. -/
theorem Classifier.coversFile_of_sibling {start above : List String}
    (starts : Path.LeadsTo links cwd s.root start) {name other : String} {rest : List String}
    (leads : Path.LeadsTo links cwd (.ofText file) (above ++ other :: rest)) {c : Classifier}
    (applies : c.AppliesAt links start (above ++ [name])) (differ : other ≠ name) :
    c.coversFile links cwd s.root file = false := by
  rw [← Bool.not_eq_true, coversFile_iff starts leads]
  rintro ⟨place, ⟨p, path, there⟩, below⟩
  obtain ⟨_, known, here⟩ := applies
  cases path.symm.trans known
  cases here.unique there
  rw [List.prefix_append_right_inj, List.cons_prefix_cons] at below
  exact differ below.1.symm

theorem Settings.any_withoutIgnored {c : Classifier} {f : Classifier → Bool} (no : f c = false) :
    (s.withoutIgnored c).ignore.any f = s.ignore.any f := by
  rw [Bool.eq_iff_iff, List.any_eq_true, List.any_eq_true]
  refine exists_congr fun d => and_congr_left fun yes => ?_
  rw [mem_withoutIgnored, and_iff_left]
  rintro rfl
  rw [no] at yes
  cases yes

theorem Settings.HasNullPath.of_withoutIgnored {c : Classifier}
    (null : (s.withoutIgnored c).HasNullPath) : s.HasNullPath := by
  obtain ⟨d, listed, null⟩ := null
  exact ⟨d, (mem_withoutIgnored.1 listed).1, null⟩

theorem ignoredByPath_union (s : Settings) (links : Path.Links) (cwd : Path) (r : Report)
    (file : String) (a b : Selection) :
    ignoredByPath { s with ignore := a.union b } links cwd r file = (do
      let one ← ignoredByPath { s with ignore := a } links cwd r file
      let two ← ignoredByPath { s with ignore := b } links cwd r file
      return one || two) := by
  have either : Settings.HasNullPath { s with ignore := a.union b }
      ↔ Settings.HasNullPath { s with ignore := a }
        ∨ Settings.HasNullPath { s with ignore := b } := by
    simp only [Settings.HasNullPath, Selection.mem_union, or_and_right, exists_or]
    exact Iff.rfl
  have answers (f : Classifier → Bool) : (a.union b).any f = (a.any f || b.any f) := by
    rw [Bool.eq_iff_iff]
    simp only [Bool.or_eq_true, List.any_eq_true, Selection.mem_union, or_and_right, exists_or]
  by_cases null : '\x00' ∈ file.toList
  · rw [ignoredByPath_of_null (.inl null), ignoredByPath_of_null (.inl null)]
    rfl
  by_cases first : Settings.HasNullPath { s with ignore := a }
  · rw [ignoredByPath_of_null (.inr (either.2 (.inl first))), ignoredByPath_of_null (.inr first)]
    rfl
  rw [ignoredByPath_of_clean null first]
  by_cases second : Settings.HasNullPath { s with ignore := b }
  · rw [ignoredByPath_of_null (.inr (either.2 (.inr second))), ignoredByPath_of_null (.inr second)]
    rfl
  rw [ignoredByPath_of_clean null second,
    ignoredByPath_of_clean null (mt either.1 (not_or.2 ⟨first, second⟩)), answers]
  rfl

end

/-- A report is left out because of a path exactly if some entry means it and applies to the place
of its file or to a directory above: so an entry says nothing about its siblings, and entries taken
together leave out what one or another of them does. A null character in a path decides nothing, it
is an error. -/
theorem amended_path_ignores_iff (s : Settings) (links : Path.Links) (cwd : Path) (r : Report)
    (file : String) :
    ∃ start target, (∀ place, s.StartsFrom links cwd place ↔ place = start)
      ∧ (∀ place, Path.LeadsTo links cwd (.ofText file) place ↔ place = target)
      ∧ ('\x00' ∈ file.toList ∨ s.HasNullPath →
          ignoredByPath s links cwd r file = .error .nullCharacter)
      ∧ ('\x00' ∉ file.toList → ¬ s.HasNullPath →
          ∃ answer, ignoredByPath s links cwd r file = .ok answer
            ∧ (answer = true ↔ ∃ c ∈ s.ignore, c.Means r
              ∧ ∃ place, c.AppliesAt links start place ∧ place <+: target)
            ∧ ∀ c above name other rest, c.AppliesAt links start (above ++ [name]) →
              target = above ++ other :: rest → other ≠ name →
              ignoredByPath (s.withoutIgnored c) links cwd r file = .ok answer)
      ∧ ∀ a b : Selection, ignoredByPath { s with ignore := a.union b } links cwd r file = (do
          let one ← ignoredByPath { s with ignore := a } links cwd r file
          let two ← ignoredByPath { s with ignore := b } links cwd r file
          return one || two) := by
  have starts := Path.leadsTo_resolve links cwd s.root
  have leads := Path.leadsTo_resolve links cwd (.ofText file)
  refine ⟨_, _, fun place => (s.startsFrom_iff place).trans (Path.leadsTo_iff s.root place),
    Path.leadsTo_iff (.ofText file), ignoredByPath_of_null, fun clean valid => ?_,
    ignoredByPath_union s links cwd r file⟩
  refine ⟨_, ignoredByPath_of_clean clean valid, ?_, ?_⟩
  · simp only [List.any_eq_true, Bool.and_eq_true, Classifier.coversFile_iff starts leads,
      Classifier.isAbout_iff, and_comm]
  · intro c above name other rest applies target differ
    have outside := Classifier.coversFile_of_sibling starts (target ▸ leads) applies differ
    have sameRoot : (s.withoutIgnored c).root = s.root := rfl
    rw [ignoredByPath_of_clean clean (mt Settings.HasNullPath.of_withoutIgnored valid), sameRoot,
      Settings.any_withoutIgnored (by rw [outside, Bool.false_and])]

theorem amended_path_ignores_iff_category :
    let s : Settings := {
      configFile := some "conf/own.toml"
      ignore := [.category "pythonic" (some (.ofText "../src"))] }
    ignoredByPath s [] ⟨.slash, ["w"]⟩ ⟨⟨"FURB", 123⟩, ["pythonic"], .startingAt 1 4 "m"⟩
        "src/old/../d.py" = .ok true
      ∧ ignoredByPath s [] ⟨.slash, ["w"]⟩ ⟨⟨"FURB", 123⟩, ["pythonic"], .startingAt 1 4 "m"⟩
        "src2/d.py" = .ok false := by
  intro s
  have config : (Path.ofText "conf/own.toml").parent = ⟨.relative, ["conf"]⟩ := by decide +kernel
  have entry : Path.ofText "../src" = ⟨.relative, ["..", "src"]⟩ := by decide +kernel
  have inside : Path.ofText "src/old/../d.py" = ⟨.relative, ["src", "old", "..", "d.py"]⟩ := by
    decide +kernel
  have beside : Path.ofText "src2/d.py" = ⟨.relative, ["src2", "d.py"]⟩ := by decide +kernel
  have starts : s.StartsFrom [] ⟨.slash, ["w"]⟩ ["w", "conf"] :=
    .file rfl (by rw [config]; exact .down (by decide) rfl (.here _))
  have applies : Classifier.AppliesAt (.category "pythonic" (some (.ofText "../src")))
      [] ["w", "conf"] ["w", "src"] :=
    ⟨_, rfl, by rw [entry]; exact .up (.down (by decide) rfl (.here _))⟩
  have valid : ¬ s.HasNullPath := by
    rw [← s.any_hasNull_iff]
    decide +kernel
  constructor
  · obtain ⟨start, target, known, leads, -, answered, -⟩ := amended_path_ignores_iff s []
      ⟨.slash, ["w"]⟩ ⟨⟨"FURB", 123⟩, ["pythonic"], .startingAt 1 4 "m"⟩ "src/old/../d.py"
    obtain ⟨answer, result, yes, -⟩ := answered (by decide +kernel) valid
    cases (known _).1 starts
    have there : Path.LeadsTo [] ⟨.slash, ["w"]⟩ (.ofText "src/old/../d.py")
        ["w", "src", "d.py"] := by
      rw [inside]
      exact .down (by decide) rfl (.down (by decide) rfl (.up (.down (by decide) rfl (.here _))))
    cases (leads _).1 there
    rw [result, yes.2 ⟨_, List.mem_singleton_self _, .category (List.mem_singleton_self _) _, _,
      applies, ⟨["d.py"], rfl⟩⟩]
  · obtain ⟨start, target, known, leads, -, answered, -⟩ := amended_path_ignores_iff s []
      ⟨.slash, ["w"]⟩ ⟨⟨"FURB", 123⟩, ["pythonic"], .startingAt 1 4 "m"⟩ "src2/d.py"
    obtain ⟨answer, result, -, alone⟩ := answered (by decide +kernel) valid
    cases (known _).1 starts
    have there : Path.LeadsTo [] ⟨.slash, ["w"]⟩ (.ofText "src2/d.py") ["w", "src2", "d.py"] := by
      rw [beside]
      exact .down (by decide) rfl (.down (by decide) rfl (.here _))
    cases (leads _).1 there
    rw [result, ← alone _ ["w"] "src" "src2" ["d.py"] applies rfl (by decide)]
    decide +kernel

/-- One path with a null character keeps all entries from being used, also the one that means the
report. -/
theorem null_character_refused :
    ∃ s, Settings.ofConfigText ⟨false, none⟩ ("[[tool.refurb.amend]]\npath = \".\"\n"
        ++ "ignore = [\"FURB123\"]\n[[tool.refurb.amend]]\npath = \"a\\u0000\"\n"
        ++ "ignore = [\"FURB124\"]\n") = .ok s
      ∧ s.StartsFrom [] ⟨.slash, ["w"]⟩ ["w"]
      ∧ Path.LeadsTo [] ⟨.slash, ["w"]⟩ (.ofText "d.py") ["w", "d.py"]
      ∧ (∃ c ∈ s.ignore, c.Means ⟨⟨"FURB", 123⟩, [], .startingAt 1 4 "m"⟩
        ∧ c.AppliesAt [] ["w"] ["w"] ∧ ["w"] <+: ["w", "d.py"])
      ∧ ignoredByPath s [] ⟨.slash, ["w"]⟩ ⟨⟨"FURB", 123⟩, [], .startingAt 1 4 "m"⟩ "d.py"
        = .error .nullCharacter := by
  refine exists_ok_of_map (fun s => (s.ignore, s.configFile))
    ([.code ⟨"FURB", 123⟩ (some .empty), .code ⟨"FURB", 124⟩ (some ⟨.relative, ["a\x00"]⟩)], none)
    (by decide +kernel) fun s _ known => ?_
  obtain ⟨ignore, noFile⟩ := Prod.mk.inj known
  have unnamed : s.namedConfigFile = none := by rw [Settings.namedConfigFile, noFile]; rfl
  have path : Path.ofText "d.py" = ⟨.relative, ["d.py"]⟩ := by decide +kernel
  refine ⟨.here unnamed, ?_, ?_, ?_⟩
  · rw [path]
    exact .down (by decide) rfl (.here _)
  · rw [ignore]
    exact ⟨_, List.mem_cons_self, .code rfl _, ⟨_, rfl, .here _⟩, ⟨["d.py"], rfl⟩⟩
  · apply ignoredByPath_of_null
    refine .inr ⟨.code ⟨"FURB", 124⟩ (some ⟨.relative, ["a\x00"]⟩), by rw [ignore]; simp, _, rfl,
      ?_⟩
    rw [Settings.root_of_unnamed unnamed]
    decide +kernel

end IdiomLint
