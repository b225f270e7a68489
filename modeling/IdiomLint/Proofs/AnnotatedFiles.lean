import IdiomLint.Output.Format
import Mathlib.Data.List.Basic

/-! Which reports can be shown as commands to a build service. The command names the file by its way
from the working directory, so there is none for a file elsewhere, and the whole output is lost. -/
namespace IdiomLint

namespace Path

/-- Going from a directory along components leads to a place: `..` goes up, but not above the root,
a link to where it leads in the end, and every other name down. -/
inductive Leads (links : Links) : List String → List String → List String → Prop where
  | here (place : List String) : Leads links place [] place
  | up {place parts target : List String} (rest : Leads links place.dropLast parts target) :
      Leads links place (".." :: parts) target
  | down {place parts target : List String} {name : String} (below : name ≠ "..")
      (plain : links.lookup (place ++ [name]) = none)
      (rest : Leads links (place ++ [name]) parts target) : Leads links place (name :: parts) target
  | through {place goal parts target : List String} {name : String} (below : name ≠ "..")
      (link : links.lookup (place ++ [name]) = some goal) (rest : Leads links goal parts target) :
      Leads links place (name :: parts) target

/-- The place that a path leads to from a directory; a path with a root starts there instead. -/
def LeadsFrom (links : Links) (directory : List String) (p : Path) (target : List String) : Prop :=
  Leads links (if p.root = .relative then directory else []) p.parts target

/-- The place that a path leads to from a working directory. -/
def LeadsTo (links : Links) (cwd p : Path) (target : List String) : Prop :=
  LeadsFrom links cwd.parts p target

/-- No link stands on the way down from a place along names. -/
def Clear (links : Links) (place names : List String) : Prop :=
  ∀ front, front ≠ [] → front <+: names → links.lookup (place ++ front) = none

section

variable {links : Links} {place parts target : List String} {name : String}

theorem step_of_plain (below : name ≠ "..") (plain : links.lookup (place ++ [name]) = none) :
    step links place name = place ++ [name] := by
  rw [step, if_neg (by simpa using below), plain, Option.getD_none]

theorem step_of_link (below : name ≠ "..") {goal : List String}
    (link : links.lookup (place ++ [name]) = some goal) : step links place name = goal := by
  rw [step, if_neg (by simpa using below), link, Option.getD_some]

theorem leads_cons_iff :
    Leads links place (name :: parts) target
      ↔ Leads links (step links place name) parts target := by
  constructor
  · intro leads
    cases leads with
    | up rest => exact rest
    | down below plain rest => rwa [step_of_plain below plain]
    | through below link rest => rwa [step_of_link below link]
  · intro rest
    by_cases above : name = ".."
    · subst above
      exact .up rest
    · cases link : links.lookup (place ++ [name]) with
      | none => exact .down above link (step_of_plain above link ▸ rest)
      | some goal => exact .through above link (step_of_link above link ▸ rest)

theorem leads_iff : Leads links place parts target ↔ target = parts.foldl (step links) place := by
  induction parts generalizing place with
  | nil =>
    constructor
    · rintro ⟨⟩
      rfl
    · rintro rfl
      exact .here _
  | cons name parts ih => rw [leads_cons_iff, ih, List.foldl_cons]

theorem Leads.unique {target' : List String} (leads : Leads links place parts target)
    (other : Leads links place parts target') : target' = target :=
  (leads_iff.1 other).trans (leads_iff.1 leads).symm

theorem Clear.of_cons (clear : Clear links place (name :: parts)) :
    Clear links (place ++ [name]) parts := by
  intro front _ onTheWay
  rw [List.append_assoc]
  exact clear (name :: front) (List.cons_ne_nil _ _) (List.prefix_cons_inj name |>.2 onTheWay)

theorem foldl_step_of_clear (clear : Clear links place parts) (straight : ".." ∉ parts) :
    parts.foldl (step links) place = place ++ parts := by
  induction parts generalizing place with
  | nil => rw [List.foldl_nil, List.append_nil]
  | cons name parts ih =>
    obtain ⟨other, straight⟩ := not_or.1 (mt List.mem_cons.2 straight)
    have plain : links.lookup (place ++ [name]) = none :=
      clear [name] (List.cons_ne_nil _ _) ⟨parts, rfl⟩
    rw [List.foldl_cons, step_of_plain (Ne.symm other) plain, ih clear.of_cons straight,
      List.append_assoc, List.singleton_append]

end

variable {links : Links} {cwd : Path}

theorem leadsTo_iff (p : Path) (place : List String) :
    LeadsTo links cwd p place ↔ place = (cwd.resolve links p).parts :=
  leads_iff

theorem leadsTo_resolve (links : Links) (cwd p : Path) :
    LeadsTo links cwd p (cwd.resolve links p).parts :=
  (leadsTo_iff p _).2 rfl

theorem relativeTo?_of_append {p : Path} (sameRoot : p.root = cwd.root) {below : List String}
    (h : p.parts = cwd.parts ++ below) : p.relativeTo? cwd = some ⟨.relative, below⟩ := by
  simp [relativeTo?, isBelow, sameRoot, h]

theorem relativeTo?_of_not_prefix {p : Path} (h : ¬ cwd.parts <+: p.parts) :
    p.relativeTo? cwd = none := by
  have outside : cwd.parts.isPrefixOf p.parts = false := by
    rw [← Bool.not_eq_true, List.isPrefixOf_iff_prefix]
    exact h
  simp [relativeTo?, isBelow, outside]

end Path

/-- A character other than the separator is in a text exactly if it is in a piece of it. -/
theorem Text.mem_iff_exists_splitOn {α : Type} [BEq α] [LawfulBEq α] {separator a : α}
    (other : a ≠ separator) (l : List α) : a ∈ l ↔ ∃ piece ∈ splitOn separator l, a ∈ piece := by
  induction l with
  | nil => simp [splitOn]
  | cons b rest ih =>
    obtain ⟨piece, pieces, found, next⟩ := exists_splitOn_cons separator b rest
    rw [List.mem_cons, ih, found, next]
    split
    · rename_i same
      simp [eq_of_beq same, other]
    · simp [or_assoc]

theorem Path.hasNull_ofText (file : String) :
    (Path.ofText file).hasNull = true ↔ '\x00' ∈ file.toList := by
  have other : '\x00' ≠ '/' := by decide
  rw [Text.mem_iff_exists_splitOn other file.toList]
  simp only [hasNull, ofText, Text.split, List.any_filter, List.any_map, List.any_eq_true,
    Function.comp, String.toList_ofList, List.contains_iff_mem, Bool.and_eq_true, bne_iff_ne]
  refine exists_congr fun piece => and_congr_right fun _ => ⟨And.right, fun null => ⟨?_, null⟩⟩
  -- neither of the components that mean nothing holds a null character
  have unlike {s : String} (clean : '\x00' ∉ s.toList) : String.ofList piece ≠ s := by
    rintro rfl
    rw [String.toList_ofList] at clean
    exact clean null
  exact ⟨unlike (by decide), unlike (by decide)⟩

/-- The command that shows a report, with a name for its file. -/
def Report.annotation (r : Report) (file : String) : String :=
  "::error line=" ++ toString r.finding.line ++ ",col=" ++ toString (r.finding.column + 1)
    ++ ",title=Refurb " ++ r.code.toText ++ ",file=" ++ file ++ "::" ++ r.finding.message

section

variable {r : Report} {file : String} {links : Path.Links} {cwd : Path}

theorem namedFile_eq_some (named : file ≠ "") : namedFile (some file) = some file := by
  simp [namedFile, named]

theorem Report.command_of_null (named : file ≠ "") (null : '\x00' ∈ file.toList) :
    r.command links cwd (some file) = .error .nullCharacter := by
  unfold command
  simp only [namedFile_eq_some named, if_pos (Path.hasNull_ofText file |>.2 null)]

theorem Report.command_of_outside (named : file ≠ "") (clean : '\x00' ∉ file.toList)
    (outside : (cwd.resolve links (Path.ofText file)).relativeTo? cwd = none) :
    r.command links cwd (some file) = .error .outside := by
  unfold command
  simp only [namedFile_eq_some named, if_neg (mt (Path.hasNull_ofText file).1 clean), outside]

theorem Report.command_of_below (named : file ≠ "") (clean : '\x00' ∉ file.toList) {below : Path}
    (h : (cwd.resolve links (Path.ofText file)).relativeTo? cwd = some below) :
    r.command links cwd (some file) = .ok (r.annotation below.toText) := by
  unfold command
  simp only [namedFile_eq_some named, if_neg (mt (Path.hasNull_ofText file).1 clean), h]
  rfl

end

/-- A report is shown as a command exactly if its file lies in or below the working directory,
wherever its path goes in between. A relative path without `..` leads there unless a link takes it
elsewhere. -/
theorem Report.command_iff_below (r : Report) {file : String} (named : file ≠ "")
    (links : Path.Links) {cwd : Path} (rooted : cwd.root = .slash) :
    ∃ target, (∀ place, Path.LeadsTo links cwd (.ofText file) place ↔ place = target)
      ∧ (∀ note, r.command links cwd (some file) = .ok note
        ↔ '\x00' ∉ file.toList ∧ ∃ below, target = cwd.parts ++ below
          ∧ note = r.annotation (Path.toText ⟨.relative, below⟩))
      ∧ ('\x00' ∈ file.toList → r.command links cwd (some file) = .error .nullCharacter)
      ∧ ('\x00' ∉ file.toList → ¬ cwd.parts <+: target →
          r.command links cwd (some file) = .error .outside)
      ∧ ((Path.ofText file).root = .relative → ".." ∉ (Path.ofText file).parts →
          Path.Clear links cwd.parts (Path.ofText file).parts → '\x00' ∉ file.toList →
          r.command links cwd (some file) = .ok (r.annotation (Path.ofText file).toText)) := by
  have sameRoot : (cwd.resolve links (.ofText file)).root = cwd.root := rooted.symm
  refine ⟨_, Path.leadsTo_iff (.ofText file), fun note => ?_, command_of_null named, ?_, ?_⟩
  · constructor
    · intro shown
      have clean : '\x00' ∉ file.toList := fun null => by
        rw [command_of_null named null] at shown
        cases shown
      refine ⟨clean, ?_⟩
      by_cases inside : cwd.parts <+: (cwd.resolve links (.ofText file)).parts
      · obtain ⟨below, target⟩ := inside
        rw [command_of_below named clean (Path.relativeTo?_of_append sameRoot target.symm)] at shown
        exact ⟨below, target.symm, (Except.ok.inj shown).symm⟩
      · rw [command_of_outside named clean (Path.relativeTo?_of_not_prefix inside)] at shown
        cases shown
    · rintro ⟨clean, below, target, rfl⟩
      exact command_of_below named clean (Path.relativeTo?_of_append sameRoot target)
  · intro clean outside
    exact command_of_outside named clean (Path.relativeTo?_of_not_prefix outside)
  · intro relative straight clear clean
    have target : (cwd.resolve links (.ofText file)).parts
        = cwd.parts ++ (Path.ofText file).parts := by
      unfold Path.resolve
      rw [if_pos relative]
      exact Path.foldl_step_of_clear clear straight
    rw [command_of_below named clean (Path.relativeTo?_of_append sameRoot target), ← relative]

theorem Report.command_iff_below_back :
    "../v/d.py" ≠ "" ∧ "v/d.py" ≠ "" ∧ Path.root ⟨.slash, ["w"]⟩ = .slash
      ∧ Report.command [(["v"], ["w"])] ⟨.slash, ["w"]⟩
          ⟨⟨"FURB", 123⟩, [], .startingAt 1 4 "m"⟩ (some "../v/d.py")
        = .ok "::error line=1,col=5,title=Refurb FURB123,file=d.py::m"
      ∧ Report.command [(["w", "v"], ["v"])] ⟨.slash, ["w"]⟩
          ⟨⟨"FURB", 123⟩, [], .startingAt 1 4 "m"⟩ (some "v/d.py") = .error .outside := by
  have back : Path.ofText "../v/d.py" = ⟨.relative, ["..", "v", "d.py"]⟩ := by decide +kernel
  have away : Path.ofText "v/d.py" = ⟨.relative, ["v", "d.py"]⟩ := by decide +kernel
  have named : "../v/d.py" ≠ "" := by decide
  have named' : "v/d.py" ≠ "" := by decide
  have rooted : Path.root ⟨.slash, ["w"]⟩ = .slash := rfl
  refine ⟨named, named', rooted, ?_, ?_⟩
  · obtain ⟨target, leads, shown, -⟩ := Report.command_iff_below
      ⟨⟨"FURB", 123⟩, [], .startingAt 1 4 "m"⟩ named [(["v"], ["w"])] rooted
    have there : Path.LeadsTo [(["v"], ["w"])] ⟨.slash, ["w"]⟩ (.ofText "../v/d.py")
        ["w", "d.py"] := by
      rw [back]
      exact .up (.through (by decide) rfl (.down (by decide) rfl (.here _)))
    refine (shown _).2 ⟨by decide +kernel, ["d.py"], ((leads _).1 there).symm, ?_⟩
    decide +kernel
  · obtain ⟨target, leads, -, -, outside, -⟩ := Report.command_iff_below
      ⟨⟨"FURB", 123⟩, [], .startingAt 1 4 "m"⟩ named' [(["w", "v"], ["v"])] rooted
    have there : Path.LeadsTo [(["w", "v"], ["v"])] ⟨.slash, ["w"]⟩ (.ofText "v/d.py")
        ["v", "d.py"] := by
      rw [away]
      exact .through (by decide) rfl (.down (by decide) rfl (.here _))
    refine outside (by decide +kernel) ?_
    rw [← (leads _).1 there]
    decide

/-- A file above the working directory, whether its path is relative or not, has no command, and
with it the whole output is lost. -/
theorem Report.command_above_fails :
    Path.root ⟨.slash, ["w"]⟩ = .slash
      ∧ Report.command [] ⟨.slash, ["w"]⟩ ⟨⟨"FURB", 123⟩, [], .startingAt 1 4 "m"⟩ (some "../d.py")
        = .error .outside
      ∧ Report.command [] ⟨.slash, ["w"]⟩ ⟨⟨"FURB", 123⟩, [], .startingAt 1 4 "m"⟩ (some "/d.py")
        = .error .outside
      ∧ formatMessages { format := some .github } [] ⟨.slash, ["w"]⟩ [.text "first",
        .report ⟨⟨"FURB", 123⟩, [], .startingAt 1 4 "m"⟩ (some "../d.py")] = .error .outside :=
  ⟨rfl, by decide +kernel, by decide +kernel, by decide +kernel⟩

end IdiomLint
