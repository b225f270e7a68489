import IdiomLint.Output.Ignore
import IdiomLint.Proofs.SelectedChecks

/-! What the entries of `ignore` keep out of the output. An entry without a path acts only where
checks are selected, and there only by its code. -/
namespace IdiomLint

namespace Settings

variable {s : Settings} {c : Classifier}

def withoutIgnored (s : Settings) (c : Classifier) : Settings :=
  { s with ignore := s.ignore.filter (· != c) }

theorem mem_withoutIgnored {d : Classifier} :
    d ∈ (s.withoutIgnored c).ignore ↔ d ∈ s.ignore ∧ d ≠ c := by
  simp [withoutIgnored]

/-- Findings of a kind do not reach the output: the check is not selected, or what it reports is
left out afterwards. -/
def Drops (s : Settings) (fs : Files) (k : Kind) (f : Finding) (file : String) : Prop :=
  s.selects k = false
    ∨ (Message.report ⟨k.code, k.categories, f⟩ (some file)).isIgnored s fs = .ok true

instance (s : Settings) (fs : Files) (k : Kind) (f : Finding) (file : String) :
    Decidable (s.Drops fs k f file) :=
  decidable_of_iff (s.selects k = false
      ∨ ((Message.report ⟨k.code, k.categories, f⟩ (some file)).isIgnored s fs).toOption = some true)
    (or_congr_right (by cases Message.isIgnored _ _ _ <;> simp [Except.toOption]))

/-- An entry counts for the selection of checks only if it is the code of the check, and then only
if the code is not enabled. -/
theorem selects_withoutIgnored (listed : c ∈ s.ignore) (k : Kind) :
    s.selects k = false
      ↔ (c = k.classifier ∧ c ∉ s.enable) ∨ (s.withoutIgnored c).selects k = false := by
  rw [← Bool.not_eq_true, ← Bool.not_eq_true, selects_iff, selects_iff, mem_withoutIgnored]
  simp only [withoutIgnored]
  by_cases own : c = k.classifier
  · -- an ignored code is selected only if it is enabled, which is asked first
    subst own
    by_cases enabled : k.classifier ∈ s.enable <;> simp [listed, enabled]
  · -- the code of the check is ignored with this entry if it is without
    have other : k.classifier ≠ c := fun same => own same.symm
    simp [own, other]

/-- Paths of the settings are looked up only for the entries that have one. -/
theorem ignoredPaths_withoutIgnored (everywhere : c.path = none) :
    (s.withoutIgnored c).ignoredPaths = s.ignoredPaths := by
  unfold ignoredPaths withoutIgnored
  rw [List.filterMap_filter]
  congr 1
  funext d
  by_cases same : d = c
  · simp [same, everywhere]
  · simp [same, root]

end Settings

/-- An entry without a path never leaves out a report. -/
theorem ignoredByPath_withoutIgnored {s : Settings} {c : Classifier} (everywhere : c.path = none)
    (links : Path.Links) (cwd : Path) (r : Report) (file : String) :
    ignoredByPath (s.withoutIgnored c) links cwd r file = ignoredByPath s links cwd r file := by
  have covers (d : Classifier) : (d != c && d.coversFile links cwd s.root file)
      = d.coversFile links cwd s.root file := by
    by_cases same : d = c
    · simp [same, Classifier.coversFile, everywhere]
    · simp [same]
  have sameRoot : (s.withoutIgnored c).root = s.root := rfl
  unfold ignoredByPath
  rw [Settings.ignoredPaths_withoutIgnored everywhere, sameRoot]
  simp only [Settings.withoutIgnored, List.any_filter, ← Bool.and_assoc, covers]

theorem Message.isIgnored_withoutIgnored {s : Settings} {c : Classifier}
    (everywhere : c.path = none) (fs : Files) (m : Message) :
    m.isIgnored (s.withoutIgnored c) fs = m.isIgnored s fs := by
  unfold isIgnored
  simp only [ignoredByPath_withoutIgnored everywhere]

/-- An entry without a path drops the findings with its code, unless the code is enabled, and
nothing else: all other findings that are dropped are dropped without it too. In particular, an
entry for a category drops nothing. -/
theorem Settings.drops_iff_of_everywhere {s : Settings} {c : Classifier} (listed : c ∈ s.ignore)
    (everywhere : c.path = none) (fs : Files) (k : Kind) (f : Finding) (file : String) :
    s.Drops fs k f file
      ↔ (c = k.classifier ∧ c ∉ s.enable) ∨ (s.withoutIgnored c).Drops fs k f file := by
  unfold Drops
  rw [selects_withoutIgnored listed, Message.isIgnored_withoutIgnored everywhere, or_assoc]

theorem Settings.drops_iff_of_everywhere_code :
    ∃ s, ofArguments ⟨false, none⟩ ["--enable", "#readability", "--ignore", "105"] = .ok s
      ∧ .code ⟨"FURB", 105⟩ none ∈ s.ignore
      ∧ s.Drops (.single "d.py" "print(\"\")\n") ⟨⟨"FURB", 105⟩, ["builtin", "readability"], true⟩
        (.startingAt 1 0 "Replace `print(\"\")` with `print()`") "d.py" := by
  have read : ofArguments ⟨false, none⟩ ["--enable", "#readability", "--ignore", "105"] = .ok {
      ignore := [.code ⟨"FURB", 105⟩ none]
      enable := [.category "readability" none]
      color := false } := rfl
  refine ⟨_, read, List.mem_cons_self, ?_⟩
  exact (drops_iff_of_everywhere List.mem_cons_self rfl _ _ _ _).2 (.inl ⟨rfl, by decide⟩)

/-- A category that is ignored everywhere is reported all the same. -/
theorem Settings.reports_ignored_category :
    ∃ s, ofRun ⟨false, none⟩ (.single "d.py" "print(\"\")\n")
        ["d.py", "--ignore", "#readability"] = .ok s
      ∧ .category "readability" none ∈ s.ignore
      ∧ ¬ s.Drops (.single "d.py" "print(\"\")\n") ⟨⟨"FURB", 105⟩, ["builtin", "readability"], true⟩
        (.startingAt 1 0 "Replace `print(\"\")` with `print()`") "d.py" := by
  refine exists_ok_of_map (fun s => (s.ignore, decide (s.Drops (.single "d.py" "print(\"\")\n")
      ⟨⟨"FURB", 105⟩, ["builtin", "readability"], true⟩
      (.startingAt 1 0 "Replace `print(\"\")` with `print()`") "d.py")))
    ([.category "readability" none], false) (by decide +kernel) fun s _ known => ?_
  obtain ⟨ignore, reported⟩ := Prod.mk.inj known
  exact ⟨ignore ▸ List.mem_cons_self, of_decide_eq_false reported⟩

end IdiomLint
