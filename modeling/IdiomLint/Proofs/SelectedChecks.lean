import IdiomLint.Proofs.JoinedSettings

/-! Which checks the settings of a run select, by what its command line says: enabling more never
takes a check away, disabling more never adds one, and an option about all checks loses some of the
exceptions that stand beside it. -/
namespace IdiomLint

namespace Selection

variable {a b d : Selection}

theorem meets_iff : a.meets b = true ↔ ∃ c ∈ a, c ∈ b := by
  simp [meets]

theorem meets_of_subset (h : a ⊆ b) (meets : a.meets d = true) : b.meets d = true := by
  obtain ⟨c, inA, inD⟩ := meets_iff.1 meets
  exact meets_iff.2 ⟨c, h inA, inD⟩

theorem meets_eq_false_of_subset (h : a ⊆ b) (apart : b.meets d = false) : a.meets d = false := by
  cases meets : a.meets d with
  | false => rfl
  | true =>
    rw [meets_of_subset h meets] at apart
    cases apart

end Selection

namespace Side

def listing : Side → Selection → CommandOption
  | enable => .enable
  | disable => .disable

theorem reader?_option (side : Side) :
    CommandOption.reader? side.option
      = some fun value => (CommandOption.selection value).map side.listing := by
  cases side <;> rfl

end Side

namespace Settings

open CommandOption Selection

variable {t : Terminal} {fs : Files} {args : List String} {s s' : Settings} {k : Kind}

theorem selects_iff (s : Settings) (k : Kind) :
    s.selects k = true ↔ k.classifier ∈ s.enable
      ∨ k.classifier ∉ s.disable ∧ k.classifier ∉ s.ignore
        ∧ (s.enable.meets k.categorySet = true
          ∨ s.disable.meets k.categorySet = false ∧ s.disableAll = false
            ∧ (k.enabled = true ∨ s.enableAll = true)) := by
  unfold selects
  grind

/-- Settings that allow at least as much: they enable more, disable and ignore less, and say the
same about all checks. -/
structure Widens (s s' : Settings) : Prop where
  enable : s.enable ⊆ s'.enable
  disable : s'.disable ⊆ s.disable
  ignore : s'.ignore ⊆ s.ignore
  enableAll : s'.enableAll = s.enableAll
  disableAll : s'.disableAll = s.disableAll

namespace Widens

theorem trans {s'' : Settings} (h : s.Widens s') (h' : s'.Widens s'') : s.Widens s'' where
  enable := List.Subset.trans h.enable h'.enable
  disable := List.Subset.trans h'.disable h.disable
  ignore := List.Subset.trans h'.ignore h.ignore
  enableAll := h'.enableAll.trans h.enableAll
  disableAll := h'.disableAll.trans h.disableAll

theorem selects (h : s.Widens s') (selected : s.selects k = true) : s'.selects k = true := by
  rw [selects_iff] at selected ⊢
  rcases selected with byCode | ⟨notDisabled, notIgnored, rest⟩
  · exact .inl (h.enable byCode)
  · refine .inr ⟨fun c => notDisabled (h.disable c), fun c => notIgnored (h.ignore c), ?_⟩
    rcases rest with byCategory | ⟨apart, notAll, byDefault⟩
    · exact .inl (meets_of_subset h.enable byCategory)
    · refine .inr ⟨meets_eq_false_of_subset h.disable apart, h.disableAll.trans notAll, ?_⟩
      rwa [h.enableAll]

theorem selects_eq (h : s.Widens s') (back : s'.Widens s) : s.selects k = s'.selects k :=
  Bool.eq_iff_iff.2 ⟨h.selects, back.selects⟩

/-- Which of the three ways of joining is taken depends only on what is said about all checks, and
each of them keeps the order. -/
theorem mergeSelections {new new' : Settings} (h : new.Widens new') (old : Settings) :
    (mergeSelections old new).1 ⊆ (mergeSelections old new').1
      ∧ (mergeSelections old new').2 ⊆ (mergeSelections old new).2 := by
  unfold Settings.mergeSelections
  rw [h.enableAll, h.disableAll]
  split
  · exact ⟨h.enable, List.Subset.refl _⟩
  · split
    · exact ⟨List.Subset.refl _, h.disable⟩
    · have disabled {c : Classifier} (listed : c ∈ old.disable.union new'.disable) :
          c ∈ old.disable.union new.disable :=
        mem_union.2 ((mem_union.1 listed).imp_right (@h.disable c))
      refine ⟨fun c listed => ?_, fun c => disabled⟩
      obtain ⟨enabled, kept⟩ := mem_diff.1 listed
      exact mem_diff.2 ⟨mem_union.2 ((mem_union.1 enabled).imp_right (@h.enable c)),
        fun listed => kept (disabled listed)⟩

theorem joined {old new new' : Settings} (h : new.Widens new') (joined : Joined t old new s)
    (joined' : Joined t old new' s') : s.Widens s' where
  enable := by
    rw [joined.enable, joined'.enable]
    exact (h.mergeSelections old).1
  disable := by
    rw [joined.disable, joined'.disable]
    exact (h.mergeSelections old).2
  ignore := by
    intro c
    rw [joined.ignore, joined'.ignore, mem_union, mem_union]
    exact Or.imp_right (@h.ignore c)
  enableAll := by rw [joined.enableAll, joined'.enableAll, h.enableAll]
  disableAll := by rw [joined.disableAll, joined'.disableAll, h.disableAll]

/-- Enabling more. -/
theorem enabling (s : Settings) (cs : Selection) : s.Widens (s.apply (.enable cs)) where
  enable _ enabled := mem_union.2 (.inl enabled)
  disable _ disabled := (mem_diff.1 disabled).1
  ignore _ ignored := ignored
  enableAll := rfl
  disableAll := rfl

/-- Disabling more, seen from the result. -/
theorem disabling (s : Settings) (cs : Selection) : (s.apply (.disable cs)).Widens s where
  enable _ enabled := (mem_diff.1 enabled).1
  disable _ disabled := mem_union.2 (.inl disabled)
  ignore _ ignored := ignored
  enableAll := rfl
  disableAll := rfl

end Widens

/-- Settings that say the same about checks and name the same configuration. -/
structure Agrees (s s' : Settings) : Prop where
  enable : s.enable = s'.enable
  disable : s.disable = s'.disable
  ignore : s.ignore = s'.ignore
  enableAll : s.enableAll = s'.enableAll
  disableAll : s.disableAll = s'.disableAll
  configFile : s.configFile = s'.configFile

namespace Agrees

theorem symm (h : s.Agrees s') : s'.Agrees s :=
  ⟨h.enable.symm, h.disable.symm, h.ignore.symm, h.enableAll.symm, h.disableAll.symm,
    h.configFile.symm⟩

theorem widens (h : s.Agrees s') : s.Widens s' where
  enable := h.enable ▸ List.Subset.refl _
  disable := h.disable ▸ List.Subset.refl _
  ignore := h.ignore ▸ List.Subset.refl _
  enableAll := h.enableAll.symm
  disableAll := h.disableAll.symm

end Agrees

/-- Arguments say about checks what their options say one after the other, also where they are
read as a command or as a call for help. -/
theorem agrees_of_ofArguments (h : ofArguments t args = .ok s) :
    ∃ os, all args = .ok os ∧ s.Agrees (os.foldl apply (initial t)) := by
  rcases ofArguments_cases h with ⟨rfl, rfl⟩ | ⟨rfl, rfl⟩ | ⟨os, read, rfl⟩
  · exact ⟨[], rfl, ⟨rfl, rfl, rfl, rfl, rfl, rfl⟩⟩
  · have named : operand "gen" = .ok (.file "gen") := by simp [operand]
    have read : all ["gen"] = .ok [.file "gen"] := by
      rw [all_operand (by decide) rfl rfl, named]
      rfl
    exact ⟨_, read, ⟨rfl, rfl, rfl, rfl, rfl, rfl⟩⟩
  · exact ⟨os, read, ⟨rfl, rfl, rfl, rfl, rfl, rfl⟩⟩

/-- An option that lists classifiers applies after the arguments it stands behind. -/
theorem agrees_append (side : Side) {value : String} (noDashes : ∀ rest, ¬ Occurs "--" rest args)
    (h : ofArguments t args = .ok s)
    (h' : ofArguments t (args ++ [side.option, value]) = .ok s') :
    ∃ base cs, s.Agrees base ∧ s'.Agrees (base.apply (side.listing cs)) := by
  obtain ⟨os, first, agrees⟩ := agrees_of_ofArguments h
  obtain ⟨os', both, agrees'⟩ := agrees_of_ofArguments h'
  rw [all_append first noDashes, all_value side.reader?_option] at both
  obtain ⟨more, last, rfl⟩ := map_eq_ok both
  obtain ⟨o, known, last⟩ := bind_eq_ok last
  obtain ⟨cs, _, rfl⟩ := map_eq_ok known
  cases last
  rw [List.foldl_append] at agrees'
  exact ⟨_, cs, agrees, agrees'⟩

/-- The same for whole runs: both command lines are joined to one configuration. -/
theorem joined_append (side : Side) {value : String} (noDashes : ∀ rest, ¬ Occurs "--" rest args)
    (h : ofRun t fs args = .ok s) (h' : ofRun t fs (args ++ [side.option, value]) = .ok s') :
    ∃ config arguments arguments' base cs, Joined t config arguments s
      ∧ Joined t config arguments' s' ∧ arguments.Agrees base
      ∧ arguments'.Agrees (base.apply (side.listing cs)) := by
  obtain ⟨arguments, config, parsed, found, joined⟩ := joined_of_ofRun h
  obtain ⟨arguments', config', parsed', found', joined'⟩ := joined_of_ofRun h'
  obtain ⟨base, cs, agrees, agrees'⟩ := agrees_append side noDashes parsed parsed'
  have named : arguments'.configFile = arguments.configFile := by
    rw [agrees'.configFile, agrees.configFile]
    cases side <;> rfl
  have same : fromFile t fs arguments' = fromFile t fs arguments := by
    unfold fromFile namedConfigFile
    rw [named]
  cases found.symm.trans (same.symm.trans found')
  exact ⟨config, arguments, arguments', base, cs, joined, joined', agrees, agrees'⟩

/-- Enabling more at the end of a command line selects all that was selected before, and disabling
more selects nothing new, whatever the configuration says. -/
theorem selects_mono_of_append (h : ofRun t fs args = .ok s)
    (noDashes : ∀ rest, ¬ Occurs "--" rest args) (value : String) :
    (∀ s', ofRun t fs (args ++ ["--enable", value]) = .ok s' →
        ∀ k, s.selects k = true → s'.selects k = true)
      ∧ ∀ s', ofRun t fs (args ++ ["--disable", value]) = .ok s' →
        ∀ k, s'.selects k = true → s.selects k = true := by
  constructor
  · intro s' h' k
    obtain ⟨_, _, _, base, cs, joined, joined', agrees, agrees'⟩ :=
      joined_append .enable noDashes h h'
    have wider := agrees.widens.trans ((Widens.enabling base cs).trans agrees'.symm.widens)
    exact (wider.joined joined joined').selects
  · intro s' h' k
    obtain ⟨_, _, _, base, cs, joined, joined', agrees, agrees'⟩ :=
      joined_append .disable noDashes h h'
    have wider := agrees'.widens.trans ((Widens.disabling base cs).trans agrees.symm.widens)
    exact (wider.joined joined' joined).selects

/-- The value of `--load` is no double dash, and the configuration that disables a check gives way
to an option behind it. -/
theorem selects_mono_of_append_load :
    ∃ s, ofRun ⟨true, none⟩ (.single "pyproject.toml"
        "[tool.refurb]\ndisable_all = true\nenable = [\"#pathlib\"]\n") ["--load", "--"] = .ok s
      ∧ s.selects ⟨⟨"FURB", 105⟩, ["readability"], true⟩ = false
      ∧ ∃ s', ofRun ⟨true, none⟩ (.single "pyproject.toml"
          "[tool.refurb]\ndisable_all = true\nenable = [\"#pathlib\"]\n")
          ["--load", "--", "--enable", "105"] = .ok s'
        ∧ s'.selects ⟨⟨"FURB", 105⟩, ["readability"], true⟩ = true
        ∧ ∀ k, s.selects k = true → s'.selects k = true := by
  have noDashes (rest : List String) : ¬ Occurs "--" rest ["--load", "--"] := by
    simp [occurs_cons_value (by decide : "--load" ∈ withValue), not_occurs_nil]
  refine exists_ok_of_map (·.selects ⟨⟨"FURB", 105⟩, ["readability"], true⟩) false
    (by decide +kernel) fun s run before => ⟨before, ?_⟩
  refine exists_ok_of_map (·.selects ⟨⟨"FURB", 105⟩, ["readability"], true⟩) true
    (by decide +kernel) fun s' run' after => ⟨after, ?_⟩
  exact (selects_mono_of_append run noDashes "105").1 s' run'

/-- One option never leaves a classifier both enabled and disabled. -/
theorem apply_disjoint (o : CommandOption) (h : ∀ c ∈ s.enable, c ∉ s.disable) :
    ∀ c ∈ (s.apply o).enable, c ∉ (s.apply o).disable := by
  intro c enabled
  cases o with
  | enable cs =>
    intro disabled
    obtain ⟨disabled, unlisted⟩ := mem_diff.1 disabled
    exact (mem_union.1 enabled).elim (fun old => h c old disabled) unlisted
  | disable cs =>
    obtain ⟨enabled, unlisted⟩ := mem_diff.1 enabled
    intro disabled
    exact (mem_union.1 disabled).elim (h c enabled) unlisted
  | disableAll => cases enabled
  | enableAll => exact List.not_mem_nil
  -- all other options leave both lists as they are
  | _ => exact h c enabled

theorem foldl_apply_disjoint (os : List CommandOption) (h : ∀ c ∈ s.enable, c ∉ s.disable) :
    ∀ c ∈ (os.foldl apply s).enable, c ∉ (os.foldl apply s).disable := by
  induction os generalizing s with
  | nil => exact h
  | cons o os ih => exact ih (apply_disjoint o h)

theorem ofArguments_disjoint (h : ofArguments t args = .ok s) : ∀ c ∈ s.enable, c ∉ s.disable := by
  obtain ⟨os, _, agrees⟩ := agrees_of_ofArguments h
  rw [agrees.enable, agrees.disable]
  exact foldl_apply_disjoint os (fun c enabled => by cases enabled)

/-- An exception beside an option about all checks that is lost when the settings are joined to
others. Next to `disable all` that is a disabled code in an enabled category; next to `enable all`
it is what is enabled, by its code or by a category, although something else is against it. -/
def LosesException (s : Settings) (k : Kind) : Prop :=
  s.disableAll = true ∧ k.classifier ∈ s.disable ∧ k.classifier ∉ s.ignore
      ∧ s.enable.meets k.categorySet = true
    ∨ s.enableAll = true
      ∧ (k.classifier ∈ s.enable
          ∧ (k.classifier ∈ s.ignore ∨ s.disable.meets k.categorySet = true)
        ∨ k.classifier ∉ s.disable ∧ k.classifier ∉ s.ignore
          ∧ s.enable.meets k.categorySet = true ∧ s.disable.meets k.categorySet = true)

instance (s : Settings) (k : Kind) : Decidable (s.LosesException k) := by
  unfold LosesException
  infer_instance

theorem exists_merge {old new : Settings}
    (h : ¬ ((old.enableAll || new.enableAll) = true ∧ (old.disableAll || new.disableAll) = true)) :
    ∃ m, merge t old new = .ok m := by
  unfold merge
  dsimp only
  rw [if_neg (by simpa using h)]
  exact ⟨_, rfl⟩

/-- Settings joined to those a run starts from. -/
theorem joined_initial {m : Settings} (joined : Joined t (initial t) s m) :
    m.enableAll = s.enableAll ∧ m.disableAll = s.disableAll ∧ ∀ c, c ∈ m.ignore ↔ c ∈ s.ignore := by
  simp [joined.enableAll, joined.disableAll, joined.ignore, initial]

/-- With `disable all`, what is disabled by itself is forgotten. -/
theorem selects_of_disableAll {m : Settings} (joined : Joined t (initial t) s m)
    (disabled : s.disableAll = true) (k : Kind) :
    m.selects k = true ↔ k.classifier ∈ s.enable
      ∨ k.classifier ∉ s.ignore ∧ s.enable.meets k.categorySet = true := by
  obtain ⟨_, disableAll, ignore⟩ := joined_initial joined
  have enable : m.enable = s.enable := by
    simp [joined.enable, mergeSelections, initial, disabled]
  have disable : m.disable = [] := by
    simp [joined.disable, mergeSelections, initial, disabled]
  simp [selects_iff, enable, disable, ignore, disableAll, disabled]

/-- With `enable all`, what is enabled by itself is forgotten. -/
theorem selects_of_enableAll {m : Settings} (joined : Joined t (initial t) s m)
    (enabled : s.enableAll = true) (notDisabled : s.disableAll = false) (k : Kind) :
    m.selects k = true ↔ k.classifier ∉ s.disable ∧ k.classifier ∉ s.ignore
      ∧ s.disable.meets k.categorySet = false := by
  obtain ⟨enableAll, disableAll, ignore⟩ := joined_initial joined
  have enable : m.enable = [] := by
    simp [joined.enable, mergeSelections, initial, enabled, notDisabled]
  have disable : m.disable = s.disable := by
    simp [joined.disable, mergeSelections, initial, enabled, notDisabled]
  simp [selects_iff, enable, disable, ignore, enableAll, enabled, disableAll, notDisabled, meets]

/-- With neither, nothing is forgotten. -/
theorem selects_of_neither {m : Settings} (joined : Joined t (initial t) s m)
    (disjoint : ∀ c ∈ s.enable, c ∉ s.disable) (notEnabled : s.enableAll = false)
    (notDisabled : s.disableAll = false) (k : Kind) : m.selects k = s.selects k := by
  obtain ⟨enableAll, disableAll, ignore⟩ := joined_initial joined
  have disable (c : Classifier) : c ∈ m.disable ↔ c ∈ s.disable := by
    simp [joined.disable, mergeSelections, initial, notEnabled, notDisabled]
  have enable (c : Classifier) : c ∈ m.enable ↔ c ∈ s.enable := by
    simpa [joined.enable, mergeSelections, initial, notEnabled, notDisabled] using disjoint c
  have wider : m.Widens s :=
    ⟨fun c => (enable c).1, fun c => (disable c).2, fun c => (ignore c).2, enableAll.symm,
      disableAll.symm⟩
  have narrower : s.Widens m :=
    ⟨fun c => (enable c).2, fun c => (disable c).1, fun c => (ignore c).1, enableAll, disableAll⟩
  exact wider.selects_eq narrower

/-- Without a configuration, a run selects what its arguments alone select, except where an option
about all checks loses an exception. -/
theorem selects_without_config_iff (h : ofArguments t args = .ok s)
    (notBoth : ¬ (s.enableAll = true ∧ s.disableAll = true)) (k : Kind) :
    ∃ m, merge t (initial t) s = .ok m ∧ (m.selects k = s.selects k ↔ ¬ s.LosesException k) := by
  have disjoint := ofArguments_disjoint h
  obtain ⟨m, merged⟩ : ∃ m, merge t (initial t) s = .ok m := exists_merge notBoth
  have joined := joined_of_merge merged
  refine ⟨m, merged, ?_⟩
  cases disabled : s.disableAll with
  | true =>
    have enabled : s.enableAll = false := by simpa [disabled] using notBoth
    rw [Bool.eq_iff_iff, selects_of_disableAll joined disabled, selects_iff]
    simp only [LosesException, disabled, enabled]
    grind
  | false =>
    cases enabled : s.enableAll with
    | true =>
      rw [Bool.eq_iff_iff, selects_of_enableAll joined enabled disabled, selects_iff]
      simp only [LosesException, disabled, enabled]
      grind
    | false =>
      have kept := selects_of_neither joined disjoint enabled disabled k
      simp [kept, LosesException, disabled, enabled]

/-- Another code of the category may be disabled next to `disable all`. -/
theorem selects_without_config_iff_otherCode :
    ∃ s, ofArguments ⟨false, none⟩
        ["--disable-all", "--enable", "#readability", "--disable", "FURB106"] = .ok s
      ∧ ¬ (s.enableAll = true ∧ s.disableAll = true)
      ∧ ∃ m, merge ⟨false, none⟩ (initial ⟨false, none⟩) s = .ok m
        ∧ m.selects ⟨⟨"FURB", 105⟩, ["builtin", "readability"], true⟩
          = s.selects ⟨⟨"FURB", 105⟩, ["builtin", "readability"], true⟩ := by
  have read : ofArguments ⟨false, none⟩
      ["--disable-all", "--enable", "#readability", "--disable", "FURB106"] = .ok {
        enable := [.category "readability" none]
        disable := [.code ⟨"FURB", 106⟩ none]
        disableAll := true
        color := false } := rfl
  refine ⟨_, read, by decide, ?_⟩
  obtain ⟨m, merged, same⟩ := selects_without_config_iff read (by decide)
    ⟨⟨"FURB", 105⟩, ["builtin", "readability"], true⟩
  exact ⟨m, merged, same.2 (by decide)⟩

/-- A code that is enabled again inside a disabled category is lost next to `enable all`. -/
theorem selects_without_config_loses_code :
    ∃ s m, ofArguments ⟨false, none⟩
        ["--enable-all", "--disable", "#readability", "--enable", "FURB105"] = .ok s
      ∧ ¬ (s.enableAll = true ∧ s.disableAll = true)
      ∧ merge ⟨false, none⟩ (initial ⟨false, none⟩) s = .ok m
      ∧ s.selects ⟨⟨"FURB", 105⟩, ["builtin", "readability"], true⟩ = true
      ∧ m.selects ⟨⟨"FURB", 105⟩, ["builtin", "readability"], true⟩ = false := by
  have read : ofArguments ⟨false, none⟩
      ["--enable-all", "--disable", "#readability", "--enable", "FURB105"] = .ok {
        enable := [.code ⟨"FURB", 105⟩ none]
        disable := [.category "readability" none]
        enableAll := true
        color := false } := rfl
  exact ⟨_, _, read, by decide, rfl, by decide, by decide⟩

end Settings

end IdiomLint
