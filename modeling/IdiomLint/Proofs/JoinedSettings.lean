import IdiomLint.Proofs.CommandLine
import IdiomLint.Settings.Load

/-! What always holds of the settings of a run, wherever they come from: nothing is enabled and
disabled at once, and colour is used exactly where the terminal, the configuration and the command
line all allow it. -/
namespace IdiomLint

namespace CommandOption

/-- Colour is switched off by an option if the option's name stands in option position. -/
theorem noColor_mem_iff {args : List String} {os : List CommandOption} (h : Reads args os) :
    noColor ∈ os ↔ ∃ rest, Occurs "--no-color" rest args := by
  induction h with
  | nil => simp [not_occurs_nil]
  | dashes rest => simp [not_occurs_dashes]
  | @flag arg o args os flag _ ih =>
    have same : noColor = o ↔ "--no-color" = arg := by
      unfold flag? at flag
      split at flag <;> cases flag <;> simp
    simp only [List.mem_cons, same, ih,
      occurs_cons (ne_dashes_of_flag? flag) (not_mem_withValue_of_flag? flag)]
    grind
  | @file arg args os notDashes noFlag noReader _ ih =>
    have other : "--no-color" ≠ arg := by
      rintro rfl
      cases noFlag
    simp [ih, occurs_cons notDashes (not_mem_withValue_of_reader? noReader), other]
  | @value arg value read o args os reader known _ ih =>
    have other : "--no-color" ≠ arg := by
      rintro rfl
      cases reader
    have unlike : noColor ≠ o := by
      unfold reader? at reader
      split at reader <;> cases reader
      case h_5 | h_6 | h_10 =>
        cases known
        nofun
      all_goals
        obtain ⟨_, _, rfl⟩ := map_eq_ok known
        nofun
    simp [ih, unlike, occurs_cons_value (mem_withValue_of_reader? reader), other]

end CommandOption

def Files.single (name text : String) : Files :=
  { cwd := ⟨.slash, ["w"]⟩, entries := [(["w", name], .file text)] }

theorem Terminal.allowsColor_iff (t : Terminal) :
    t.allowsColor = true ↔ t.isTerminal = true ∧ (t.noColor = none ∨ t.noColor = some "") := by
  cases h : t.noColor <;> simp [allowsColor, h]

namespace Settings

open CommandOption

variable {t : Terminal} {fs : Files} {args : List String} {s : Settings}

theorem apply_color (s : Settings) (o : CommandOption) :
    (s.apply o).color = true ↔ s.color = true ∧ o ≠ .noColor := by
  cases o <;> simp [apply]

theorem foldl_apply_color (os : List CommandOption) (s : Settings) :
    (os.foldl apply s).color = true ↔ s.color = true ∧ .noColor ∉ os := by
  induction os generalizing s with
  | nil => simp
  | cons o os ih =>
    rw [List.foldl_cons, ih, apply_color, List.mem_cons, not_or, and_assoc, ne_comm]

theorem ofArguments_color (h : ofArguments t args = .ok s) :
    s.color = true ↔ t.allowsColor = true ∧ ∀ rest, ¬ Occurs "--no-color" rest args := by
  rcases ofArguments_cases h with ⟨rfl, rfl⟩ | ⟨rfl, rfl⟩ | ⟨os, read, rfl⟩
  · simp [initial, not_occurs_nil]
  · have plain : "gen" ∉ withValue := by decide
    simp [initial, occurs_cons (by decide) plain, not_occurs_nil]
  · rw [foldl_apply_color, noColor_mem_iff (reads_of_all read), not_exists]
    rfl

def configPath (arguments : Settings) : Path :=
  Path.ofText (arguments.namedConfigFile.getD defaultConfigFile)

def ConfigText (t : Terminal) (fs : Files) (args : List String) (text : String) : Prop :=
  ∃ arguments, ofArguments t args = .ok arguments ∧ fs.read arguments.configPath = .ok text

/-- The table of the program in the text of a configuration. -/
def ConfigTable (text : String) (config : Toml.Table) : Prop :=
  ∃ document tool, Toml.parse text = .ok document
    ∧ document.lookup "tool" = some (.table tool) ∧ tool.lookup "refurb" = some (.table config)

def Sets (text name : String) (v : Toml.Value) : Prop :=
  ∃ config, ConfigTable text config ∧ config.lookup name = some v

theorem ConfigTable.unique {text : String} {config config' : Toml.Table}
    (h : ConfigTable text config) (h' : ConfigTable text config') : config = config' := by
  obtain ⟨document, tool, parsed, inDocument, inTool⟩ := h
  obtain ⟨document', tool', parsed', inDocument', inTool'⟩ := h'
  cases parsed.symm.trans parsed'
  cases inDocument.symm.trans inDocument'
  cases inTool.symm.trans inTool'
  rfl

theorem truthyMember?_table {table inner : Toml.Table} {name : String}
    (h : table.lookup name = some (.table inner)) (nonEmpty : inner ≠ []) :
    truthyMember? name table = some (.table inner) := by
  simp [truthyMember?, h, Toml.Value.isTruthy, nonEmpty]

theorem lookup_of_truthyMember? {table : Toml.Table} {name : String} {v : Toml.Value}
    (h : truthyMember? name table = some v) : table.lookup name = some v :=
  (Option.filter_eq_some_iff.1 h).1

/-- A configuration either has no members, and then leaves the settings as they start, or it has a
table from which they are read. -/
theorem ofConfigText_cases {text : String} (h : ofConfigText t text = .ok s) :
    (s = initial t ∧ ∀ config, ConfigTable text config → config = [])
      ∨ ∃ config, ConfigTable text config ∧ ofTable t config = .ok s := by
  unfold ofConfigText at h
  split at h
  case h_1 => cases h
  case h_2 document parsed =>
    unfold ofDocument at h
    split at h
    case h_1 noTool =>
      cases h
      refine .inl ⟨rfl, ?_⟩
      rintro config ⟨_, tool, parsed', inDocument, inTool⟩
      cases parsed.symm.trans parsed'
      have nonEmpty : tool ≠ [] := by
        rintro rfl
        cases inTool
      rw [truthyMember?_table inDocument nonEmpty] at noTool
      cases noTool
    case h_2 tool isTool =>
      have inDocument := lookup_of_truthyMember? isTool
      split at h
      case h_1 noConfig =>
        cases h
        refine .inl ⟨rfl, ?_⟩
        rintro config ⟨_, tool', parsed', inDocument', inTool⟩
        cases parsed.symm.trans parsed'
        cases inDocument.symm.trans inDocument'
        cases config with
        | nil => rfl
        | cons member others =>
          rw [truthyMember?_table inTool (List.cons_ne_nil member others)] at noConfig
          cases noConfig
      case h_2 config isConfig =>
        exact .inr ⟨config, ⟨document, tool, parsed, inDocument,
          lookup_of_truthyMember? isConfig⟩, h⟩
      case h_3 | h_4 => cases h
    case h_3 => cases h

theorem boolMember_true {config : Toml.Table} {name : String} {b : Bool}
    (h : boolMember config name true = .ok b) :
    b = true ↔ config.lookup name ≠ some (.bool false) := by
  unfold boolMember at h
  cases found : config.lookup name with
  | none =>
    rw [found] at h
    cases h
    simp
  | some v =>
    rw [found] at h
    cases v <;> cases h
    simp

theorem ofTable_color {config : Toml.Table} (h : ofTable t config = .ok s) :
    s.color = true ↔ config.lookup "color" ≠ some (.bool false) := by
  unfold ofTable at h
  obtain ⟨load, _, h⟩ := bind_eq_ok h
  obtain ⟨quiet, _, h⟩ := bind_eq_ok h
  obtain ⟨disableAll, _, h⟩ := bind_eq_ok h
  obtain ⟨enableAll, _, h⟩ := bind_eq_ok h
  obtain ⟨color, member, h⟩ := bind_eq_ok h
  -- what is read behind the colour does not change it
  repeat obtain ⟨_, _, h⟩ := bind_eq_ok h
  dsimp only at h
  split at h <;> cases h
  exact boolMember_true member

/-- Where the terminal allows colour, only a configuration that switches it off takes it away. -/
theorem ofConfigText_color {text : String} (h : ofConfigText t text = .ok s)
    (allowed : t.allowsColor = true) : s.color = true ↔ ¬ Sets text "color" (.bool false) := by
  rcases ofConfigText_cases h with ⟨rfl, empty⟩ | ⟨config, isConfig, h⟩
  · refine iff_of_true allowed ?_
    rintro ⟨config, isConfig, member⟩
    cases empty config isConfig
    cases member
  · rw [ofTable_color h]
    refine not_congr ⟨fun member => ⟨config, isConfig, member⟩, ?_⟩
    rintro ⟨config', isConfig', member⟩
    exact isConfig.unique isConfig' ▸ member

theorem fromFile_color {arguments : Settings} (h : fromFile t fs arguments = .ok s)
    (allowed : t.allowsColor = true) :
    s.color = true
      ↔ ∀ text, fs.read arguments.configPath = .ok text → ¬ Sets text "color" (.bool false) := by
  unfold fromFile at h
  dsimp only at h
  rw [← configPath] at h
  split at h
  case h_1 text read =>
    rw [ofConfigText_color h allowed]
    simp [read]
  case h_7 missing =>
    split at h <;> cases h
    simp [missing, initial, allowed]
  all_goals cases h

/-- What joining two settings makes of what they say about checks and colour. -/
structure Joined (t : Terminal) (old new s : Settings) : Prop where
  enable : s.enable = (mergeSelections old new).1
  disable : s.disable = (mergeSelections old new).2
  ignore : s.ignore = old.ignore.union new.ignore
  enableAll : s.enableAll = (old.enableAll || new.enableAll)
  disableAll : s.disableAll = (old.disableAll || new.disableAll)
  notBoth : ¬ (s.enableAll = true ∧ s.disableAll = true)
  color : s.color = (old.color && new.color && t.allowsColor)

theorem joined_of_merge {old new : Settings} (h : merge t old new = .ok s) :
    Joined t old new s := by
  unfold merge at h
  dsimp only at h
  split at h
  case isTrue => cases h
  case isFalse notBoth =>
    cases h
    exact ⟨rfl, rfl, rfl, rfl, rfl, by simpa using notBoth, rfl⟩

theorem joined_of_ofRun (h : ofRun t fs args = .ok s) :
    ∃ arguments config, ofArguments t args = .ok arguments ∧ fromFile t fs arguments = .ok config
      ∧ Joined t config arguments s := by
  obtain ⟨arguments, read, h⟩ := bind_eq_ok h
  obtain ⟨config, found, h⟩ := bind_eq_ok h
  exact ⟨arguments, config, read, found, joined_of_merge h⟩

/-- Each way of joining enables nothing that it disables. -/
theorem mergeSelections_disjoint (old new : Settings) :
    ∀ c ∈ (mergeSelections old new).1, c ∉ (mergeSelections old new).2 := by
  intro c
  unfold mergeSelections
  split
  · exact fun _ => List.not_mem_nil
  · split
    · exact nofun
    · exact fun enabled => (Selection.mem_diff.1 enabled).2

/-- The settings of a run never contradict themselves, and colour is on exactly where nothing is
against it. -/
theorem consistent_of_run (h : ofRun t fs args = .ok s) :
    (∀ c ∈ s.enable, c ∉ s.disable)
      ∧ ¬ (s.enableAll = true ∧ s.disableAll = true)
      ∧ (s.color = true ↔ t.isTerminal = true ∧ (t.noColor = none ∨ t.noColor = some "")
        ∧ (∀ text, ConfigText t fs args text → ¬ Sets text "color" (.bool false))
        ∧ ∀ rest, ¬ Occurs "--no-color" rest args) := by
  obtain ⟨arguments, config, read, found, joined⟩ := joined_of_ofRun h
  have sameText (text : String) :
      ConfigText t fs args text ↔ fs.read arguments.configPath = .ok text := by
    simp [ConfigText, read]
  refine ⟨?_, joined.notBoth, ?_⟩
  · rw [joined.enable, joined.disable]
    exact mergeSelections_disjoint config arguments
  -- the configuration may ask for colour where the terminal forbids it, but joining asks the
  -- terminal again
  rw [← and_assoc, ← t.allowsColor_iff, joined.color]
  simp only [Bool.and_eq_true, ofArguments_color read, sameText]
  constructor
  · rintro ⟨⟨configured, _, unasked⟩, allowed⟩
    exact ⟨allowed, (fromFile_color found allowed).1 configured, unasked⟩
  · rintro ⟨allowed, configured, unasked⟩
    exact ⟨⟨(fromFile_color found allowed).2 configured, allowed, unasked⟩, allowed⟩

/-- The value of an option switches nothing off, and an empty `NO_COLOR` neither. -/
theorem consistent_of_run_value :
    ∃ s, ofRun ⟨true, some ""⟩ (.single "pyproject.toml"
        "[tool.refurb]\nenable = [100, \"#readability\"]\ndisable = [100]\n")
        ["--load", "--no-color", "--enable", "101", "--disable", "#readability"] = .ok s
      ∧ s.color = true ∧ (∀ c ∈ s.enable, c ∉ s.disable)
      ∧ ∀ rest, ¬ Occurs "--no-color" rest
        ["--load", "--no-color", "--enable", "101", "--disable", "#readability"] := by
  refine exists_ok_of_map color true (by decide +kernel) fun s run colored => ?_
  obtain ⟨disjoint, _, allowed⟩ := consistent_of_run run
  exact ⟨colored, disjoint, (allowed.1 colored).2.2.2⟩

end Settings

end IdiomLint
