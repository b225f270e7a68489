import IdiomLint.Settings.CommandLine

/-! What a command line leaves enabled and disabled: of the options about a classifier, the last
one decides. -/
namespace IdiomLint

theorem bind_eq_ok {ε α β : Type} {x : Except ε α} {f : α → Except ε β} {b : β}
    (h : x >>= f = .ok b) : ∃ a, x = .ok a ∧ f a = .ok b := by
  cases x with
  | error e => cases h
  | ok a => exact ⟨a, rfl, h⟩

theorem map_eq_ok {ε α β : Type} {x : Except ε α} {f : α → β} {b : β}
    (h : x.map f = .ok b) : ∃ a, x = .ok a ∧ f a = b := by
  cases x with
  | error e => cases h
  | ok a => exact ⟨a, rfl, Except.ok.inj h⟩

/-- A result that can be computed, up to a part of it that is known. -/
theorem exists_ok_of_map {ε α β : Type} {x : Except ε α} {P : α → Prop} (f : α → β) (b : β)
    (h : x.toOption.map f = some b) (known : ∀ a, x = .ok a → f a = b → P a) :
    ∃ a, x = .ok a ∧ P a := by
  cases x with
  | error e => cases h
  | ok a => exact ⟨a, rfl, known a rfl (Option.some.inj h)⟩

namespace CommandOption

def withValue : List String :=
  ["--explain", "--ignore", "--enable", "--disable", "--load", "--config-file",
    "--python-version", "--format", "--sort", "--timing-stats"]

/-- An argument among others where an option can stand, with all that is behind it: it is not the
value of an option, and no double dash comes before it. -/
inductive Occurs (option : String) (rest : List String) : List String → Prop where
  | here : Occurs option rest (option :: rest)
  | later {arg : String} {args : List String} : arg ≠ "--" → arg ∉ withValue →
      Occurs option rest args → Occurs option rest (arg :: args)
  | laterValue {arg : String} (value : String) {args : List String} : arg ∈ withValue →
      Occurs option rest args → Occurs option rest (arg :: value :: args)

/-- How arguments read as options, one rule for each way an argument is taken. -/
inductive Reads : List String → List CommandOption → Prop where
  | nil : Reads [] []
  | dashes (rest : List String) : Reads ("--" :: rest) [typeCheckerArgs rest]
  | flag {arg : String} {o : CommandOption} {args : List String} {os : List CommandOption} :
      flag? arg = some o → Reads args os → Reads (arg :: args) (o :: os)
  | file {arg : String} {args : List String} {os : List CommandOption} :
      arg ≠ "--" → flag? arg = none → reader? arg = none → Reads args os →
        Reads (arg :: args) (file arg :: os)
  | value {arg : String} (value : String) {read : String → Except SettingsError CommandOption}
      {o : CommandOption} {args : List String} {os : List CommandOption} :
      reader? arg = some read → read value = .ok o → Reads args os →
        Reads (arg :: value :: args) (o :: os)

theorem operand_eq_ok {arg : String} {o : CommandOption} (h : operand arg = .ok o) :
    o = file arg := by
  unfold operand at h
  split at h
  · cases h
  · split at h
    · cases h
    · exact (Except.ok.inj h).symm

theorem reads_of_all {args : List String} {os : List CommandOption} (h : all args = .ok os) :
    Reads args os := by
  fun_induction all args generalizing os with
  | case1 => cases h; exact .nil
  | case2 rest => cases h; exact .dashes rest
  | case3 arg _ o flag =>
    cases h
    exact .flag flag .nil
  | case4 => cases h
  | case5 arg noDashes noReader noFlag =>
    obtain ⟨o, operand, rfl⟩ := map_eq_ok h
    exact operand_eq_ok operand ▸ .file noDashes noFlag noReader .nil
  | case6 arg value rest _ o flag ih =>
    obtain ⟨os, later, rfl⟩ := map_eq_ok h
    exact .flag flag (ih later)
  | case7 arg value rest _ read reader _ ih =>
    obtain ⟨o, known, h⟩ := bind_eq_ok h
    obtain ⟨os, later, h⟩ := bind_eq_ok h
    cases h
    exact .value value reader known (ih later)
  | case8 arg value rest noDashes noReader noFlag ih =>
    obtain ⟨o, operand, h⟩ := bind_eq_ok h
    obtain ⟨os, later, h⟩ := bind_eq_ok h
    cases h
    exact operand_eq_ok operand ▸ .file noDashes noFlag noReader (ih later)

theorem flag?_of_mem_withValue {arg : String} (h : arg ∈ withValue) : flag? arg = none := by
  simp only [withValue, List.mem_cons, List.not_mem_nil, or_false] at h
  rcases h with rfl | rfl | rfl | rfl | rfl | rfl | rfl | rfl | rfl | rfl <;> rfl

theorem reader?_isSome_iff {arg : String} : (reader? arg).isSome ↔ arg ∈ withValue := by
  unfold reader?
  split <;> simp_all [withValue]

section Reading

variable {arg : String} {o : CommandOption} {read : String → Except SettingsError CommandOption}

theorem not_mem_withValue_of_flag? (h : flag? arg = some o) : arg ∉ withValue := by
  intro valued
  rw [flag?_of_mem_withValue valued] at h
  cases h

theorem ne_dashes_of_flag? (h : flag? arg = some o) : arg ≠ "--" := by
  rintro rfl
  cases h

theorem mem_withValue_of_reader? (h : reader? arg = some read) : arg ∈ withValue :=
  reader?_isSome_iff.1 (by simp [h])

theorem not_mem_withValue_of_reader? (h : reader? arg = none) : arg ∉ withValue := by
  simp [← reader?_isSome_iff, h]

theorem all_flag (h : flag? arg = some o) (args : List String) :
    all (arg :: args) = (all args).map (o :: ·) := by
  have notDashes := ne_dashes_of_flag? h
  cases args with
  | nil => simp [all, h, Except.map]
  | cons value rest => simp [all, h]

theorem all_value (h : reader? arg = some read) (value : String) (args : List String) :
    all (arg :: value :: args) = (do
      let o ← read value
      let os ← all args
      pure (o :: os)) := by
  have noFlag := flag?_of_mem_withValue (mem_withValue_of_reader? h)
  have notDashes : arg ≠ "--" := by
    rintro rfl
    cases h
  simp [all, noFlag, h]

theorem all_operand (notDashes : arg ≠ "--") (noFlag : flag? arg = none)
    (noReader : reader? arg = none) (args : List String) :
    all (arg :: args) = (do
      let o ← operand arg
      let os ← all args
      pure (o :: os)) := by
  cases args with
  | nil =>
    simp only [all, noFlag, noReader]
    cases operand arg <;> rfl
  | cons value rest => simp [all, noFlag, noReader]

/-- Arguments that can be read, with no double dash among the options, are read alike with others
behind them. -/
theorem all_append {args : List String} {os : List CommandOption} (h : all args = .ok os)
    (noDashes : ∀ rest, ¬ Occurs "--" rest args) (more : List String) :
    all (args ++ more) = (all more).map (os ++ ·) := by
  fun_induction all args generalizing os with
  | case1 =>
    cases h
    rw [List.nil_append]
    cases all more <;> rfl
  | case2 rest => exact absurd .here (noDashes rest)
  | case3 arg _ o flag =>
    cases h
    exact all_flag flag more
  | case4 => cases h
  | case5 arg notDashes noReader noFlag =>
    obtain ⟨o, known, rfl⟩ := map_eq_ok h
    rw [List.singleton_append, all_operand notDashes noFlag noReader, known]
    cases all more <;> rfl
  | case6 arg value rest notDashes o flag ih =>
    obtain ⟨os, later, rfl⟩ := map_eq_ok h
    have plain := not_mem_withValue_of_flag? flag
    have inner := ih later fun rest occurs => noDashes rest (.later notDashes plain occurs)
    rw [List.cons_append, all_flag flag, inner]
    cases all more <;> rfl
  | case7 arg value rest _ read reader _ ih =>
    obtain ⟨o, known, h⟩ := bind_eq_ok h
    obtain ⟨os, later, h⟩ := bind_eq_ok h
    cases h
    have valued := mem_withValue_of_reader? reader
    have inner := ih later fun rest occurs => noDashes rest (.laterValue value valued occurs)
    rw [List.cons_append, List.cons_append, all_value reader, known, inner]
    cases all more <;> rfl
  | case8 arg value rest notDashes noReader noFlag ih =>
    obtain ⟨o, known, h⟩ := bind_eq_ok h
    obtain ⟨os, later, h⟩ := bind_eq_ok h
    cases h
    have plain := not_mem_withValue_of_reader? noReader
    have inner := ih later fun rest occurs => noDashes rest (.later notDashes plain occurs)
    rw [List.cons_append, all_operand notDashes noFlag noReader, known, inner]
    cases all more <;> rfl

end Reading

section Occurs

variable {option arg value : String} {rest args : List String}

theorem not_occurs_nil : ¬ Occurs option rest [] := nofun

theorem not_occurs_dashes (h : option ≠ "--") : ¬ Occurs option rest ("--" :: args) := by
  intro occurs
  cases occurs with
  | here => exact h rfl
  | later notDashes => exact notDashes rfl
  | laterValue _ valued => exact absurd valued (by decide)

theorem occurs_cons (notDashes : arg ≠ "--") (h : arg ∉ withValue) :
    Occurs option rest (arg :: args) ↔ option = arg ∧ rest = args ∨ Occurs option rest args := by
  constructor
  · intro occurs
    cases occurs with
    | here => exact .inl ⟨rfl, rfl⟩
    | later _ _ inner => exact .inr inner
    | laterValue _ valued => exact absurd valued h
  · rintro (⟨rfl, rfl⟩ | inner)
    · exact .here
    · exact .later notDashes h inner

theorem occurs_cons_value (h : arg ∈ withValue) :
    Occurs option rest (arg :: value :: args)
      ↔ option = arg ∧ rest = value :: args ∨ Occurs option rest args := by
  constructor
  · intro occurs
    cases occurs with
    | here => exact .inl ⟨rfl, rfl⟩
    | later _ plain => exact absurd h plain
    | laterValue _ _ inner => exact .inr inner
  · rintro (⟨rfl, rfl⟩ | inner)
    · exact .here
    · exact .laterValue value h inner

end Occurs

/-- The classifiers that a value with commas lists. -/
def Lists (value : String) (c : Classifier) : Prop :=
  ∃ part ∈ Text.split ',' value, Classifier.ofText part = .ok c

theorem mem_mapM_ofText {parts : List String} {cs : List Classifier}
    (h : parts.mapM Classifier.ofText = .ok cs) (c : Classifier) :
    c ∈ cs ↔ ∃ part ∈ parts, Classifier.ofText part = .ok c := by
  induction parts generalizing cs with
  | nil => cases h; simp
  | cons part parts ih =>
    rw [List.mapM_cons] at h
    obtain ⟨d, first, h⟩ := bind_eq_ok h
    obtain ⟨ds, others, h⟩ := bind_eq_ok h
    cases h
    simp [ih others, first, eq_comm]

theorem mem_selection {value : String} {cs : Selection} (h : selection value = .ok cs)
    (c : Classifier) : c ∈ cs ↔ Lists value c := by
  obtain ⟨ds, parts, rfl⟩ := map_eq_ok h
  rw [Selection.mem_ofList, mem_mapM_ofText parts, Lists]

end CommandOption

/-- The settings of arguments are those of a call for help, those of a command, or what their
options make of the settings at the start. -/
theorem Settings.ofArguments_cases {t : Terminal} {args : List String} {s : Settings}
    (h : Settings.ofArguments t args = .ok s) :
    args = [] ∧ s = { initial t with help := true }
      ∨ args = ["gen"] ∧ s = { initial t with generate := true }
      ∨ ∃ os, CommandOption.all args = .ok os ∧ s = os.foldl apply (initial t) := by
  unfold ofArguments at h
  split at h
  · exact .inl ⟨rfl, (Except.ok.inj h).symm⟩
  · exact .inr (.inl ⟨rfl, (Except.ok.inj h).symm⟩)
  · obtain ⟨os, read, h⟩ := bind_eq_ok h
    dsimp only at h
    split at h
    · cases h
    · exact .inr (.inr ⟨os, read, (Except.ok.inj h).symm⟩)

/-- The two lists that options add classifiers to and take them from. -/
inductive Side where
  | enable | disable

namespace Side

open CommandOption

def other : Side → Side
  | enable => disable
  | disable => enable

def option : Side → String
  | enable => "--enable"
  | disable => "--disable"

/-- The option that puts everything on a side. -/
def wholeOption : Side → String
  | enable => "--enable-all"
  | disable => "--disable-all"

def of (s : Settings) : Side → Selection
  | enable => s.enable
  | disable => s.disable

/-- Whether some of the arguments put a classifier on a side, alone or with everything else. -/
def Takes (side : Side) (c : Classifier) (args : List String) : Prop :=
  (∃ value rest, Occurs side.option (value :: rest) args ∧ Lists value c)
    ∨ ∃ rest, Occurs side.wholeOption rest args

/-- Whether an option lists a classifier on a side and nothing behind it puts it on the other. -/
def Keeps (side : Side) (c : Classifier) (args : List String) : Prop :=
  ∃ value rest, Occurs side.option (value :: rest) args ∧ Lists value c
    ∧ ¬ side.other.Takes c rest

variable {side : Side} {c : Classifier} {arg value : String} {args : List String}

theorem option_mem_withValue (side : Side) : side.option ∈ withValue := by
  cases side <;> decide

theorem wholeOption_not_mem_withValue (side : Side) : side.wholeOption ∉ withValue := by
  cases side <;> decide

theorem takes_cons (notDashes : arg ≠ "--") (h : arg ∉ withValue) :
    side.Takes c (arg :: args) ↔ arg = side.wholeOption ∨ side.Takes c args := by
  have unlisted : side.option ≠ arg := fun same => h (same ▸ side.option_mem_withValue)
  simp only [Takes, occurs_cons notDashes h, unlisted, false_and, false_or]
  grind

theorem takes_cons_value (h : arg ∈ withValue) :
    side.Takes c (arg :: value :: args)
      ↔ arg = side.option ∧ Lists value c ∨ side.Takes c args := by
  have notWhole : side.wholeOption ≠ arg := fun same =>
    side.wholeOption_not_mem_withValue (same ▸ h)
  simp only [Takes, occurs_cons_value h, notWhole, false_and, false_or]
  grind

theorem keeps_cons (notDashes : arg ≠ "--") (h : arg ∉ withValue) :
    side.Keeps c (arg :: args) ↔ side.Keeps c args := by
  have unlisted : side.option ≠ arg := fun same => h (same ▸ side.option_mem_withValue)
  simp only [Keeps, occurs_cons notDashes h, unlisted, false_and, false_or]

theorem keeps_cons_value (h : arg ∈ withValue) :
    side.Keeps c (arg :: value :: args)
      ↔ arg = side.option ∧ Lists value c ∧ ¬ side.other.Takes c args ∨ side.Keeps c args := by
  constructor
  · rintro ⟨w, rest, occurs, listed, kept⟩
    rcases (occurs_cons_value h).1 occurs with ⟨rfl, same⟩ | inner
    · cases same
      exact .inl ⟨rfl, listed, kept⟩
    · exact .inr ⟨w, rest, inner, listed, kept⟩
  · rintro (⟨rfl, listed, kept⟩ | ⟨w, rest, inner, listed, kept⟩)
    · exact ⟨value, args, .here, listed, kept⟩
    · exact ⟨w, rest, .laterValue value h inner, listed, kept⟩

/-- A flag takes everything off a side if it puts everything on the other. -/
theorem mem_of_apply_flag {o : CommandOption} (h : flag? arg = some o) (s : Settings) :
    c ∈ side.of (s.apply o) ↔ c ∈ side.of s ∧ arg ≠ side.other.wholeOption := by
  unfold flag? at h
  split at h <;> cases h <;> cases side <;> simp [of, Settings.apply, other, wholeOption]

/-- An option with a value adds what it lists if it is the side's own, and takes it off if it is
the other's. -/
theorem mem_of_apply_value {read : String → Except SettingsError CommandOption}
    {o : CommandOption} (reader : reader? arg = some read) (h : read value = .ok o)
    (s : Settings) :
    c ∈ side.of (s.apply o)
      ↔ arg = side.option ∧ Lists value c
        ∨ c ∈ side.of s ∧ ¬ (arg = side.other.option ∧ Lists value c) := by
  unfold reader? at reader
  split at reader <;> cases reader
  -- only `--enable` and `--disable` change a side
  case h_3 | h_4 =>
    obtain ⟨cs, listed, rfl⟩ := map_eq_ok h
    cases side <;> simp [of, Settings.apply, other, option, mem_selection listed, or_comm]
  case h_1 | h_2 | h_7 | h_8 | h_9 =>
    obtain ⟨_, _, rfl⟩ := map_eq_ok h
    cases side <;> simp [of, Settings.apply, other, option]
  case h_5 | h_6 | h_10 =>
    cases h
    cases side <;> simp [of, Settings.apply, other, option]

/-- What a run over the arguments leaves on a side: what they keep there, and what was there before
unless they take it to the other side. -/
theorem mem_of_foldl_apply {os : List CommandOption} (h : Reads args os) (s : Settings) :
    c ∈ side.of (os.foldl Settings.apply s)
      ↔ side.Keeps c args ∨ c ∈ side.of s ∧ ¬ side.other.Takes c args := by
  induction h generalizing s with
  | nil => simp [Keeps, Takes, not_occurs_nil]
  | dashes rest =>
    have named (side : Side) : side.option ≠ "--" ∧ side.wholeOption ≠ "--" := by
      cases side <;> decide
    have kept : ¬ side.Keeps c ("--" :: rest) := by
      simp [Keeps, not_occurs_dashes (named side).1]
    have taken : ¬ side.other.Takes c ("--" :: rest) := by
      simp [Takes, not_occurs_dashes (named side.other).1, not_occurs_dashes (named side.other).2]
    cases side <;> simp [kept, taken, of, Settings.apply]
  | @flag arg o args os flag _ ih =>
    have notDashes := ne_dashes_of_flag? flag
    have plain := not_mem_withValue_of_flag? flag
    rw [List.foldl_cons, ih, mem_of_apply_flag flag, keeps_cons notDashes plain,
      takes_cons notDashes plain, not_or, and_assoc]
  | @file arg args os notDashes noFlag noReader _ ih =>
    have plain := not_mem_withValue_of_reader? noReader
    have single : arg ≠ side.other.wholeOption := by
      rintro rfl
      cases side <;> cases noFlag
    have unchanged : side.of (s.apply (.file arg)) = side.of s := by cases side <;> rfl
    simp only [List.foldl_cons, ih, unchanged, keeps_cons notDashes plain,
      takes_cons notDashes plain, single, false_or]
  | @value arg value read o args os reader known _ ih =>
    have valued := mem_withValue_of_reader? reader
    rw [List.foldl_cons, ih, mem_of_apply_value reader known, keeps_cons_value valued,
      takes_cons_value valued]
    grind

/-- What arguments leave on a side is what they keep there. -/
theorem mem_of_ofArguments {t : Terminal} {s : Settings} (h : Settings.ofArguments t args = .ok s)
    (side : Side) (c : Classifier) : c ∈ side.of s ↔ side.Keeps c args := by
  have nothing : ¬ side.Keeps c [] := by simp [Keeps, not_occurs_nil]
  rcases Settings.ofArguments_cases h with ⟨rfl, rfl⟩ | ⟨rfl, rfl⟩ | ⟨os, read, rfl⟩
  · cases side <;> simp [nothing, of, Settings.initial]
  · rw [keeps_cons (by decide) (by decide)]
    cases side <;> simp [nothing, of, Settings.initial]
  · rw [mem_of_foldl_apply (reads_of_all read)]
    cases side <;> simp [of, Settings.initial]

end Side

open CommandOption in
/-- Of the options about a classifier, the last one decides. -/
theorem Settings.last_option_decides {t : Terminal} {args : List String} {s : Settings}
    (h : Settings.ofArguments t args = .ok s) (c : Classifier) :
    (c ∈ s.enable ↔ ∃ value rest, Occurs "--enable" (value :: rest) args ∧ Lists value c
        ∧ ¬ Side.disable.Takes c rest)
      ∧ (c ∈ s.disable ↔ ∃ value rest, Occurs "--disable" (value :: rest) args ∧ Lists value c
        ∧ ¬ Side.enable.Takes c rest) :=
  ⟨Side.mem_of_ofArguments h .enable c, Side.mem_of_ofArguments h .disable c⟩

open CommandOption in
theorem Settings.last_option_decides_disable :
    ∃ s, Settings.ofArguments ⟨true, none⟩ ["--enable", "FURB100,101", "--disable", "100",
        "--load", "--enable-all"] = .ok s
      ∧ ∃ value rest, Occurs "--disable" (value :: rest) ["--enable", "FURB100,101", "--disable",
          "100", "--load", "--enable-all"]
        ∧ Lists value (.code ⟨"FURB", 100⟩ none)
        ∧ ¬ Side.enable.Takes (.code ⟨"FURB", 100⟩ none) rest := by
  have read : Settings.ofArguments ⟨true, none⟩ ["--enable", "FURB100,101", "--disable", "100",
      "--load", "--enable-all"] = .ok {
        load := [.string "--enable-all"]
        enable := [.code ⟨"FURB", 101⟩ none]
        disable := [.code ⟨"FURB", 100⟩ none] } := rfl
  exact ⟨_, read, (Settings.last_option_decides read _).2.1 List.mem_cons_self⟩

end IdiomLint
