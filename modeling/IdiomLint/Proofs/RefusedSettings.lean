import IdiomLint.Proofs.JoinedSettings
import IdiomLint.Session.Start

/-! Settings that are refused. The program reports what is wrong with a command line and with the
members of its table in a configuration, and ends with status one. It has no words for a
configuration that is nested too deeply or has something else where the table should be, nor for a
path that cannot be followed. -/
namespace IdiomLint

namespace Toml

mutual

/-- How many arrays and tables of a value stand inside each other. -/
def Value.depth : Value → Nat
  | .array items => itemDepth items + 1
  | .table members => memberDepth members + 1
  | _ => 0

def itemDepth : List Value → Nat
  | [] => 0
  | v :: vs => max v.depth (itemDepth vs)

def memberDepth : List (String × Value) → Nat
  | [] => 0
  | (_, v) :: ms => max v.depth (memberDepth ms)

end

@[simp] theorem Value.depth_array (items : List Value) :
    (Value.array items).depth = itemDepth items + 1 := rfl

@[simp] theorem Value.depth_table (members : Table) :
    (Value.table members).depth = memberDepth members + 1 := rfl

mutual

/-- A value for which there is room can be written, but for its numbers. -/
theorem Value.obstacle?_ne_tooDeep {room : Nat} (v : Value) (fits : v.depth ≤ room) :
    v.obstacle? room ≠ some .tooDeep := by
  cases v with
  | array items =>
    rw [Value.depth_array] at fits
    rw [Value.obstacle?, if_neg (by omega)]
    exact itemObstacle?_ne_tooDeep items (by omega)
  | table members =>
    rw [Value.depth_table] at fits
    rw [Value.obstacle?, if_neg (by omega)]
    exact memberObstacle?_ne_tooDeep members (by omega)
  | integer n =>
    rw [Value.obstacle?]
    split <;> simp
  | _ => simp [Value.obstacle?]

theorem itemObstacle?_ne_tooDeep {room : Nat} (items : List Value)
    (fits : itemDepth items ≤ room) : itemObstacle? room items ≠ some .tooDeep := by
  cases items with
  | nil => simp [itemObstacle?]
  | cons v vs =>
    rw [itemDepth, Nat.max_le] at fits
    rw [itemObstacle?, ne_eq, Option.or_eq_some_iff]
    rintro (first | ⟨-, later⟩)
    · exact v.obstacle?_ne_tooDeep fits.1 first
    · exact itemObstacle?_ne_tooDeep vs fits.2 later

theorem memberObstacle?_ne_tooDeep {room : Nat} (members : List (String × Value))
    (fits : memberDepth members ≤ room) : memberObstacle? room members ≠ some .tooDeep := by
  cases members with
  | nil => simp [memberObstacle?]
  | cons m ms =>
    obtain ⟨name, v⟩ := m
    rw [memberDepth, Nat.max_le] at fits
    rw [memberObstacle?, ne_eq, Option.or_eq_some_iff]
    rintro (first | ⟨-, later⟩)
    · exact v.obstacle?_ne_tooDeep fits.1 first
    · exact memberObstacle?_ne_tooDeep ms fits.2 later

end

theorem depth_le_itemDepth {v : Value} {items : List Value} (member : v ∈ items) :
    v.depth ≤ itemDepth items := by
  induction items with
  | nil => cases member
  | cons w ws ih =>
    rw [itemDepth]
    rcases List.mem_cons.1 member with rfl | later
    · exact Nat.le_max_left _ _
    · exact Nat.le_trans (ih later) (Nat.le_max_right _ _)

theorem depth_le_memberDepth {v : Value} {name : String} {members : Table}
    (found : members.lookup name = some v) : v.depth ≤ memberDepth members := by
  induction members with
  | nil => cases found
  | cons m ms ih =>
    obtain ⟨other, w⟩ := m
    rw [List.lookup_cons] at found
    rw [memberDepth]
    split at found
    · cases found
      exact Nat.le_max_left _ _
    · exact Nat.le_trans (ih found) (Nat.le_max_right _ _)

/-- The items of a list in a table are no deeper than the table. -/
theorem itemDepth_le_memberDepth {name : String} {items : List Value} {members : Table}
    (found : members.lookup name = some (.array items)) :
    itemDepth items ≤ memberDepth members := by
  have inside := depth_le_memberDepth found
  rw [Value.depth_array] at inside
  omega

end Toml

namespace Settings

/-- Settings are refused in a way that the program does not report. -/
def Escapes {α : Type} (x : Except SettingsError α) : Prop :=
  ∃ e, x = .error e ∧ e.isReported = false

section

variable {α β : Type} {x : Except SettingsError α}

@[simp] theorem not_escapes_ok (a : α) : ¬ Escapes (.ok a) := by simp [Escapes]

@[simp] theorem not_escapes_pure (a : α) : ¬ Escapes (pure a) := not_escapes_ok a

@[simp] theorem escapes_error (e : SettingsError) :
    Escapes (.error e : Except SettingsError α) ↔ e.isReported = false := by
  simp [Escapes]

@[simp] theorem escapes_map (f : α → β) : Escapes (x.map f) ↔ Escapes x := by
  cases x <;> simp [Except.map]

theorem escapes_bind (f : α → Except SettingsError β) :
    Escapes (x >>= f) ↔ Escapes x ∨ ∃ a, x = .ok a ∧ Escapes (f a) := by
  cases x <;> simp [bind, Except.bind]

/-- A computation all of whose steps are reported is reported. -/
theorem not_escapes_bind {f : α → Except SettingsError β} (first : ¬ Escapes x)
    (rest : ∀ a, x = .ok a → ¬ Escapes (f a)) : ¬ Escapes (x >>= f) := by
  rw [escapes_bind]
  rintro (h | ⟨a, ha, h⟩)
  · exact first h
  · exact rest a ha h

theorem not_escapes_mapM {f : α → Except SettingsError β} {as : List α}
    (each : ∀ a ∈ as, ¬ Escapes (f a)) : ¬ Escapes (as.mapM f) := by
  induction as with
  | nil => exact not_escapes_pure []
  | cons a as ih =>
    obtain ⟨first, others⟩ := List.forall_mem_cons.1 each
    rw [List.mapM_cons]
    exact not_escapes_bind first fun b _ =>
      not_escapes_bind (ih others) fun bs _ => not_escapes_pure _

end

theorem not_escapes_code (s : String) : ¬ Escapes (Code.ofText s) := by
  unfold Code.ofText
  split <;> simp [SettingsError.isReported]

theorem not_escapes_classifier (s : String) : ¬ Escapes (Classifier.ofText s) := by
  unfold Classifier.ofText
  split
  · simp
  · simpa using not_escapes_code s

theorem not_escapes_version (s : String) : ¬ Escapes (Version.ofText s) := by
  have part (s : String) : ¬ Escapes (Version.part s) := by
    unfold Version.part
    split <;> simp [SettingsError.isReported]
  unfold Version.ofText
  split
  · split
    · exact not_escapes_bind (part _) fun _ _ =>
        not_escapes_bind (part _) fun _ _ => not_escapes_pure _
    · simp [SettingsError.isReported]
  · simp [SettingsError.isReported]

theorem not_escapes_format (s : String) : ¬ Escapes (Format.ofText s) := by
  unfold Format.ofText
  split
  · simp
  · split <;> simp [SettingsError.isReported]

theorem not_escapes_sortKey (s : String) : ¬ Escapes (SortKey.ofText s) := by
  unfold SortKey.ofText
  split
  · simp
  · split <;> simp [SettingsError.isReported]

theorem not_escapes_selection (s : String) : ¬ Escapes (CommandOption.selection s) := by
  simpa [CommandOption.selection] using not_escapes_mapM fun part _ => not_escapes_classifier part

theorem not_escapes_reader {arg : String} {read : String → Except SettingsError CommandOption}
    (reader : CommandOption.reader? arg = some read) (value : String) : ¬ Escapes (read value) := by
  unfold CommandOption.reader? at reader
  split at reader <;> cases reader
  case h_1 => simpa using not_escapes_code value
  case h_2 | h_3 | h_4 => simpa using not_escapes_selection value
  case h_7 => simpa using not_escapes_version value
  case h_8 => simpa using not_escapes_format value
  case h_9 => simpa using not_escapes_sortKey value
  all_goals simp

theorem not_escapes_operand (arg : String) : ¬ Escapes (CommandOption.operand arg) := by
  unfold CommandOption.operand
  split
  · simp [SettingsError.isReported]
  · split <;> simp [SettingsError.isReported]

theorem not_escapes_all (args : List String) : ¬ Escapes (CommandOption.all args) := by
  fun_induction CommandOption.all args with
  | case1 => simp
  | case2 => simp
  | case3 => simp
  | case4 => simp [SettingsError.isReported]
  | case5 arg => simpa using not_escapes_operand arg
  | case6 arg value rest _ o _ ih => simpa using ih
  | case7 arg value rest _ read reader _ ih =>
    exact not_escapes_bind (not_escapes_reader reader value) fun _ _ =>
      not_escapes_bind ih fun _ _ => not_escapes_pure _
  | case8 arg value rest _ _ _ ih =>
    exact not_escapes_bind (not_escapes_operand arg) fun _ _ =>
      not_escapes_bind ih fun _ _ => not_escapes_pure _

theorem not_escapes_ofArguments (t : Terminal) (args : List String) :
    ¬ Escapes (ofArguments t args) := by
  unfold ofArguments
  split
  · simp
  · simp
  · refine not_escapes_bind (not_escapes_all _) fun os _ => ?_
    dsimp only
    split <;> simp [SettingsError.isReported]

section

variable {room : Nat}

theorem not_escapes_textOf {v : Toml.Value} (fits : v.depth ≤ room) :
    ¬ Escapes (textOf room v) := by
  have fine := v.obstacle?_ne_tooDeep fits
  unfold textOf Toml.Value.write
  cases obstacle : v.obstacle? room with
  | none => exact not_escapes_ok _
  | some refusal =>
    show ¬ Escapes (.error (.ofRefusal refusal) : Except SettingsError String)
    cases refusal with
    | malformed message => simp [SettingsError.ofRefusal, SettingsError.isReported]
    | badNumber e => simp [SettingsError.ofRefusal, SettingsError.isReported]
    | tooDeep => exact absurd obstacle fine

theorem not_escapes_selectionOf {vs : List Toml.Value} (fits : Toml.itemDepth vs ≤ room) :
    ¬ Escapes (selectionOf room vs) := by
  have each (v : Toml.Value) (member : v ∈ vs) :
      ¬ Escapes (do Classifier.ofText (← textOf room v)) :=
    not_escapes_bind (not_escapes_textOf (Nat.le_trans (Toml.depth_le_itemDepth member) fits))
      fun text _ => not_escapes_classifier text
  simpa [selectionOf] using not_escapes_mapM each

theorem not_escapes_amendment {v : Toml.Value} (fits : v.depth ≤ room) :
    ¬ Escapes (amendment room v) := by
  unfold amendment
  split
  case h_1 members =>
    split
    case h_1 path ignored _ isList =>
      have inside := Toml.itemDepth_le_memberDepth isList
      rw [Toml.Value.depth_table] at fits
      split
      · simp [SettingsError.isReported]
      · simpa using not_escapes_selectionOf (by omega)
    · simp [SettingsError.isReported]
  · simp [SettingsError.isReported]

end

theorem not_escapes_parsed {α : Type} {read : String → Except SettingsError α}
    (each : ∀ s, ¬ Escapes (read s)) (text : Option String) : ¬ Escapes (parsed? read text) := by
  cases text with
  | none => simp [parsed?]
  | some s => simpa [parsed?] using each s

section

variable (config : Toml.Table) (name : String)

theorem not_escapes_listMember : ¬ Escapes (listMember config name) := by
  unfold listMember
  split <;> simp [SettingsError.isReported]

theorem not_escapes_boolMember (missing : Bool) : ¬ Escapes (boolMember config name missing) := by
  unfold boolMember
  split <;> simp [SettingsError.isReported]

theorem not_escapes_textMember : ¬ Escapes (textMember? config name) := by
  unfold textMember?
  split <;> simp [SettingsError.isReported]

theorem not_escapes_amendments : ¬ Escapes (amendments config) := by
  unfold amendments
  split <;> simp [SettingsError.isReported]

end

theorem itemDepth_le_of_listMember {config : Toml.Table} {name : String} {items : List Toml.Value}
    (h : listMember config name = .ok items) : Toml.itemDepth items ≤ Toml.memberDepth config := by
  unfold listMember at h
  split at h
  case h_1 =>
    cases h
    exact Nat.zero_le _
  case h_2 _ found =>
    cases h
    exact Toml.itemDepth_le_memberDepth found
  case h_3 => cases h

theorem itemDepth_le_of_amendments {config : Toml.Table} {items : List Toml.Value}
    (h : amendments config = .ok items) : Toml.itemDepth items ≤ Toml.memberDepth config := by
  unfold amendments at h
  split at h
  case h_1 =>
    cases h
    exact Nat.zero_le _
  case h_2 _ found =>
    cases h
    exact Toml.itemDepth_le_memberDepth found
  case h_3 => cases h

/-- Whatever the members of the program's table are, a problem with them is reported, if there is
room for them. -/
theorem not_escapes_ofTable (t : Terminal) {config : Toml.Table} {room : Nat}
    (fits : Toml.memberDepth config ≤ room) : ¬ Escapes (ofTable t config room) := by
  have list (name : String) := not_escapes_listMember config name
  have bool (name : String) (missing : Bool) := not_escapes_boolMember config name missing
  have text (name : String) := not_escapes_textMember config name
  have selection {name : String} {vs : List Toml.Value} (read : listMember config name = .ok vs) :
      ¬ Escapes (selectionOf room vs) :=
    not_escapes_selectionOf (Nat.le_trans (itemDepth_le_of_listMember read) fits)
  have texts {name : String} {vs : List Toml.Value} (read : listMember config name = .ok vs) :
      ¬ Escapes (vs.mapM (textOf room)) :=
    not_escapes_mapM fun v member => not_escapes_textOf
      (Nat.le_trans (Nat.le_trans (Toml.depth_le_itemDepth member)
        (itemDepth_le_of_listMember read)) fits)
  have amends {vs : List Toml.Value} (read : amendments config = .ok vs) :
      ¬ Escapes (vs.mapM (amendment room)) :=
    not_escapes_mapM fun v member => not_escapes_amendment
      (Nat.le_trans (Nat.le_trans (Toml.depth_le_itemDepth member)
        (itemDepth_le_of_amendments read)) fits)
  unfold ofTable
  refine not_escapes_bind (list _) fun _ _ => not_escapes_bind (bool _ _) fun _ _ =>
    not_escapes_bind (bool _ _) fun _ _ => not_escapes_bind (bool _ _) fun _ _ =>
    not_escapes_bind (bool _ _) fun _ _ => not_escapes_bind (list _) fun _ enable =>
    not_escapes_bind (list _) fun _ disable => not_escapes_bind (selection enable) fun _ _ =>
    not_escapes_bind (selection disable) fun _ _ => not_escapes_bind (list _) fun _ ignore =>
    not_escapes_bind (selection ignore) fun _ _ => not_escapes_bind (list _) fun _ arguments =>
    not_escapes_bind (texts arguments) fun _ _ => not_escapes_bind (text _) fun _ _ =>
    not_escapes_bind (not_escapes_parsed not_escapes_version _) fun _ _ =>
    not_escapes_bind (text _) fun _ _ =>
    not_escapes_bind (not_escapes_parsed not_escapes_format _) fun _ _ =>
    not_escapes_bind (text _) fun _ _ =>
    not_escapes_bind (not_escapes_parsed not_escapes_sortKey _) fun _ _ =>
    not_escapes_bind (not_escapes_amendments config) fun _ amended =>
    not_escapes_bind (amends amended) fun _ _ => ?_
  dsimp only
  split <;> simp [SettingsError.isReported]

/-- A document says something, but with no table, where the program looks for its table or for the
table around it. -/
inductive Misplaced (document : Toml.Table) : Prop where
  | outer {v : Toml.Value} : document.lookup "tool" = some v → v.isTruthy = true →
      (∀ members, v ≠ .table members) → Misplaced document
  | inner {tool : Toml.Table} {v : Toml.Value} : document.lookup "tool" = some (.table tool) →
      tool.lookup "refurb" = some v → v.isTruthy = true → (∀ members, v ≠ .table members) →
      Misplaced document

theorem truthyMember?_eq_some {table : Toml.Table} {name : String} {v : Toml.Value} :
    truthyMember? name table = some v ↔ table.lookup name = some v ∧ v.isTruthy = true :=
  Option.filter_eq_some_iff

theorem escapes_ofDocument (t : Terminal) {document : Toml.Table} {room : Nat}
    (fits : (Toml.Value.table document).depth ≤ room) :
    Escapes (ofDocument t document room) ↔ Misplaced document := by
  constructor
  · intro h
    unfold ofDocument at h
    split at h
    case h_1 => simp at h
    case h_2 tool isTool =>
      have inDocument := (truthyMember?_eq_some.1 isTool).1
      split at h
      case h_1 => simp at h
      case h_2 config isConfig =>
        have outer := Toml.depth_le_memberDepth inDocument
        have inner := Toml.depth_le_memberDepth (truthyMember?_eq_some.1 isConfig).1
        rw [Toml.Value.depth_table] at fits outer inner
        exact absurd h (not_escapes_ofTable t (by omega))
      case h_3 items isList =>
        obtain ⟨inTool, truthy⟩ := truthyMember?_eq_some.1 isList
        exact .inner inDocument inTool truthy nofun
      case h_4 v noTable _ isValue =>
        obtain ⟨inTool, truthy⟩ := truthyMember?_eq_some.1 isValue
        exact .inner inDocument inTool truthy noTable
    case h_3 v noTable isValue =>
      obtain ⟨inDocument, truthy⟩ := truthyMember?_eq_some.1 isValue
      exact .outer inDocument truthy noTable
  · rintro (⟨found, truthy, noTable⟩ | ⟨outer, found, truthy, noTable⟩)
    · unfold ofDocument
      rw [truthyMember?_eq_some.2 ⟨found, truthy⟩]
      split <;> simp_all [SettingsError.isReported]
    · unfold ofDocument
      rw [truthyMember?_table outer (by rintro rfl; cases found)]
      dsimp only
      rw [truthyMember?_eq_some.2 ⟨found, truthy⟩]
      split <;> simp_all [SettingsError.isReported]

/-- There is room to write every value of the document that a text holds. Only keys of very many
parts make a document that is deeper than its text is nested. -/
def FitsIn (room : Nat) (text : String) : Prop :=
  ∀ document, Toml.parse text room = .ok document → (Toml.Value.table document).depth ≤ room

theorem escapes_ofConfigText (t : Terminal) {text : String} {room : Nat} (fits : FitsIn room text) :
    Escapes (ofConfigText t text room) ↔ Toml.parse text room = .error .tooDeep
      ∨ ∃ document, Toml.parse text room = .ok document ∧ Misplaced document := by
  unfold ofConfigText
  cases parsed : Toml.parse text room with
  | error refusal => cases refusal <;> simp [SettingsError.ofRefusal, SettingsError.isReported]
  | ok document => simp [escapes_ofDocument t (fits document parsed)]

/-- What the program does not foresee: the path of the configuration goes through a file, is longer
than a path can be or leads to what may not be read, the text of the configuration is nested too
deeply, or something is misplaced in the document. -/
inductive Unforeseen (room : Nat) (fs : Files) (arguments : Settings) : Prop where
  | throughFile : fs.read arguments.configPath = .error .throughFile → Unforeseen room fs arguments
  | tooLong : fs.read arguments.configPath = .error .tooLong → Unforeseen room fs arguments
  | denied : fs.read arguments.configPath = .error .denied → Unforeseen room fs arguments
  | tooDeep {text : String} : fs.read arguments.configPath = .ok text →
      Toml.parse text room = .error .tooDeep → Unforeseen room fs arguments
  | misplaced {text : String} {document : Toml.Table} : fs.read arguments.configPath = .ok text →
      Toml.parse text room = .ok document → Misplaced document → Unforeseen room fs arguments

theorem escapes_fromFile (t : Terminal) {fs : Files} {arguments : Settings} {room : Nat}
    (fits : ∀ text, fs.read arguments.configPath = .ok text → FitsIn room text) :
    Escapes (fromFile t fs arguments room) ↔ Unforeseen room fs arguments := by
  unfold fromFile
  dsimp only
  rw [← configPath]
  constructor
  · intro h
    split at h
    case h_1 text read =>
      rcases (escapes_ofConfigText t (fits text read)).1 h with deep | ⟨document, parsed, misplaced⟩
      · exact .tooDeep read deep
      · exact .misplaced read parsed misplaced
    case h_3 read => exact .throughFile read
    case h_5 read => exact .tooLong read
    case h_6 read => exact .denied read
    case h_7 => split at h <;> simp [SettingsError.isReported] at h
    all_goals simp [SettingsError.isReported] at h
  · rintro (read | read | read | ⟨read, deep⟩ | ⟨read, parsed, misplaced⟩)
    · simp [read, SettingsError.isReported]
    · simp [read, SettingsError.isReported]
    · simp [read, SettingsError.isReported]
    · rw [read]
      exact (escapes_ofConfigText t (fits _ read)).2 (.inl deep)
    · rw [read]
      exact (escapes_ofConfigText t (fits _ read)).2 (.inr ⟨_, parsed, misplaced⟩)

theorem not_escapes_merge (t : Terminal) (old new : Settings) : ¬ Escapes (merge t old new) := by
  unfold merge
  dsimp only
  split <;> simp [SettingsError.isReported]

theorem escapes_ofRun {t : Terminal} {fs : Files} {args : List String} {room : Nat}
    (fits : ∀ text, ConfigText t fs args text → FitsIn room text) :
    Escapes (ofRun t fs args room) ↔
      ∃ arguments, ofArguments t args = .ok arguments ∧ Unforeseen room fs arguments := by
  have joined {arguments : Settings} (read : ofArguments t args = .ok arguments) :
      Escapes (do merge t (← fromFile t fs arguments room) arguments)
        ↔ Unforeseen room fs arguments := by
    rw [escapes_bind, escapes_fromFile t fun text found => fits text ⟨arguments, read, found⟩]
    simp [not_escapes_merge]
  unfold ofRun
  rw [escapes_bind, or_iff_right (not_escapes_ofArguments t args)]
  exact exists_congr fun arguments => and_congr_right joined

end Settings

open Settings

theorem Run.run_get_bind {α : Type} (f : Session → Run α) (st : Session) :
    (get >>= f : Run α).run.run st = (f st).run.run st := rfl

/-- A run whose settings are refused: a reported problem is printed on a line of its own and gives
status one, any other ends the run. -/
theorem Run.start_of_refused {t : Terminal} {args : List String} {st : Session} {room : Nat}
    {e : SettingsError} (refused : ofRun t st.files args room = .error e) (result : TypeCheck) :
    (Run.start t result args room).run.run st =
      if e.isReported then (.ok 1, { st with printed := st.printed ++ e.message ++ "\n" })
      else (.error (.settings e), st) := by
  rw [Run.start, Run.run_get_bind, refused]
  dsimp only
  cases e.isReported <;> rfl

theorem Run.start_of_unreported {t : Terminal} {args : List String} {st : Session} {room : Nat}
    {e : SettingsError} (refused : ofRun t st.files args room = .error e)
    (hidden : e.isReported = false) (result : TypeCheck) :
    (Run.start t result args room).run.run st = (.error (.settings e), st) := by
  rw [Run.start_of_refused refused, hidden]
  rfl

/-- Settings are refused without a report exactly if the command line can be read and the
configuration that it leads to is one of those that are not foreseen. Every other problem is printed
and gives status one. -/
theorem refused_settings_reported (t : Terminal) (result : TypeCheck) {args : List String}
    {st : Session} {room : Nat}
    (fits : ∀ text, ConfigText t st.files args text → FitsIn room text) :
    ((∃ e, ofRun t st.files args room = .error e ∧ e.isReported = false) ↔
        ∃ arguments, ofArguments t args = .ok arguments ∧ Unforeseen room st.files arguments) ∧
      ∀ e, ofRun t st.files args room = .error e → (Run.start t result args room).run.run st =
        if e.isReported then (.ok 1, { st with printed := st.printed ++ e.message ++ "\n" })
        else (.error (.settings e), st) :=
  ⟨escapes_ofRun fits, fun _ refused => Run.start_of_refused refused result⟩

def refusedFor {α : Type} (e : SettingsError) : Except SettingsError α → Bool
  | .error e' => e' = e
  | .ok _ => false

theorem eq_error_of_refusedFor {α : Type} {e : SettingsError} {x : Except SettingsError α}
    (h : refusedFor e x = true) : x = .error e := by
  cases x with
  | error e' => simpa [refusedFor] using h
  | ok a => cases h

/-- A member of the wrong kind, in the program's table. -/
theorem refused_settings_reported_color :
    let st : Session := { files := .single "pyproject.toml" "[tool.refurb]\ncolor = 1\n" }
    let e := SettingsError.wrongType "color" "bool"
    (∀ text, ConfigText ⟨false, none⟩ st.files ["m.py"] text → FitsIn Toml.standardRoom text) ∧
      ofRun ⟨false, none⟩ st.files ["m.py"] = .error e ∧
      (Run.start ⟨false, none⟩ (.rejects []) ["m.py"]).run.run st =
        (.ok 1, { st with printed := "refurb: \"color\" must be a bool\n" }) := by
  intro st e
  have refused : ofRun ⟨false, none⟩ st.files ["m.py"] = .error e :=
    eq_error_of_refusedFor (by decide +kernel)
  have read : (ofArguments ⟨false, none⟩ ["m.py"]).toOption.map
      (fun arguments => (st.files.read arguments.configPath).toOption)
        = some (some "[tool.refurb]\ncolor = 1\n") := by decide +kernel
  have shallow : (Toml.parse "[tool.refurb]\ncolor = 1\n").toOption.map
      (fun document => (Toml.Value.table document).depth) = some 3 := by decide +kernel
  have fits : ∀ text, ConfigText ⟨false, none⟩ st.files ["m.py"] text →
      FitsIn Toml.standardRoom text := by
    rintro text ⟨arguments, given, found⟩ document parsed
    obtain rfl : text = "[tool.refurb]\ncolor = 1\n" := by
      simpa [given, found, Except.toOption] using read
    have depth : (Toml.Value.table document).depth = 3 := by
      simpa only [parsed, Except.toOption, Option.map_some, Option.some.injEq] using shallow
    rw [depth]
    decide
  obtain ⟨-, printed⟩ := refused_settings_reported ⟨false, none⟩ (.rejects []) fits
  exact ⟨fits, refused, printed e refused⟩

/-- A number in place of the table around the program's, a path through the configuration itself,
and three lists inside each other where there is room for two: the run ends and prints nothing. -/
theorem number_for_table_unreported :
    let st : Session := { files := .single "pyproject.toml" "tool = 1\n" }
    let nested : Session := { files := .single "pyproject.toml" "a = [[[]]]\n" }
    let inside := ["m.py", "--config-file", "pyproject.toml/x"]
    (Run.start ⟨false, none⟩ (.rejects []) ["m.py"]).run.run st =
        (.error (.settings .noTable), st) ∧
      (Run.start ⟨false, none⟩ (.rejects []) inside).run.run st =
        (.error (.settings .throughFile), st) ∧
      (Run.start ⟨false, none⟩ (.rejects []) ["m.py"] 4).run.run nested =
        (.error (.settings .tooDeep), nested) := by
  intro st nested inside
  have noTable : ofRun ⟨false, none⟩ st.files ["m.py"] = .error .noTable :=
    eq_error_of_refusedFor (by decide +kernel)
  have throughFile : ofRun ⟨false, none⟩ st.files inside = .error .throughFile :=
    eq_error_of_refusedFor (by decide +kernel)
  have tooDeep : ofRun ⟨false, none⟩ nested.files ["m.py"] 4 = .error .tooDeep :=
    eq_error_of_refusedFor (by decide +kernel)
  exact ⟨Run.start_of_unreported noTable rfl _, Run.start_of_unreported throughFile rfl _,
    Run.start_of_unreported tooDeep rfl _⟩

end IdiomLint
