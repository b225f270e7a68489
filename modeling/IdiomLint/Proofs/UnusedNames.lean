import IdiomLint.Proofs.NameOccurrences

/-! Loops that bind two names, the key and the value of a mapping or the place and the item of a
sequence. A name is reported as unused exactly if it does not occur in what is evaluated for each
item. What a loop runs after the last item is not looked at, so a name that is used only there is
reported too; nor is what the loop goes through, which is evaluated before the name is bound. -/
namespace IdiomLint.Rules.Loops

open Finding Node

/-- The parts of a loop or of a comprehension with one clause. -/
structure Parts where
  target : Node
  source : Node
  /-- What is evaluated for each item. -/
  perItem : List Node
  /-- What is run after the last item. -/
  afterwards : List Node

def parts? : Node → Option Parts
  | ⟨_, .forLoop index source body orElse _⟩ => some ⟨index, source, [body], orElse.toList⟩
  | ⟨_, .generator element [⟨index, source, conditions, _⟩]⟩ =>
    some ⟨index, source, element :: conditions, []⟩
  | ⟨_, .dictComp key value [⟨index, source, conditions, _⟩]⟩ =>
    some ⟨index, source, key :: value :: conditions, []⟩
  | _ => none

/-- What a loop goes through: the items of a mapping, or those of a sequence with their places. -/
inductive PairSource where
  | items (dict : Node)
  | enumerated (sequence : Node)

namespace PairSource

inductive Gives (env : Env) : PairSource → Node → Prop
  | items {i j : Info} {dict : Node} {ref : Ref} {analyzed : Option Node} (named : ref.name = "items")
    (mapping : env.isMapping dict = .ok true) :
    Gives env (.items dict) ⟨i, .call ⟨j, .member dict ref⟩ [] analyzed⟩
  | enumerated {i : Info} {callee sequence : Node} {kind : ArgKind} {name : Option String}
    {analyzed : Option Node} (named : callee.isNameOf "builtins.enumerate")
    (inherits : env.inherits sequence "typing.Sequence" = .ok true) :
    Gives env (.enumerated sequence) ⟨i, .call callee [⟨sequence, kind, name⟩] analyzed⟩

/-- What is said if the first of the names is unused, given the second. -/
def firstUnused : PairSource → Node → String
  | .items dict, value =>
    "Key is unused, use `for " ++ value.sourceText ++ " in " ++ dict.sourceText ++ ".values()` instead"
  | .enumerated sequence, item =>
    "Index is unused, use `for " ++ item.sourceText ++ " in " ++ sequence.sourceText ++ "` instead"

/-- What is said if the second of the names is unused, given the first. -/
def secondUnused : PairSource → Node → String
  | .items dict, key =>
    "Value is unused, use `for " ++ key.sourceText ++ " in " ++ dict.sourceText ++ "` instead"
  | .enumerated sequence, place =>
    "Value is unused, use `for " ++ place.sourceText ++ " in range(len(" ++ sequence.sourceText
      ++ "))` instead"

/-- The finding says that a name of the target is unused. -/
inductive SaysUnused (s : PairSource) : Node → Ref → Finding → Prop
  | first {i j k : Info} {a b : Ref} {binding binding' : Option Binding} :
    SaysUnused s ⟨i, .tuple [⟨j, .name a binding⟩, ⟨k, .name b binding'⟩]⟩ a
      (ofNode ⟨j, .name a binding⟩ (s.firstUnused ⟨k, .name b binding'⟩))
  | second {i j k : Info} {a b : Ref} {binding binding' : Option Binding} :
    SaysUnused s ⟨i, .tuple [⟨j, .name a binding⟩, ⟨k, .name b binding'⟩]⟩ b
      (ofNode ⟨k, .name b binding'⟩ (s.secondUnused ⟨j, .name a binding⟩))

def check : PairSource → Env → Node → Except Fault (List Finding)
  | .items _ => dictItems
  | .enumerated _ => enumeration

end PairSource

variable {env : Env} {n : Node} {f : Finding} {p : Parts} {s : PairSource}

theorem held_perm (h : parts? n = some p) :
    n.held.Perm (p.target :: p.source :: p.perItem ++ p.afterwards) := by
  unfold parts? at h
  split at h
  case h_1 =>
    cases h
    exact .refl _
  case h_2 i element index source conditions isAsync =>
    cases h
    simp only [held, Node.shape, List.flatMap_cons, List.flatMap_nil, List.append_nil]
    exact List.perm_append_comm_assoc [element] [index, source] conditions
  case h_3 i key value index source conditions isAsync =>
    cases h
    simp only [held, Node.shape, List.flatMap_cons, List.flatMap_nil, List.append_nil]
    exact List.perm_append_comm_assoc [key, value] [index, source] conditions
  case h_4 => cases h

/-- A name occurs in a loop as often as in its parts. -/
theorem occurrences_of_parts? (h : parts? n = some p) (x : String) :
    n.occurrences x = p.target.occurrences x + p.source.occurrences x + occurrencesIn x p.perItem
      + occurrencesIn x p.afterwards := by
  have other : n.isNameOf x = false := by
    unfold parts? at h
    split at h
    case h_4 => cases h
    all_goals rfl
  rw [occurrences_of_not_isNameOf other, occurrencesIn_perm (held_perm h)]
  simp only [List.cons_append, occurrencesIn_cons, occurrencesIn_append]
  omega

/-- The rules look at the parts of a loop, except what is run after the last item. -/
theorem loopLike?_eq (n : Node) :
    loopLike? n = (parts? n).map fun p => ⟨p.target, p.source, p.perItem⟩ := by
  obtain ⟨i, shape⟩ := n
  cases shape
  case generator element clauses =>
    cases clauses with
    | nil => rfl
    | cons c rest => cases rest <;> rfl
  case dictComp key value clauses =>
    cases clauses with
    | nil => rfl
    | cons c rest => cases rest <;> rfl
  all_goals rfl

section

variable {i j k : Info} {a b : Ref} {binding binding' : Option Binding}

/-- Both names are asked about in the same parts. -/
theorem mem_unusedNames_iff {contexts : List Node} {firstMessage secondMessage : String}
    {fs : List Finding} (h : unusedNames ⟨j, .name a binding⟩ ⟨k, .name b binding'⟩ contexts
      firstMessage secondMessage = .ok fs) :
    f ∈ fs ↔
      (f = ofNode ⟨j, .name a binding⟩ firstMessage ∧
        ∀ c ∈ contexts, Succeeds (c.entries .full) ∧ c.occurrences a.fullname = 0) ∨
      (f = ofNode ⟨k, .name b binding'⟩ secondMessage ∧
        ∀ c ∈ contexts, Succeeds (c.entries .full) ∧ c.occurrences b.fullname = 0) := by
  obtain ⟨firstUnused, first, h⟩ := bind_eq_ok h
  obtain ⟨secondUnused, second, h⟩ := bind_eq_ok h
  cases h
  have first : unusedIn a.fullname contexts = .ok firstUnused := first
  have second : unusedIn b.fullname contexts = .ok secondUnused := second
  rw [← eq_true_iff_of_unusedIn first, ← eq_true_iff_of_unusedIn second]
  cases firstUnused <;> cases secondUnused <;> simp

/-- The check of a source asks about the two names of the target. -/
theorem check_eq (parts : parts? n = some p) (gives : s.Gives env p.source)
    (pair : p.target = ⟨i, .tuple [⟨j, .name a binding⟩, ⟨k, .name b binding'⟩]⟩) :
    s.check env n = unusedNames ⟨j, .name a binding⟩ ⟨k, .name b binding'⟩ p.perItem
      (s.firstUnused ⟨k, .name b binding'⟩) (s.secondUnused ⟨j, .name a binding⟩) := by
  have loop : loopLike? n = some ⟨p.target, p.source, p.perItem⟩ := by rw [loopLike?_eq, parts]; rfl
  obtain ⟨target, source, perItem, afterwards⟩ := p
  cases pair
  cases gives with
  | items named mapping =>
    simp only [PairSource.check, dictItems, loop, namePair?, named, mapping]
    rfl
  | enumerated named inherits =>
    simp only [PairSource.check, enumeration, loop, namePair?, named, inherits]
    rfl

end

theorem exists_of_namePair? {index first second : Node} (h : namePair? index = some (first, second)) :
    ∃ i j k a b binding binding', first = ⟨j, .name a binding⟩ ∧ second = ⟨k, .name b binding'⟩ ∧
      index = ⟨i, .tuple [first, second]⟩ := by
  unfold namePair? at h
  split at h
  case h_1 =>
    cases h
    exact ⟨_, _, _, _, _, _, _, rfl, rfl, rfl⟩
  case h_2 => cases h

theorem PairSource.SaysUnused.exists_namePair? {target : Node} {ref : Ref}
    (h : s.SaysUnused target ref f) : ∃ pair, namePair? target = some pair := by
  cases h with
  | first => exact ⟨_, rfl⟩
  | second => exact ⟨_, rfl⟩

theorem false_of_ok_nil {fs : List Finding} (hf : f ∈ fs)
    (empty : (Except.ok [] : Except Fault (List Finding)) = .ok fs) : False := by
  cases empty
  cases hf

/-- What the check of the items of mappings reports is about a loop that goes through such items. -/
theorem exists_gives_of_dictItems {fs : List Finding} (h : dictItems env n = .ok fs) (hf : f ∈ fs) :
    ∃ p dict pair, parts? n = some p ∧ (PairSource.items dict).Gives env p.source ∧
      namePair? p.target = some pair := by
  have nothing := false_of_ok_nil hf
  unfold dictItems at h
  rw [loopLike?_eq] at h
  split at h
  case h_1 index l m dict ref analyzed contexts loop =>
    obtain ⟨⟨target, source, perItem, afterwards⟩, parts, same⟩ := Option.map_eq_some_iff.1 loop
    cases same
    split at h
    case h_1 pair =>
      split at h
      case isTrue named =>
        obtain ⟨isMapping, mapping, h⟩ := bind_eq_ok h
        cases isMapping with
        | false => exact (nothing h).elim
        | true => exact ⟨_, dict, _, parts, .items (eq_of_beq named) mapping, pair⟩
      case isFalse => exact (nothing h).elim
    case h_2 => exact (nothing h).elim
  case h_2 => exact (nothing h).elim

/-- What the check of enumerations reports is about a loop that goes through one. -/
theorem exists_gives_of_enumeration {fs : List Finding} (h : enumeration env n = .ok fs)
    (hf : f ∈ fs) :
    ∃ p sequence pair, parts? n = some p ∧ (PairSource.enumerated sequence).Gives env p.source ∧
      namePair? p.target = some pair := by
  have nothing := false_of_ok_nil hf
  unfold enumeration at h
  rw [loopLike?_eq] at h
  split at h
  case h_1 index l callee sequence kind name analyzed contexts loop =>
    obtain ⟨⟨target, source, perItem, afterwards⟩, parts, same⟩ := Option.map_eq_some_iff.1 loop
    cases same
    split at h
    case h_1 pair =>
      split at h
      case isTrue named =>
        obtain ⟨isSequence, inherits, h⟩ := bind_eq_ok h
        cases isSequence with
        | false => exact (nothing h).elim
        | true => exact ⟨_, sequence, _, parts, .enumerated named inherits, pair⟩
      case isFalse => exact (nothing h).elim
    case h_2 => exact (nothing h).elim
  case h_2 => exact (nothing h).elim

/-- A name that does not occur in what is evaluated for each item occurs outside of the target only
in what the loop goes through and in what is run after the last item. -/
theorem occurrences_eq_target_iff {x : String} (parts : parts? n = some p)
    (unused : ∀ part ∈ p.perItem, part.occurrences x = 0) :
    n.occurrences x = p.target.occurrences x ↔
      ∀ part ∈ p.source :: p.afterwards, part.occurrences x = 0 := by
  have perItem : occurrencesIn x p.perItem = 0 := occurrencesIn_eq_zero_iff.2 unused
  rw [occurrences_of_parts? parts, ← occurrencesIn_eq_zero_iff, occurrencesIn_cons, perItem]
  omega

theorem check_reports_iff {pair : Node × Node} (parts : parts? n = some p)
    (gives : s.Gives env p.source) (target : namePair? p.target = some pair) :
    (∃ fs, s.check env n = .ok fs ∧ f ∈ fs) ↔ ∃ ref, s.SaysUnused p.target ref f ∧
      ∀ part ∈ p.perItem, Succeeds (part.entries .full) ∧ part.occurrences ref.fullname = 0 := by
  obtain ⟨i, j, k, a, b, binding, binding', first, second, shape⟩ := exists_of_namePair? target
  rw [first, second] at shape
  rw [check_eq parts gives shape]
  constructor
  · rintro ⟨fs, reported, hf⟩
    rw [shape]
    rcases (mem_unusedNames_iff reported).1 hf with ⟨rfl, unused⟩ | ⟨rfl, unused⟩
    · exact ⟨a, .first, unused⟩
    · exact ⟨b, .second, unused⟩
  · rintro ⟨ref, said, unused⟩
    obtain ⟨fs, reported⟩ := succeeds_unusedNames (fun part hp => (unused part hp).1) _ _ _ _
    refine ⟨fs, reported, (mem_unusedNames_iff reported).2 ?_⟩
    rw [shape] at said
    cases said with
    | first => exact .inl ⟨rfl, unused⟩
    | second => exact .inr ⟨rfl, unused⟩

/-- A name of a pair that a loop goes through is reported exactly if it does not occur in what is
evaluated for each item. Such a name occurs nowhere in the loop but in its target if and only if
neither what the loop goes through nor what is run after the last item mentions it. -/
theorem unused_name_reported_iff {env : Env} {n : Node} {f : Finding} :
    ((∃ fs, (dictItems env n = .ok fs ∨ enumeration env n = .ok fs) ∧ f ∈ fs) ↔
      ∃ (p : Parts) (s : PairSource) (ref : Ref), parts? n = some p ∧ s.Gives env p.source ∧
        s.SaysUnused p.target ref f ∧
        ∀ part ∈ p.perItem, Succeeds (part.entries .full) ∧ part.occurrences ref.fullname = 0) ∧
    ∀ (p : Parts) (x : String), parts? n = some p → (∀ part ∈ p.perItem, part.occurrences x = 0) →
      (n.occurrences x = p.target.occurrences x ↔
        ∀ part ∈ p.source :: p.afterwards, part.occurrences x = 0) := by
  refine ⟨⟨?_, ?_⟩, fun p x => occurrences_eq_target_iff⟩
  · rintro ⟨fs, reported | reported, hf⟩
    · obtain ⟨p, dict, pair, parts, gives, target⟩ := exists_gives_of_dictItems reported hf
      obtain ⟨ref, said, unused⟩ := (check_reports_iff parts gives target).1 ⟨fs, reported, hf⟩
      exact ⟨p, _, ref, parts, gives, said, unused⟩
    · obtain ⟨p, sequence, pair, parts, gives, target⟩ := exists_gives_of_enumeration reported hf
      obtain ⟨ref, said, unused⟩ := (check_reports_iff parts gives target).1 ⟨fs, reported, hf⟩
      exact ⟨p, _, ref, parts, gives, said, unused⟩
  · rintro ⟨p, s, ref, parts, gives, said, unused⟩
    obtain ⟨pair, target⟩ := said.exists_namePair?
    obtain ⟨fs, reported, hf⟩ := (check_reports_iff parts gives target).2 ⟨ref, said, unused⟩
    refine ⟨fs, ?_, hf⟩
    cases s with
    | items dict => exact .inl reported
    | enumerated sequence => exact .inr reported

def pairsEnv : Env where
  table := ⟨((∅ : Std.HashMap SymbolId Symbol).insert "d"
    (.value (some (.inst ⟨"typing.Mapping", "typing.Mapping"⟩ [])))).insert "xs"
    (.value (some (.inst ⟨"typing.Sequence", "typing.Sequence"⟩ []))), ∅⟩
  version := ⟨3, 10⟩
  files := []

def variableOf (name : String) : Node :=
  ⟨default, .name ⟨name, name, none, false⟩ (some ⟨name, false⟩)⟩

def itemsOf (dict : Node) : Node :=
  ⟨default, .call ⟨default, .member dict ⟨"items", "", none, false⟩⟩ [] none⟩

def enumerated (sequence : Node) : Node :=
  ⟨default, .call (knownAs "enumerate" "builtins.enumerate") [⟨sequence, .pos, none⟩] none⟩

def mentioning (x : String) : Node := ⟨default, .block [⟨default, .expression (knownAs x x)⟩]⟩

def pairTarget (a b : String) : Node := ⟨default, .tuple [knownAs a a, knownAs b b]⟩

/-- `for a, b in source: during` with `else: later`. -/
def pairLoop (a b : String) (source : Node) (during later : String) : Node :=
  ⟨default, .forLoop (pairTarget a b) source (mentioning during) (some (mentioning later)) false⟩

theorem inherits_of_typeOf {x : Node} {c : SymbolId}
    (h : pairsEnv.typeOf x = some (.type (.inst ⟨c, c⟩ [])))
    (unlisted : pairsEnv.table.get c = .cls (ClassInfo.bare c)) : pairsEnv.inherits x c = .ok true := by
  have info : pairsEnv.table.classInfo? c = some (ClassInfo.bare c) := by
    rw [SymbolTable.classInfo?, unlisted]
  rw [Env.inherits, h, SymbolTable.isSubclass, SymbolTable.classOf, info]
  simp [bind, Except.bind, pure, Except.pure, ClassInfo.bare, SymbolTable.classMatches]

theorem gives_itemsOf :
    (PairSource.items (variableOf "d")).Gives pairsEnv (itemsOf (variableOf "d")) := by
  refine .items rfl (inherits_of_typeOf ?_ ?_)
  · change pairsEnv.table.entity "d" = _
    simp [SymbolTable.entity, pairsEnv, SymbolTable.get, Std.HashMap.getD_insert]
  · simp [pairsEnv, SymbolTable.get, Std.HashMap.getD_insert]

theorem gives_enumerated :
    (PairSource.enumerated (variableOf "xs")).Gives pairsEnv (enumerated (variableOf "xs")) := by
  refine .enumerated rfl (inherits_of_typeOf ?_ ?_)
  · change pairsEnv.table.entity "xs" = _
    simp [SymbolTable.entity, pairsEnv, SymbolTable.get]
  · simp [pairsEnv, SymbolTable.get, Std.HashMap.getD_insert]

theorem occurrences_mentioning (x y : String) :
    (mentioning x).occurrences y = if x = y then 1 else 0 := by
  simp [mentioning, knownAs, occurrences_eq, held, Node.shape, isNameOf]

theorem wellFormed_mentioning (x : String) : (mentioning x).WellFormed := by
  have stmt : Node.WellFormed ⟨default, .expression (knownAs x x)⟩ := by
    rw [wellFormed_iff]
    exact ⟨rfl, by simp [children, wellFormed_knownAs]⟩
  rw [mentioning, wellFormed_iff]
  exact ⟨rfl, by simp [children, stmt]⟩

/-- What such a loop mentions only after its last item is reported as unused. -/
theorem reported_pairLoop {a b : String} {source : Node} {during : String} (later : String)
    {ref : Ref} {s : PairSource} {f : Finding} (gives : s.Gives pairsEnv source)
    (said : s.SaysUnused (pairTarget a b) ref f)
    (other : during ≠ ref.fullname) :
    ∃ fs, s.check pairsEnv (pairLoop a b source during later) = .ok fs ∧ f ∈ fs := by
  obtain ⟨pair, target⟩ := said.exists_namePair?
  refine (check_reports_iff (n := pairLoop a b source during later) rfl gives target).2 ⟨ref, said, ?_⟩
  simp [(wellFormed_mentioning during).succeeds_entries, occurrences_mentioning, other]

/-- The key of `for k, v in d.items(): v` is reported as unused also if `else: k` follows, and so is
the item of `for i, x in enumerate(xs): i` with `else: x`. -/
theorem name_used_afterwards_reported :
    let keys := pairLoop "k" "v" (itemsOf (variableOf "d")) "v" "k"
    let values := pairLoop "i" "x" (enumerated (variableOf "xs")) "i" "x"
    (∃ fs, dictItems pairsEnv keys = .ok fs ∧
      ofNode (knownAs "k" "k") "Key is unused, use `for v in d.values()` instead" ∈ fs) ∧
    (∃ fs, enumeration pairsEnv values = .ok fs ∧
      ofNode (knownAs "x" "x") "Value is unused, use `for i in range(len(xs))` instead" ∈ fs) ∧
    keys.occurrences "k" = 2 ∧ (pairTarget "k" "v").occurrences "k" = 1 ∧
    values.occurrences "x" = 2 ∧ (pairTarget "i" "x").occurrences "x" = 1 := by
  intro keys values
  refine ⟨reported_pairLoop "k" gives_itemsOf .first (by decide),
    reported_pairLoop "x" gives_enumerated .second (by decide), ?_⟩
  simp [keys, values, pairLoop, pairTarget, mentioning, itemsOf, enumerated, variableOf, knownAs,
    occurrences_eq, held, Node.shape, isNameOf]

end IdiomLint.Rules.Loops
