import IdiomLint.Proofs.ArgumentBinding
import IdiomLint.Proofs.LearnedDefaults

/-! Arguments that are reported to equal a default, and the calls without them. The arguments that
are passed by position are gone through with the parameters, and one that differs from the default
of its parameter takes back the reports so far; what is left of the reports can be left out of the
call. -/
namespace IdiomLint.Rules.Defaults

open CallBinding

def report (value : Node) : Finding := .ofNode value message

def isReported (found : List Finding) (value : Node) : Bool := found.contains (report value)

section

variable (default? : Slot → Option Node) (slots : List Slot)

/-- Whether the argument at place `i` equals the default of the parameter that it is compared
with. -/
def equalsDefault (i : Nat) (a : CallArg Node) : Bool :=
  match a.kind with
  | .pos => slots[i]?.any fun s => (default? s).any a.value.equivalent
  | .named => (slotNamed? slots a.name).any fun s => (default? s).any a.value.equivalent
  | _ => false

/-- Whether the arguments from place `i` on leave the reports before them as they are. -/
def keepsReports : Nat → List (CallArg Node) → Bool
  | _, [] => true
  | i, a :: rest =>
    slots.length ≤ i ||
      ((a.kind == .named || equalsDefault default? slots i a) && keepsReports (i + 1) rest)

/-- Where an argument stands that is reported, in a scan that starts at place `i`. -/
structure ReportedAt (i : Nat) (before : List (CallArg Node)) (a : CallArg Node)
    (behind : List (CallArg Node)) : Prop where
  plain : ∀ b ∈ before, b.kind = .pos ∨ b.kind = .named
  inRange : i + before.length < slots.length
  equals : equalsDefault default? slots (i + before.length) a
  kept : keepsReports default? slots (i + before.length + 1) behind

variable {default? slots} {i : Nat} {found : List Finding} {a : CallArg Node}
  {rest args : List (CallArg Node)}

theorem redundantArgs_of_length_le (h : slots.length ≤ i) :
    redundantArgs default? slots i found args = found := by
  have none : slots[i]? = none := List.getElem?_eq_none h
  cases args with
  | nil => rfl
  | cons a rest => rw [redundantArgs, none]

theorem redundantArgs_of_starred (h : i < slots.length)
    (starred : ¬(a.kind = .pos ∨ a.kind = .named)) :
    redundantArgs default? slots i found (a :: rest) = [] := by
  obtain ⟨value, kind, name⟩ := a
  rw [redundantArgs, List.getElem?_eq_getElem h]
  cases kind <;> simp_all

theorem redundantArgs_cons (h : i < slots.length) (plain : a.kind = .pos ∨ a.kind = .named) :
    redundantArgs default? slots i found (a :: rest) = redundantArgs default? slots (i + 1)
      ((if a.kind == .named || equalsDefault default? slots i a then found else []) ++
        if equalsDefault default? slots i a then [report a.value] else []) rest := by
  obtain ⟨value, kind, name⟩ := a
  have slot := List.getElem?_eq_getElem h
  rw [redundantArgs, slot]
  rcases plain with rfl | rfl
  · simp only [equalsDefault, slot, Option.any_some]
    split <;> simp_all [report]
  · dsimp only
    split
    case h_1 missing => simp [equalsDefault, missing]
    case h_2 s named =>
      simp only [equalsDefault, named, Option.any_some]
      split <;> simp_all [report]

theorem keepsReports_cons (h : i < slots.length) :
    keepsReports default? slots i (a :: rest) =
      ((a.kind == .named || equalsDefault default? slots i a) &&
        keepsReports default? slots (i + 1) rest) := by
  have inRange : ¬slots.length ≤ i := by omega
  simp [keepsReports, inRange]

theorem equalsDefault_of_starred (starred : ¬(a.kind = .pos ∨ a.kind = .named)) :
    equalsDefault default? slots i a = false := by
  unfold equalsDefault
  split <;> simp_all

/-- A scan adds to the reports before it, or takes them back. -/
theorem redundantArgs_eq_append (found : List Finding) :
    redundantArgs default? slots i found args =
      (if keepsReports default? slots i args then found else []) ++
        redundantArgs default? slots i [] args := by
  induction args generalizing i found with
  | nil => simp [redundantArgs, keepsReports]
  | cons a rest ih =>
    by_cases inRange : i < slots.length
    · by_cases plain : a.kind = .pos ∨ a.kind = .named
      · rw [redundantArgs_cons inRange plain, redundantArgs_cons inRange plain,
          keepsReports_cons inRange, ih (ite _ found [] ++ _), ih (ite _ [] [] ++ _)]
        cases keepsReports default? slots (i + 1) rest <;> simp
      · rw [redundantArgs_of_starred inRange plain, redundantArgs_of_starred inRange plain,
          keepsReports_cons inRange, equalsDefault_of_starred plain]
        simp_all
    · have le : slots.length ≤ i := by omega
      simp [redundantArgs_of_length_le le, keepsReports, le]

theorem reportedAt_nil_iff {behind : List (CallArg Node)} :
    ReportedAt default? slots i [] a behind ↔ i < slots.length ∧
      equalsDefault default? slots i a ∧ keepsReports default? slots (i + 1) behind :=
  ⟨fun h => ⟨h.inRange, h.equals, h.kept⟩,
    fun ⟨inRange, equals, kept⟩ => ⟨by simp, inRange, equals, kept⟩⟩

theorem reportedAt_append_iff (first : List (CallArg Node)) {before behind : List (CallArg Node)} :
    ReportedAt default? slots i (first ++ before) a behind ↔
      (∀ b ∈ first, b.kind = .pos ∨ b.kind = .named) ∧
      ReportedAt default? slots (i + first.length) before a behind := by
  have shift : i + (first ++ before).length = i + first.length + before.length := by
    rw [List.length_append]
    omega
  constructor
  · intro h
    obtain ⟨here, plain⟩ := List.forall_mem_append.1 h.plain
    exact ⟨here, plain, shift ▸ h.inRange, shift ▸ h.equals, shift ▸ h.kept⟩
  · rintro ⟨here, h⟩
    exact ⟨List.forall_mem_append.2 ⟨here, h.plain⟩, shift ▸ h.inRange, shift ▸ h.equals,
      shift ▸ h.kept⟩

/-- What a scan reports. -/
theorem mem_redundantArgs_iff {f : Finding} :
    f ∈ redundantArgs default? slots i [] args ↔ ∃ before a behind,
      args = before ++ a :: behind ∧ ReportedAt default? slots i before a behind ∧
      f = report a.value := by
  induction args generalizing i with
  | nil => simp [redundantArgs]
  | cons b rest ih =>
    -- the first argument, or one of the others
    have split : (∃ before a behind, b :: rest = before ++ a :: behind ∧
          ReportedAt default? slots i before a behind ∧ f = report a.value) ↔
        (ReportedAt default? slots i [] b rest ∧ f = report b.value) ∨
          ((b.kind = .pos ∨ b.kind = .named) ∧ ∃ before a behind, rest = before ++ a :: behind ∧
            ReportedAt default? slots (i + 1) before a behind ∧ f = report a.value) := by
      constructor
      · rintro ⟨before, a, behind, same, at_, rfl⟩
        cases before with
        | nil =>
          cases same
          exact .inl ⟨at_, rfl⟩
        | cons c before =>
          cases same
          obtain ⟨here, at_⟩ := (reportedAt_append_iff [b]).1 at_
          exact .inr ⟨by simpa using here, before, a, behind, rfl, at_, rfl⟩
      · rintro (⟨at_, rfl⟩ | ⟨here, before, a, behind, rfl, at_, rfl⟩)
        · exact ⟨[], b, rest, rfl, at_, rfl⟩
        · have whole := (reportedAt_append_iff [b]).2 ⟨by simpa using here, at_⟩
          exact ⟨b :: before, a, behind, rfl, whole, rfl⟩
    rw [split, ← ih, reportedAt_nil_iff]
    by_cases inRange : i < slots.length
    · by_cases plain : b.kind = .pos ∨ b.kind = .named
      · rw [redundantArgs_cons inRange plain, redundantArgs_eq_append]
        cases equalsDefault default? slots i b <;>
          cases keepsReports default? slots (i + 1) rest <;> simp [inRange, plain]
      · rw [redundantArgs_of_starred inRange plain, equalsDefault_of_starred plain]
        simp [plain]
    · have le : slots.length ≤ i := by omega
      rw [redundantArgs_of_length_le le, redundantArgs_of_length_le (by omega)]
      simp [inRange]

end

/-- What stands before an argument that is passed by position, starred or not, is so too. -/
def PlacedFirst (a b : CallArg Node) : Prop :=
  b.kind = .pos ∨ b.kind = .star → a.kind = .pos ∨ a.kind = .star

/-- Arguments as a call can be written: those that are passed by position before those that are
passed by name, and each at a place of its own. -/
structure WrittenCall (args : List (CallArg Node)) : Prop where
  ordered : args.Pairwise PlacedFirst
  apart : (args.map (·.value.span)).Nodup

def shown (default? : Slot → Option Node) (slots : List Slot) : List (Param Node) :=
  slots.map fun s => { s.1 with initial := default? s }

section

variable {default? : Slot → Option Node} {slots : List Slot} {args supplied : List (CallArg Node)}
  {a : CallArg Node} {i : Nat} {Value : Type} {contents : Contents Value}

theorem span_eq_of_report {v w : Node} (h : report v = report w) : v.span = w.span := by
  simp only [report, Finding.ofNode, Finding.ofSpan, Finding.mk.injEq] at h
  obtain ⟨line, column, endLine, endColumn, -⟩ := h
  cases hv : v.span
  cases hw : w.span
  simp_all

/-- An argument is reported for what is said about itself. -/
theorem WrittenCall.exists_reportedAt (written : WrittenCall args) (sub : supplied ⊆ args)
    (ha : a ∈ args) (h : isReported (redundantArgs default? slots i [] supplied) a.value) :
    ∃ before behind, supplied = before ++ a :: behind ∧
      ReportedAt default? slots i before a behind := by
  obtain ⟨before, b, behind, same, at_, reported⟩ :=
    mem_redundantArgs_iff.1 (List.contains_iff_mem.1 h)
  have hb : b ∈ args := sub (by simp [same])
  have spans : a.value.span = b.value.span := span_eq_of_report reported
  obtain rfl : a = b := List.inj_on_of_nodup_map written.apart ha hb spans
  exact ⟨before, behind, same, at_⟩

theorem WrittenCall.append_inj (written : WrittenCall args)
    {before before' behind behind' : List (CallArg Node)} (h : args = before ++ a :: behind)
    (h' : args = before' ++ a :: behind') : before = before' ∧ behind = behind' := by
  have nodup : args.Nodup := .of_map _ written.apart
  have at_ : args[before.length]? = some a := by simp [h]
  have at' : args[before'.length]? = some a := by simp [h']
  have lengths : before.length = before'.length := by
    refine (List.getElem?_inj ?_ nodup).1 (at_.trans at'.symm)
    simp [h]
  obtain ⟨same, rest⟩ := List.append_inj (h.symm.trans h') lengths
  exact ⟨same, (List.cons.inj rest).2⟩

theorem ReportedAt.kind {before behind : List (CallArg Node)}
    (h : ReportedAt default? slots i before a behind) : a.kind = .pos ∨ a.kind = .named := by
  by_contra starred
  have equals := h.equals
  rw [equalsDefault_of_starred starred] at equals
  cases equals

/-- What is passed by position behind a report that stays is reported. -/
theorem exists_reportedAt_of_placed
    (ordered : args.Pairwise PlacedFirst) (kept : keepsReports default? slots i args)
    (room : i + (args.flatMap (·.placed contents)).length ≤ slots.length) {j : Nat}
    {x : Passed Value} (hx : (args.flatMap (·.placed contents))[j]? = some x) :
    ∃ before b behind, args = before ++ b :: behind ∧ before.length = j ∧
      x = .written b.value ∧ b.kind = .pos ∧ ReportedAt default? slots i before b behind := by
  induction args generalizing i j with
  | nil => cases hx
  | cons b rest ih =>
    obtain ⟨placedFirst, ordered⟩ := List.pairwise_cons.1 ordered
    have inRange : i < slots.length := by
      have hj := (List.getElem?_eq_some_iff.1 hx).1
      omega
    rw [keepsReports_cons inRange, Bool.and_eq_true] at kept
    obtain ⟨here, below⟩ := kept
    cases kind : b.kind
    case pos =>
      have own : b.placed contents = [.written b.value] := by simp [CallArg.placed, kind]
      rw [List.flatMap_cons, own] at hx room
      cases j with
      | zero =>
        cases hx
        refine ⟨[], b, rest, rfl, rfl, rfl, kind, reportedAt_nil_iff.2 ⟨inRange, ?_, below⟩⟩
        simpa [kind] using here
      | succ j =>
        rw [List.length_append, List.length_singleton] at room
        obtain ⟨before, c, behind, rfl, rfl, rfl, hc, at_⟩ := ih ordered below (by omega) hx
        refine ⟨b :: before, c, behind, rfl, rfl, rfl, hc, ?_⟩
        exact (reportedAt_append_iff [b]).2 ⟨by simp [kind], at_⟩
    case named =>
      -- nothing is passed by position any more
      have none : (b :: rest).flatMap (·.placed contents) = [] := by
        refine List.flatMap_eq_nil_iff.2 fun c hc => CallArg.placed_eq_nil fun placed => ?_
        rcases List.mem_cons.1 hc with rfl | hc
        · simp [kind] at placed
        · simpa [kind] using placedFirst c hc placed
      rw [none] at hx
      cases hx
    all_goals
      rw [equalsDefault_of_starred (by simp [kind]), kind] at here
      cases here

variable {nameable : Param Node → Bool} {all : List Slot}

theorem getElem?_shown : (shown default? all)[i]? =
    all[i]?.map fun s => { s.1 with initial := default? s } :=
  List.getElem?_map

theorem exists_of_any_equivalent {slot : Option Slot} {value : Node}
    (h : slot.any fun s => (default? s).any value.equivalent) :
    ∃ s initial, slot = some s ∧ default? s = some initial ∧ value.equivalent initial := by
  cases slot with
  | none => simp at h
  | some s =>
    cases known : default? s with
    | none => simp [known] at h
    | some initial => exact ⟨s, initial, rfl, known, by simpa [known] using h⟩

theorem exists_slot_of_equalsDefault (kind : a.kind = .pos)
    (h : equalsDefault default? slots i a) : ∃ s initial, slots[i]? = some s ∧
      default? s = some initial ∧ a.value.equivalent initial := by
  rw [equalsDefault, kind] at h
  exact exists_of_any_equivalent h

/-- A slot that is found by name is a parameter that can be given by this name. -/
theorem namesDefault_of_slotNamed? (declared : Declared nameable (shown default? all))
    (within : slots ⊆ all) {name : String} {s : Slot} {value initial : Node}
    (named : slotNamed? slots (some name) = some s) (known : default? s = some initial)
    (equal : value.equivalent initial) :
    NamesDefault nameable (shown default? all) (name, (.written value : Passed Value)) := by
  have hs : s ∈ all := within (List.mem_reverse.1 (List.mem_of_find?_eq_some named))
  have hp : { s.1 with initial := some initial } ∈ shown default? all :=
    List.mem_map.2 ⟨s, hs, by rw [known]⟩
  obtain ⟨byName, called⟩ : s.1.positionOnly = false ∧ s.1.name = name := by
    have called := List.find?_some named
    simpa [Param.callName] using called
  have single : s.1.kind.gathers = false := by
    by_contra gathers
    cases declared.gathering _ hp (by simpa using gathers)
  exact ⟨_, hp, single, declared.nameable _ hp byName single, called, value, initial, rfl, rfl,
    equal⟩

/-- An argument that is passed by name is compared with the parameter that it names. -/
theorem namesDefault_of_isReported (declared : Declared nameable (shown default? all))
    (within : slots ⊆ all) (written : WrittenCall args) (sub : supplied ⊆ args)
    {e : String × Passed Value} (he : e ∈ args.flatMap (·.named contents))
    (goes : goesWith (isReported (redundantArgs default? slots 0 [] supplied)) e.2) :
    NamesDefault nameable (shown default? all) e := by
  obtain ⟨a, ha, he⟩ := List.mem_flatMap.1 he
  cases kind : a.kind <;> simp only [CallArg.named, kind, List.mem_map, Option.mem_toList,
    List.not_mem_nil] at he
  case starStar =>
    obtain ⟨entry, -, rfl⟩ := he
    cases goes
  case named =>
    obtain ⟨name, given, rfl⟩ := he
    obtain ⟨before, behind, -, at_⟩ := written.exists_reportedAt sub ha goes
    have equals := at_.equals
    rw [equalsDefault, kind, Option.mem_def.1 given] at equals
    obtain ⟨s, initial, named, known, equal⟩ := exists_of_any_equivalent equals
    exact namesDefault_of_slotNamed? declared within named known equal

theorem not_isReported_of_starred (written : WrittenCall args) (sub : supplied ⊆ args)
    (ha : a ∈ args) (starred : a.kind = .star ∨ a.kind = .starStar) :
    isReported (redundantArgs default? slots 0 [] supplied) a.value = false := by
  by_contra reported
  obtain ⟨before, behind, -, at_⟩ := written.exists_reportedAt sub ha (by simpa using reported)
  rcases starred with kind | kind <;> simpa [kind] using at_.kind

/-- Where no argument that is passed by position is reported, nothing that is passed so goes. -/
theorem not_goesWith_of_placed {out : Node → Bool} {handed : List Value}
    (stay : ∀ a ∈ args, a.kind = .pos → out a.value = false) :
    ∀ x ∈ handed.map .unpacked ++ args.flatMap (·.placed contents), goesWith out x = false := by
  intro x hx
  rcases List.mem_append.1 hx with hx | hx
  · obtain ⟨value, -, rfl⟩ := List.mem_map.1 hx
    rfl
  · obtain ⟨a, ha, hx⟩ := List.mem_flatMap.1 hx
    cases kind : a.kind <;> simp only [CallArg.placed, kind, List.mem_singleton, List.mem_map,
      List.not_mem_nil] at hx
    case pos => rw [hx, goesWith, stay a ha kind]
    case star =>
      obtain ⟨value, -, rfl⟩ := hx
      rfl

theorem length_placed_of_pos (pos : ∀ a ∈ args, a.kind = .pos) :
    (args.flatMap (·.placed contents)).length = args.length := by
  induction args with
  | nil => rfl
  | cons a rest ih =>
    obtain ⟨here, below⟩ := List.forall_mem_cons.1 pos
    rw [List.flatMap_cons, List.length_append, ih below]
    simp [CallArg.placed, here, Nat.add_comm 1]

/-- From a reported argument that is passed by position on, all that is passed by position is
reported, and equals the default of the parameter it is compared with. -/
theorem ReportedAt.placed_behind {front behind : List (CallArg Node)}
    (at_ : ReportedAt default? slots 0 front a behind)
    (ordered : (a :: behind).Pairwise PlacedFirst)
    (room : front.length + ((a :: behind).flatMap (·.placed contents)).length ≤ slots.length)
    {x : Passed Value} (hx : ((a :: behind).flatMap (·.placed contents))[i]? = some x) :
    goesWith (isReported (redundantArgs default? slots 0 [] (front ++ a :: behind))) x ∧
      ∃ s value initial, slots[front.length + i]? = some s ∧ x = .written value ∧
        default? s = some initial ∧ value.equivalent initial := by
  have kept : keepsReports default? slots front.length (a :: behind) := by
    have equals := at_.equals
    have kept := at_.kept
    rw [Nat.zero_add] at equals kept
    rw [keepsReports_cons (by simpa using at_.inRange), equals, kept]
    simp
  obtain ⟨mid, b, last, same, rfl, rfl, kind, atB⟩ :=
    exists_reportedAt_of_placed ordered kept room hx
  have whole : ReportedAt default? slots 0 (front ++ mid) b last :=
    (reportedAt_append_iff front).2 ⟨at_.plain, by rwa [Nat.zero_add]⟩
  obtain ⟨s, initial, slot, known, equal⟩ := exists_slot_of_equalsDefault kind atB.equals
  refine ⟨?_, s, b.value, initial, slot, rfl, known, equal⟩
  refine List.contains_iff_mem.2 (mem_redundantArgs_iff.2 ⟨front ++ mid, b, last, ?_, whole, rfl⟩)
  rw [same, List.append_assoc]

/-- An argument that is passed by position is compared with the parameter that receives it, if the
parameters are counted from the first that the arguments of the call can fill. -/
theorem removable_of_aligned {handed : List Value} {before : List (Param Node × Received Value)}
    (declared : Declared nameable (shown default? all)) (written : WrittenCall args)
    (noStar : ∀ s ∈ all, s.1.kind ≠ .star)
    (accepted : all? nameable (shown default? all)
      (handed.map .unpacked ++ args.flatMap (·.placed contents))
      (args.flatMap (·.named contents)) = some before) :
    Removable nameable
      (goesWith (isReported (redundantArgs default? (all.drop handed.length) 0 [] args)))
      (shown default? all) (handed.map .unpacked ++ args.flatMap (·.placed contents))
      (args.flatMap (·.named contents)) := by
  have byName (e : String × Passed Value) (he : e ∈ args.flatMap (·.named contents)) :=
    namesDefault_of_isReported declared (List.drop_subset handed.length all) written
      (fun _ h => h) he
  have shownNoStar : ∀ q ∈ shown default? all, q.kind ≠ .star := by
    intro q hq
    obtain ⟨s, hs, rfl⟩ := List.mem_map.1 hq
    exact noStar s hs
  cases first : args.find? fun a => a.kind == .pos &&
      isReported (redundantArgs default? (all.drop handed.length) 0 [] args) a.value with
  | none =>
    refine .of_kept (not_goesWith_of_placed fun a ha kind => ?_) byName
    simpa [kind] using List.find?_eq_none.1 first a ha
  | some a =>
    obtain ⟨matched, front, behind, rfl, early⟩ := List.find?_eq_some_iff_append.1 first
    rw [Bool.and_eq_true, beq_iff_eq] at matched
    obtain ⟨front', behind', split, at_⟩ :=
      written.exists_reportedAt (fun _ h => h) (by simp) matched.2
    obtain ⟨rfl, rfl⟩ := written.append_inj rfl split
    obtain ⟨-, ordered, across⟩ := List.pairwise_append.1 written.ordered
    have frontPos (c : CallArg Node) (hc : c ∈ front) : c.kind = .pos := by
      have placed := across c hc a List.mem_cons_self (.inl matched.1)
      rcases at_.plain c hc with pos | named
      · exact pos
      · simp [named] at placed
    have length : (handed.map Passed.unpacked ++ front.flatMap (·.placed contents)).length =
        handed.length + front.length := by
      rw [List.length_append, List.length_map, length_placed_of_pos frontPos]
    rw [List.flatMap_append, ← List.append_assoc] at accepted ⊢
    have total := length_le_of_all? declared shownNoStar accepted
    rw [List.length_append, length, shown, List.length_map] at total
    refine .of_append (not_goesWith_of_placed fun c hc pos => ?_) (fun j x hx => ?_) byName
    · simpa [pos] using early c hc
    · have room : front.length + ((a :: behind).flatMap (·.placed contents)).length ≤
          (all.drop handed.length).length := by
        rw [List.length_drop]
        omega
      obtain ⟨goes, s, value, initial, slot, rfl, known, equal⟩ :=
        at_.placed_behind ordered room hx
      have place : (shown default? all)[handed.length + front.length + j]? =
          some { s.1 with initial := some initial } := by
        rw [List.getElem?_drop] at slot
        rw [getElem?_shown, Nat.add_assoc, slot, Option.map_some, known]
      have inCall : handed.length + front.length + j <
          (handed.map Passed.unpacked ++ front.flatMap (·.placed contents) ++
            (a :: behind).flatMap (·.placed contents)).length := by
        rw [List.length_append, length]
        exact Nat.add_lt_add_left (List.getElem?_eq_some_iff.1 hx).1 _
      obtain ⟨q, atQ, positional⟩ := exists_positional_of_all? declared shownNoStar accepted inCall
      rw [place] at atQ
      cases atQ
      exact ⟨goes, _, by rw [length, place], positional, value, initial, rfl, rfl, equal⟩

theorem foldl_behindGathering (places : List (Slot × Nat)) (args : List (CallArg Node)) :
    let supplied := places.foldl (fun args (slot, i) =>
      if slot.1.kind == .star then behindGathering args i else args) args
    supplied ⊆ args ∧ ((∀ p ∈ places, p.1.1.kind ≠ .star) ∧ supplied = args ∨
      (∃ p ∈ places, p.1.1.kind = .star) ∧ ∀ a ∈ supplied, a.kind = .named) := by
  induction places generalizing args with
  | nil => exact ⟨List.Subset.refl args, .inl ⟨by simp, rfl⟩⟩
  | cons place places ih =>
    obtain ⟨slot, i⟩ := place
    intro supplied
    by_cases star : slot.1.kind = .star
    · have supplied_eq : supplied = places.foldl (fun args (slot, i) =>
          if slot.1.kind == .star then behindGathering args i else args)
          (behindGathering args i) := by
        simp [supplied, star]
      have sub : supplied ⊆ behindGathering args i := supplied_eq ▸ (ih _).1
      refine ⟨fun a ha => ?_, .inr ⟨⟨(slot, i), by simp, star⟩, fun a ha => ?_⟩⟩
      · exact List.mem_of_mem_drop (List.mem_filter.1 (sub ha)).1
      · simpa using (List.mem_filter.1 (sub ha)).2
    · have supplied_eq : supplied = places.foldl (fun args (slot, i) =>
          if slot.1.kind == .star then behindGathering args i else args) args := by
        simp [supplied, star]
      rw [supplied_eq]
      obtain ⟨sub, ⟨noStar, same⟩ | ⟨⟨p, hp, gathers⟩, named⟩⟩ := ih args
      · exact ⟨sub, .inl ⟨List.forall_mem_cons.2 ⟨star, noStar⟩, same⟩⟩
      · exact ⟨sub, .inr ⟨⟨p, List.mem_cons_of_mem _ hp, gathers⟩, named⟩⟩

theorem suppliedArgs_cases (slots : List Slot) (args : List (CallArg Node)) :
    suppliedArgs slots args ⊆ args ∧
      ((∀ s ∈ slots, s.1.kind ≠ .star) ∧ suppliedArgs slots args = args ∨
        ∀ a ∈ suppliedArgs slots args, a.kind = .named) := by
  obtain ⟨sub, ⟨noStar, same⟩ | ⟨-, named⟩⟩ := foldl_behindGathering slots.zipIdx args
  · refine ⟨sub, .inl ⟨fun s hs => ?_, same⟩⟩
    obtain ⟨i, hi⟩ := List.mem_iff_getElem?.1 hs
    exact noStar (s, i) (List.mem_zipIdx_iff_getElem?.2 hi)
  · exact ⟨sub, .inr named⟩

/-- The arguments that are reported can be left out together, if those that are passed by position
are compared with the parameters that receive them, or none of those is reported. -/
theorem exists_call?_redundantArgs {handed : List Value}
    {before : List (Param Node × Received Value)} {found : List Finding}
    (scan : redundantArgs default? slots 0 [] (suppliedArgs slots args) = found)
    (declared : Declared nameable (shown default? all)) (written : WrittenCall args)
    (within : slots ⊆ all)
    (safe : (slots = all.drop handed.length ∧ ∀ s ∈ all.take handed.length, s.1.kind ≠ .star) ∨
      ∀ a ∈ args, a.kind = .pos → isReported found a.value = false)
    (accepted : call? nameable (shown default? all) handed contents args = some before) :
    ∃ after, call? nameable (shown default? all) handed contents
        (args.filter (!isReported found ·.value)) = some after ∧
      List.Forall₂ (Survives (goesWith (isReported found))) before after := by
  subst scan
  obtain ⟨sub, supplied⟩ := suppliedArgs_cases slots args
  refine exists_call?_filter declared
    (fun a ha starred => not_isReported_of_starred written sub ha starred) ?_ accepted
  by_cases stay : ∀ a ∈ args, a.kind = .pos →
      isReported (redundantArgs default? slots 0 [] (suppliedArgs slots args)) a.value = false
  · refine .of_kept (not_goesWith_of_placed stay) fun e he goes => ?_
    exact namesDefault_of_isReported declared within written sub he goes
  · obtain ⟨aligned, single⟩ := safe.resolve_right stay
    rcases supplied with ⟨noStar, same⟩ | named
    · have noStarAtAll : ∀ s ∈ all, s.1.kind ≠ .star := by
        rw [← List.take_append_drop handed.length all, List.forall_mem_append, ← aligned]
        exact ⟨single, noStar⟩
      rw [call?, Option.ite_none_right_eq_some] at accepted
      rw [same, aligned]
      exact removable_of_aligned declared written noStarAtAll accepted.2
    · -- with a parameter that gathers positions only named arguments are compared
      refine absurd (fun a ha kind => ?_) stay
      by_contra reported
      obtain ⟨front, behind, split, -⟩ :=
        written.exists_reportedAt sub ha (by simpa using reported)
      have isNamed := named a (by simp [split])
      simp [kind] at isNamed

end

def Target.known (t : Target) (notes : Notes) : List (Param Node) :=
  shown (t.default? notes) t.params.zipIdx

theorem Target.known_of_untaught (t : Target) {notes : Notes}
    (untaught : ∀ e ∈ notes.defaults, e.1.symbol ≠ t.symbol) : t.known notes = t.params := by
  have initial (s : Slot) : t.default? notes s = s.1.initial := by
    have absent : notes.defaults.lookup (t.key s) = none := by
      refine List.lookup_eq_none_iff.2 fun e he => ?_
      have other : t.key s ≠ e.1 := fun same => untaught e he (by rw [← same, Target.key])
      simpa using other
    rw [Target.default?, absent, Option.none_or]
  rw [Target.known, shown]
  simp only [initial]
  exact List.zipIdx_map_fst 0 t.params

/-- Whether the first parameter has the name of a receiver. -/
def Target.namesReceiver (t : Target) : Bool :=
  let receiver := (t.params.head?.bind Param.callName).getD ""
  receiver == "self" || receiver == "cls"

theorem Target.slots_eq_drop (t : Target) (callee : Node) :
    t.slots callee = t.params.zipIdx.drop (callee.isMember && t.namesReceiver).toNat := by
  unfold Target.slots Target.namesReceiver
  dsimp only
  split
  case isTrue h => rw [h, Bool.toNat_true]
  case isFalse h => rw [Bool.eq_false_iff.2 h, Bool.toNat_false, List.drop_zero]

theorem Target.slots_subset (t : Target) (callee : Node) : t.slots callee ⊆ t.params.zipIdx := by
  rw [t.slots_eq_drop]
  exact List.drop_subset _ _

theorem Target.judge_of_unknown (t : Target) {env : Env} {callee : Node}
    (unknown : knownDefaults.lookup (calledName env callee) = none) (args : List (CallArg Node))
    (notes : Notes) :
    t.judge env callee args notes = (redundantArgs (t.default? notes) (t.slots callee) 0 []
      (suppliedArgs (t.slots callee) args), notes) := by
  simp [Target.judge, Target.learn, unknown]

/-- A call through a plain name of a function for which no other defaults are known than it is
declared with: the arguments that are reported can be left out together. The call stays accepted,
and every parameter receives what it received, or falls back to a default that equals what it
received. -/
theorem reported_arguments_removable {env : Env} {notes : Notes} {i ci : Info} {ref : Ref}
    {binding : Binding} {type : Option Ty} {params : List (Param Node)}
    {args : List (CallArg Node)} {analyzed : Option Node}
    (function : env.table.get binding.symbol = .function type params)
    (unknown : knownDefaults.lookup ref.fullname = none)
    (untaught : ∀ e ∈ notes.defaults, e.1.symbol ≠ binding.symbol)
    {nameable : Param Node → Bool} (declared : Declared nameable params)
    (written : WrittenCall args) {Value : Type} {contents : Contents Value}
    {before : List (Param Node × Received Value)}
    (accepted : call? nameable params [] contents args = some before) :
    ∃ found, implicitDefault env notes ⟨i, .call ⟨ci, .name ref (some binding)⟩ args analyzed⟩ =
        .ok (found, notes) ∧
      ∃ after, call? nameable params [] contents (args.filter (!isReported found ·.value)) =
          some after ∧
        List.Forall₂ (Survives (goesWith (isReported found))) before after := by
  let t : Target := ⟨binding.symbol, none, params⟩
  have known : shown (t.default? notes) params.zipIdx = params := t.known_of_untaught untaught
  have all : t.slots ⟨ci, .name ref (some binding)⟩ = params.zipIdx.drop ([] : List Value).length :=
    rfl
  rw [← known] at declared accepted ⊢
  refine ⟨_, ?_, exists_call?_redundantArgs rfl declared written (t.slots_subset _)
    (.inl ⟨all, by simp⟩) accepted⟩
  rw [implicitDefault_of_function rfl function]
  have called : calledName env ⟨ci, .name ref (some binding)⟩ = ref.fullname := rfl
  exact congrArg Except.ok (t.judge_of_unknown (called ▸ unknown) args notes)

def declaring (name : String) (kind : ArgKind) (initial : Option Int) : Param Node :=
  ⟨default, name, name, kind, initial.map intNode, false, false⟩

def numberAt (column : Int) (n : Int) : Node := ⟨⟨0, ⟨1, column, none, none⟩⟩, .int n⟩

theorem span_numberAt (column n : Int) : (numberAt column n).span = ⟨1, column, none, none⟩ := rfl

/-- Positions, a name and an empty mapping: `f(7, 1, 2, k=3, **m)` for a function that is declared
with `a`, `b=1`, `c=2` and, to be named, `k=3`. -/
theorem reported_arguments_removable_named :
    let params := [declaring "a" .pos none, declaring "b" .opt (some 1),
      declaring "c" .opt (some 2), declaring "k" .namedOpt (some 3)]
    let env : Env := ⟨⟨(∅ : Std.HashMap SymbolId Symbol).insert "f" (.function none params), ∅⟩,
      ⟨3, 10⟩, []⟩
    let args : List (CallArg Node) := [⟨numberAt 2 7, .pos, none⟩, ⟨numberAt 5 1, .pos, none⟩,
      ⟨numberAt 8 2, .pos, none⟩, ⟨numberAt 11 3, .named, some "k"⟩,
      ⟨numberAt 17 0, .starStar, none⟩]
    let contents : Contents Unit := ⟨fun _ => [], fun _ => []⟩
    let ref : Ref := ⟨"f", "m.f", none, false⟩
    let binding : Binding := ⟨"f", false⟩
    let call : Node := ⟨default, .call ⟨default, .name ref (some binding)⟩ args none⟩
    let found := [report (numberAt 5 1), report (numberAt 8 2), report (numberAt 11 3)]
    implicitDefault env {} call = .ok (found, {}) ∧
      ∃ before after, call? (fun _ => true) params [] contents args = some before ∧
        call? (fun _ => true) params [] contents
          [⟨numberAt 2 7, .pos, none⟩, ⟨numberAt 17 0, .starStar, none⟩] = some after ∧
        List.Forall₂ (Survives (goesWith (isReported found))) before after := by
  intro params env args contents ref binding call found
  have function : env.table.get binding.symbol = .function none params := by
    simp [binding, env, SymbolTable.get]
  have unknown : knownDefaults.lookup ref.fullname = none := rfl
  have untaught : ∀ e ∈ ({} : Notes).defaults, e.1.symbol ≠ binding.symbol := by simp
  have declared : Declared (fun _ => true) params := by
    refine ⟨?_, ?_, ?_, ?_⟩ <;> simp [params, declaring, ArgKind.place, ArgKind.gathers]
  have written : WrittenCall args := by
    refine ⟨?_, ?_⟩ <;> simp [args, span_numberAt, PlacedFirst]
  have run : implicitDefault env {} call = .ok (found, {}) := by
    rw [implicitDefault_of_function rfl function]
    rfl
  obtain ⟨before, accepted⟩ : ∃ before, call? (fun _ => true) params [] contents args =
      some before := ⟨_, rfl⟩
  obtain ⟨_, same, after, stillAccepted, survive⟩ :=
    reported_arguments_removable function unknown untaught declared written accepted
  cases run.symm.trans same
  exact ⟨run, before, after, accepted, stillAccepted, survive⟩

end IdiomLint.Rules.Defaults
