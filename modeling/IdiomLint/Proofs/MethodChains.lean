import IdiomLint.Proofs.NameOccurrences
import IdiomLint.Proofs.Scopes

/-! Statements that call methods on the variable assigned right before. The scan keeps a statement
`y = v.method()` back until it has seen all statements after it; compared here with what a position
in the body of a function says: which variable was assigned before, and whether it is mentioned
later. -/
namespace IdiomLint.Rules.MethodChains

open Finding Node

/-- A position in a list of statements, those before it with the last one first. -/
structure Place where
  earlier : List Node
  stmt : Node
  later : List Node

def placesFrom (earlier : List Node) : List Node → List Place
  | [] => []
  | stmt :: later => ⟨earlier, stmt, later⟩ :: placesFrom (stmt :: earlier) later

def places (stmts : List Node) : List Place := placesFrom [] stmts

theorem mem_placesFrom_iff {p : Place} {earlier stmts : List Node} :
    p ∈ placesFrom earlier stmts ↔
      ∃ passed, p.earlier = passed.reverse ++ earlier ∧ passed ++ p.stmt :: p.later = stmts := by
  induction stmts generalizing earlier with
  | nil => simp [placesFrom]
  | cons stmt rest ih =>
    rw [placesFrom, List.mem_cons, ih]
    constructor
    · rintro (rfl | ⟨passed, before, rfl⟩)
      · exact ⟨[], rfl, rfl⟩
      · exact ⟨stmt :: passed, by simp [before], rfl⟩
    · rintro ⟨passed, before, split⟩
      cases passed with
      | nil =>
        obtain ⟨rfl, rfl⟩ := List.cons.inj split
        exact .inl (by rw [Place.mk.injEq]; exact ⟨before, rfl, rfl⟩)
      | cons first passed =>
        obtain ⟨rfl, rfl⟩ := List.cons.inj split
        exact .inr ⟨passed, by simpa using before, rfl⟩

theorem mem_places_iff {p : Place} {stmts : List Node} :
    p ∈ places stmts ↔ p.earlier.reverse ++ p.stmt :: p.later = stmts := by
  rw [places, mem_placesFrom_iff]
  constructor
  · rintro ⟨passed, before, split⟩
    rw [before, List.append_nil, List.reverse_reverse, split]
  · intro split
    exact ⟨p.earlier.reverse, by simp, split⟩

inductive Returns : Node → Node → Prop
  | intro {i : Info} {value : Node} : Returns ⟨i, .returnStmt (some value)⟩ value

theorem Returns.not_assigns {stmt value e : Node} {ref : Ref} (returns : Returns stmt value) :
    ¬stmt.Assigns ref e := by
  obtain ⟨⟩ := returns
  rintro ⟨⟩

/-- The last of the statements that is no `return` assigns to the variable `v`. -/
inductive LastAssigned (v : String) : List Node → Prop
  | assigned {stmt value : Node} {ref : Ref} {earlier : List Node} (assigns : stmt.Assigns ref value)
      (spelled : ref.name = v) (named : v ≠ "") (used : v ≠ "_") : LastAssigned v (stmt :: earlier)
  | returned {i : Info} {value : Option Node} {earlier : List Node} (before : LastAssigned v earlier) :
    LastAssigned v (⟨i, .returnStmt value⟩ :: earlier)

namespace Place

/-- The expression is a chain of methods on the variable assigned before. -/
def Continues (p : Place) (v : String) (e : Node) : Prop :=
  LastAssigned v p.earlier ∧ continues v e = .ok true

/-- What is reported as soon as it is seen: `return` statements, and assignments to the variable
itself, which is known by another name from there on. -/
def Immediate (p : Place) : Prop :=
  ∃ v e, p.Continues v e ∧
    (Returns p.stmt e ∨ ∃ ref, p.stmt.Assigns ref e ∧ ref.name = v ++ "'")

/-- What is reported at the end: assignments to other variables, unless the variable assigned before
is mentioned later. -/
def Deferred (p : Place) : Prop :=
  ∃ v e ref, p.Continues v e ∧ p.stmt.Assigns ref e ∧ ref.name ≠ v ++ "'" ∧
    ∀ s ∈ p.later, s.occurrences v = 0

theorem exists_continues {p : Place} (h : p.Immediate ∨ p.Deferred) :
    ∃ v e, p.Continues v e ∧ (Returns p.stmt e ∨ ∃ ref, p.stmt.Assigns ref e) := by
  obtain ⟨v, e, continues, returns | ⟨ref, assigns, -⟩⟩ | ⟨v, e, ref, continues, assigns, -⟩ := h
  · exact ⟨v, e, continues, .inl returns⟩
  · exact ⟨v, e, continues, .inr ⟨ref, assigns⟩⟩
  · exact ⟨v, e, continues, .inr ⟨ref, assigns⟩⟩

end Place

variable {last v : String} {stmt e : Node} {ref : Ref} {earlier rest : List Node}

/-- What the scan knows of the statements it has seen. -/
def Remembers (last : String) (earlier : List Node) : Prop :=
  ∀ v, LastAssigned v earlier ↔ v = last ∧ v ≠ ""

theorem remembers_nil : Remembers "" [] := by
  intro v
  constructor
  · rintro ⟨⟩
  · rintro ⟨rfl, named⟩
    exact absurd rfl named

theorem Remembers.returned (h : Remembers last earlier) (i : Info) (value : Option Node) :
    Remembers last (⟨i, .returnStmt value⟩ :: earlier) := by
  intro v
  rw [← h v]
  constructor
  · rintro (⟨⟨⟩⟩ | before)
    exact before
  · exact .returned

def variableOf (ref : Ref) : String := if ref.name == "_" then "" else ref.name

theorem remembers_assigned (assigns : stmt.Assigns ref e) :
    Remembers (variableOf ref) (stmt :: earlier) := by
  intro v
  obtain ⟨⟩ := assigns
  have known : v = variableOf ref ∧ v ≠ "" ↔ ref.name = v ∧ v ≠ "" ∧ v ≠ "_" := by
    unfold variableOf
    split <;> grind
  rw [known]
  constructor
  · rintro (⟨⟨⟩, spelled, named, used⟩)
    exact ⟨spelled, named, used⟩
  · rintro ⟨spelled, named, used⟩
    exact .assigned .intro spelled named used

theorem remembers_other (notAssigned : ∀ ref e, ¬stmt.Assigns ref e)
    (notReturned : ∀ i value, stmt ≠ ⟨i, .returnStmt value⟩) : Remembers "" (stmt :: earlier) := by
  intro v
  constructor
  · intro h
    cases h with
    | assigned assigns => exact absurd assigns (notAssigned _ _)
    | returned => exact absurd rfl (notReturned _ _)
  · rintro ⟨rfl, named⟩
    exact absurd rfl named

def Follows (last : String) (e : Node) : Prop := last ≠ "" ∧ continues last e = .ok true

theorem Remembers.continues_iff (h : Remembers last earlier) {later : List Node} :
    Place.Continues ⟨earlier, stmt, later⟩ v e ↔ v = last ∧ Follows last e := by
  rw [Place.Continues, h v, Follows]
  constructor
  · rintro ⟨⟨rfl, named⟩, continues⟩
    exact ⟨rfl, named, continues⟩
  · rintro ⟨rfl, named, continues⟩
    exact ⟨⟨rfl, named⟩, continues⟩

/-- What a statement makes the scan report, keep back and remember. -/
inductive Step (last : String) : Node → List Finding → List Candidate → String → Prop
  | again {stmt e : Node} {ref : Ref} (assigns : stmt.Assigns ref e) (follows : Follows last e)
      (same : ref.name = last ++ "'") :
    Step last stmt [ofNode stmt assignmentMessage] [] (variableOf ref)
  | keptBack {stmt e : Node} {ref : Ref} (assigns : stmt.Assigns ref e) (follows : Follows last e)
      (other : ref.name ≠ last ++ "'") : Step last stmt [] [⟨last, stmt⟩] (variableOf ref)
  | assigned {stmt e : Node} {ref : Ref} (assigns : stmt.Assigns ref e) (fresh : ¬Follows last e) :
    Step last stmt [] [] (variableOf ref)
  | returned {e : Node} {i : Info} (follows : Follows last e) :
    Step last ⟨i, .returnStmt (some e)⟩ [ofNode ⟨i, .returnStmt (some e)⟩ returnMessage] [] last
  | returnedOther {i : Info} {value : Option Node} (fresh : ∀ e ∈ value, ¬Follows last e) :
    Step last ⟨i, .returnStmt value⟩ [] [] last
  | other {stmt : Node} (notAssigned : ∀ ref e, ¬stmt.Assigns ref e)
      (notReturned : ∀ i value, stmt ≠ ⟨i, .returnStmt value⟩) : Step last stmt [] [] ""

theorem exists_follows {next : Bool → Except Fault (List Finding)} {fs : List Finding}
    (h : (if last == "" then pure false >>= next else continues last e >>= next) = .ok fs) :
    (Follows last e ∧ next true = .ok fs) ∨ (¬Follows last e ∧ next false = .ok fs) := by
  by_cases named : last = ""
  · rw [if_pos (beq_iff_eq.2 named)] at h
    exact .inr ⟨fun follows => follows.1 named, h⟩
  · rw [if_neg (by simpa using named)] at h
    obtain ⟨b, continues, h⟩ := bind_eq_ok h
    cases b with
    | true => exact .inl ⟨⟨named, continues⟩, h⟩
    | false =>
      refine .inr ⟨fun follows => ?_, h⟩
      rw [follows.2] at continues
      cases continues

theorem exists_step {candidates : List Candidate} {fs : List Finding}
    (h : chained last candidates (stmt :: rest) = .ok fs) :
    ∃ kept now added next more, stillOpen stmt candidates = .ok kept ∧ Step last stmt now added next ∧
      chained next (kept ++ added) rest = .ok more ∧ fs = now ++ more := by
  rw [chained] at h
  obtain ⟨kept, stays, h⟩ := bind_eq_ok h
  have without {next : String} {more : List Finding} (h : chained next kept rest = .ok more) :
      chained next (kept ++ []) rest = .ok more := by
    rwa [List.append_nil]
  split at h
  case h_1 i j target binding value _ =>
    obtain ⟨follows, h⟩ | ⟨fresh, h⟩ := exists_follows h
    · dsimp only at h
      rw [if_pos rfl] at h
      split at h
      · next same =>
        obtain ⟨more, further, h⟩ := bind_eq_ok h
        obtain rfl := Except.ok.inj h
        have same : target.name = last ++ "'" := (beq_iff_eq.1 same).symm
        exact ⟨kept, _, [], _, more, stays, .again .intro follows same, without further, rfl⟩
      · next other =>
        have other : target.name ≠ last ++ "'" := fun same => other (beq_iff_eq.2 same.symm)
        exact ⟨kept, [], _, _, fs, stays, .keptBack .intro follows other, h, rfl⟩
    · exact ⟨kept, [], [], _, fs, stays, .assigned .intro fresh, without h, rfl⟩
  case h_2 i value _ =>
    cases value with
    | none => exact ⟨kept, [], [], last, fs, stays, .returnedOther (by simp), without h, rfl⟩
    | some e =>
      obtain ⟨follows, h⟩ | ⟨fresh, h⟩ := exists_follows h
      · obtain ⟨more, further, h⟩ := bind_eq_ok h
        obtain rfl := Except.ok.inj h
        exact ⟨kept, _, [], last, more, stays, .returned follows, without further, rfl⟩
      · have fresh : ∀ v ∈ some e, ¬Follows last v := by simpa using fresh
        exact ⟨kept, [], [], last, fs, stays, .returnedOther fresh, without h, rfl⟩
  case h_3 notAssigned notReturned =>
    have notAssigned (ref : Ref) (e : Node) : ¬stmt.Assigns ref e := by
      rintro ⟨⟩
      exact notAssigned _ _ _ _ _ rfl
    exact ⟨kept, [], [], "", fs, stays, .other notAssigned notReturned, without h, rfl⟩

theorem Step.remembers {now : List Finding} {added : List Candidate} {next : String}
    (step : Step last stmt now added next) (h : Remembers last earlier) :
    Remembers next (stmt :: earlier) := by
  cases step with
  | again assigns | keptBack assigns | assigned assigns => exact remembers_assigned assigns
  | returned | returnedOther => exact h.returned _ _
  | other notAssigned notReturned => exact remembers_other notAssigned notReturned

theorem Remembers.immediate_iff (h : Remembers last earlier) {later : List Node} :
    Place.Immediate ⟨earlier, stmt, later⟩ ↔
      ∃ e, Follows last e ∧ (Returns stmt e ∨ ∃ ref, stmt.Assigns ref e ∧ ref.name = last ++ "'") := by
  simp only [Place.Immediate, h.continues_iff]
  constructor
  · rintro ⟨_, e, ⟨rfl, follows⟩, which⟩
    exact ⟨e, follows, which⟩
  · rintro ⟨e, follows, which⟩
    exact ⟨last, e, ⟨rfl, follows⟩, which⟩

theorem Remembers.deferred_iff (h : Remembers last earlier) {later : List Node} :
    Place.Deferred ⟨earlier, stmt, later⟩ ↔
      ∃ e ref, Follows last e ∧ stmt.Assigns ref e ∧ ref.name ≠ last ++ "'" ∧
        ∀ s ∈ later, s.occurrences last = 0 := by
  simp only [Place.Deferred, h.continues_iff]
  constructor
  · rintro ⟨_, e, ref, ⟨rfl, follows⟩, which⟩
    exact ⟨e, ref, follows, which⟩
  · rintro ⟨e, ref, follows, which⟩
    exact ⟨last, e, ref, ⟨rfl, follows⟩, which⟩

section

open scoped Classical

noncomputable def Place.report (p : Place) : Finding :=
  ofNode p.stmt (if ∃ e, Returns p.stmt e then returnMessage else assignmentMessage)

theorem Place.report_of_assigns {p : Place} (assigns : p.stmt.Assigns ref e) :
    p.report = ofNode p.stmt assignmentMessage := by
  rw [Place.report, if_neg fun ⟨_, returns⟩ => returns.not_assigns assigns]

theorem Place.report_of_returns {p : Place} (returns : Returns p.stmt e) :
    p.report = ofNode p.stmt returnMessage := by
  rw [Place.report, if_pos ⟨e, returns⟩]

variable {now : List Finding} {added : List Candidate} {next : String} {later : List Node}

theorem Step.now_eq (step : Step last stmt now added next) (h : Remembers last earlier) :
    now = if Place.Immediate ⟨earlier, stmt, later⟩ then [Place.report ⟨earlier, stmt, later⟩] else [] := by
  rw [h.immediate_iff]
  cases step with
  | again assigns follows same =>
    rw [if_pos ⟨_, follows, .inr ⟨_, assigns, same⟩⟩, Place.report_of_assigns assigns]
  | keptBack assigns follows other =>
    obtain ⟨⟩ := assigns
    refine (if_neg ?_).symm
    rintro ⟨_, -, ⟨⟨⟩⟩ | ⟨_, ⟨⟩, same⟩⟩
    exact other same
  | assigned assigns fresh =>
    obtain ⟨⟩ := assigns
    refine (if_neg ?_).symm
    rintro ⟨_, follows, ⟨⟨⟩⟩ | ⟨_, ⟨⟩, -⟩⟩
    exact fresh follows
  | returned follows =>
    rw [if_pos ⟨_, follows, .inl .intro⟩, Place.report_of_returns .intro]
  | returnedOther fresh =>
    refine (if_neg ?_).symm
    rintro ⟨e, follows, ⟨⟨⟩⟩ | ⟨_, ⟨⟩, -⟩⟩
    exact fresh e rfl follows
  | other notAssigned notReturned =>
    refine (if_neg ?_).symm
    rintro ⟨e, -, ⟨⟨⟩⟩ | ⟨ref, assigns, -⟩⟩
    · exact notReturned _ _ rfl
    · exact notAssigned ref e assigns

def Candidate.Unmentioned (stmts : List Node) (c : Candidate) : Prop :=
  ∀ s ∈ stmts, s.occurrences c.name = 0

def Candidate.report (c : Candidate) : Finding := ofNode c.stmt assignmentMessage

theorem Step.added_eq (step : Step last stmt now added next) (h : Remembers last earlier) :
    (added.filter fun c => c.Unmentioned later).map Candidate.report =
      if Place.Deferred ⟨earlier, stmt, later⟩ then [Place.report ⟨earlier, stmt, later⟩] else [] := by
  rw [h.deferred_iff]
  cases step with
  | again assigns follows same =>
    obtain ⟨⟩ := assigns
    refine (if_neg ?_).symm
    rintro ⟨_, _, -, ⟨⟩, other, -⟩
    exact other same
  | keptBack assigns follows other =>
    by_cases unmentioned : Candidate.Unmentioned later ⟨last, stmt⟩
    · rw [if_pos ⟨_, _, follows, assigns, other, unmentioned⟩, Place.report_of_assigns assigns,
        List.filter_cons_of_pos (by simpa using unmentioned)]
      rfl
    · rw [if_neg fun ⟨_, _, _, _, _, h⟩ => unmentioned h,
        List.filter_cons_of_neg (by simpa using unmentioned)]
      rfl
  | assigned assigns fresh =>
    obtain ⟨⟩ := assigns
    refine (if_neg ?_).symm
    rintro ⟨_, _, follows, ⟨⟩, -⟩
    exact fresh follows
  | returned | returnedOther =>
    refine (if_neg ?_).symm
    rintro ⟨_, _, -, ⟨⟩, -⟩
  | other notAssigned =>
    exact (if_neg fun ⟨e, ref, _, assigns, _⟩ => notAssigned ref e assigns).symm

theorem stillOpen_eq_ok {candidates kept : List Candidate}
    (h : stillOpen stmt candidates = .ok kept) :
    kept = candidates.filter fun c => stmt.occurrences c.name = 0 := by
  induction candidates generalizing kept with
  | nil => exact (Except.ok.inj h).symm
  | cons c rest ih =>
    obtain ⟨reads, counted, h⟩ := bind_eq_ok h
    obtain ⟨more, further, h⟩ := bind_eq_ok h
    obtain rfl := Except.ok.inj h
    obtain ⟨-, rfl⟩ := readCount_eq_ok_iff.1 counted
    rw [ih further, List.filter_cons]
    simp only [decide_eq_true_eq]

theorem map_report_filter_cons {P : Place → Prop} {p : Place} {ps : List Place} :
    ((p :: ps).filter fun p => P p).map Place.report =
      (if P p then [p.report] else []) ++ (ps.filter fun p => P p).map Place.report := by
  by_cases holds : P p
  · rw [List.filter_cons_of_pos (by simpa using holds), if_pos holds]
    rfl
  · rw [List.filter_cons_of_neg (by simpa using holds), if_neg holds]
    rfl

theorem filter_unmentioned_cons {candidates : List Candidate} :
    (candidates.filter fun c => c.Unmentioned (stmt :: rest)) =
      (candidates.filter fun c => stmt.occurrences c.name = 0).filter fun c => c.Unmentioned rest := by
  rw [List.filter_filter]
  apply List.filter_congr
  intro c _
  rw [Bool.eq_iff_iff, Bool.and_eq_true, decide_eq_true_eq, decide_eq_true_eq, decide_eq_true_eq,
    and_comm]
  exact List.forall_mem_cons

theorem report_mem {P : Place → Prop} {p : Place} {ps : List Place} (mem : p ∈ ps) (holds : P p) :
    p.report ∈ (ps.filter fun p => P p).map Place.report :=
  List.mem_map_of_mem (List.mem_filter.2 ⟨mem, decide_eq_true holds⟩)

/-- The scan reports the places that are reported at once, then the candidates whose variable is not
mentioned any more, then the places that are kept back. -/
theorem chained_eq_ok {candidates : List Candidate} {stmts : List Node} {fs : List Finding}
    (h : chained last candidates stmts = .ok fs) (remembers : Remembers last earlier) :
    fs = ((placesFrom earlier stmts).filter fun p => p.Immediate).map Place.report
      ++ ((candidates.filter fun c => c.Unmentioned stmts).map Candidate.report
        ++ ((placesFrom earlier stmts).filter fun p => p.Deferred).map Place.report) := by
  induction stmts generalizing last earlier candidates fs with
  | nil =>
    obtain rfl := Except.ok.inj h
    simp [placesFrom, Candidate.Unmentioned, Candidate.report]
  | cons stmt rest ih =>
    obtain ⟨kept, now, added, next, more, stays, step, further, rfl⟩ := exists_step h
    -- the statement filters what was kept back before; what it adds itself is for the rest to filter
    rw [placesFrom, map_report_filter_cons, map_report_filter_cons, ← step.now_eq remembers,
      ← step.added_eq remembers, filter_unmentioned_cons, ← stillOpen_eq_ok stays,
      ih further (step.remembers remembers)]
    simp only [List.filter_append, List.map_append, List.append_assoc]

variable {env : Env} {i : Info} {name : String} {params : List (Param Node)} {body : Node}
  {traits : FunctionTraits} {f : Finding} {fs : List Finding}

/-- Assignments that are kept back are reported exactly where they chain onto the variable assigned
before and no statement after them mentions it, in nested blocks and functions and as a target
included. -/
theorem chained_assignments_reported :
    (Node.WellFormed ⟨i, .function name params body traits⟩ →
      ∃ fs, fluentInterface env ⟨i, .function name params body traits⟩ = .ok fs) ∧
    ∀ fs, fluentInterface env ⟨i, .function name params body traits⟩ = .ok fs →
      fs = ((places (body.statementList?.getD [])).filter fun p => p.Immediate).map Place.report
        ++ ((places (body.statementList?.getD [])).filter fun p => p.Deferred).map Place.report :=
  ⟨succeeds_fluentInterface, fun _ h => chained_eq_ok h remembers_nil⟩

/-- What is reported, in no order. -/
theorem mem_iff_of_fluentInterface
    (h : fluentInterface env ⟨i, .function name params body traits⟩ = .ok fs) :
    f ∈ fs ↔
      ∃ p ∈ places (body.statementList?.getD []), f = p.report ∧ (p.Immediate ∨ p.Deferred) := by
  have reports := chained_eq_ok h remembers_nil
  rw [List.filter_nil, List.map_nil, List.nil_append] at reports
  rw [reports, List.mem_append, List.mem_map, List.mem_map]
  simp only [List.mem_filter, decide_eq_true_eq]
  constructor
  · rintro (⟨p, ⟨mem, immediate⟩, rfl⟩ | ⟨p, ⟨mem, deferred⟩, rfl⟩)
    · exact ⟨p, mem, rfl, .inl immediate⟩
    · exact ⟨p, mem, rfl, .inr deferred⟩
  · rintro ⟨p, mem, rfl, immediate | deferred⟩
    · exact .inl ⟨p, ⟨mem, immediate⟩, rfl⟩
    · exact .inr ⟨p, ⟨mem, deferred⟩, rfl⟩

end

def calling (base : Node) (method : String) (args : List Node) : Node :=
  ⟨default, .call ⟨default, .member base ⟨method, "", none, false⟩⟩ (args.map (⟨·, .pos, none⟩)) none⟩

def assigning (x : String) (e : Node) : Node := ⟨default, .assignment [knownAs x x] e⟩

def functionOf (stmts : List Node) : Node :=
  ⟨default, .function "f" [] ⟨default, .block stmts⟩ default⟩

theorem wellFormed_calling {base : Node} {method : String} {args : List Node}
    (h : base.WellFormed) (below : ∀ a ∈ args, a.WellFormed) : (calling base method args).WellFormed := by
  have member : Node.WellFormed ⟨default, .member base ⟨method, "", none, false⟩⟩ := by
    rw [wellFormed_iff]
    exact ⟨rfl, by simpa [children] using h⟩
  rw [calling, wellFormed_iff]
  refine ⟨rfl, ?_⟩
  simpa [children] using ⟨member, below⟩

theorem wellFormed_calling_knownAs (x method : String) :
    (calling (knownAs x x) method []).WellFormed :=
  wellFormed_calling (wellFormed_knownAs x x) (List.forall_mem_nil _)

theorem wellFormed_assigning {x : String} (h : e.WellFormed) : (assigning x e).WellFormed := by
  rw [assigning, wellFormed_iff]
  exact ⟨rfl, by simp [children, h, wellFormed_knownAs]⟩

theorem wellFormed_functionOf {first : Node} {rest : List Node}
    (h : ∀ s ∈ first :: rest, s.WellFormed) : (functionOf (first :: rest)).WellFormed := by
  have block : Node.WellFormed ⟨default, .block (first :: rest)⟩ := by
    rw [wellFormed_iff]
    exact ⟨rfl, h⟩
  rw [functionOf, wellFormed_iff]
  exact ⟨rfl, by simp [children, functionParts, block]⟩

/-- A call on a variable, with arguments that do not mention it, chains onto it. -/
theorem continues_calling {method : String} {args : List Node} (below : ∀ a ∈ args, a.WellFormed)
    (other : occurrencesIn v args = 0) : continues v (calling (knownAs v v) method args) = .ok true := by
  have walked : (calling (knownAs v v) method args).readCount v = .ok 1 := by
    rw [readCount_eq_ok_iff]
    refine ⟨(wellFormed_calling (wellFormed_knownAs v v) below).succeeds_entries _, ?_⟩
    simp [calling, knownAs, occurrences_eq, held, Node.shape, isNameOf, Function.comp_def, other]
  have spelled : (v == v) = true := beq_self_eq_true v
  change (if v == v then ((calling (knownAs v v) method args).readCount v).map (· == 1) else .ok false) = _
  rw [if_pos spelled, walked]
  rfl

/-- In `a = x.first()`, `b = a.second()`, `c = b.third()`, `a`, the third statement chains onto a
variable that is not mentioned any more. -/
theorem chained_assignment_reported_in_function :
    let first := assigning "a" (calling (knownAs "x" "x") "first" [])
    let second := assigning "b" (calling (knownAs "a" "a") "second" [])
    let third := assigning "c" (calling (knownAs "b" "b") "third" [])
    let final : Node := ⟨default, .expression (knownAs "a" "a")⟩
    let n := functionOf [first, second, third, final]
    n.WellFormed ∧
      ∀ env, ∃ fs, fluentInterface env n = .ok fs ∧ ofNode third assignmentMessage ∈ fs := by
  intro first second third final n
  have last : final.WellFormed := by
    rw [wellFormed_iff]
    exact ⟨rfl, by simp [final, children, wellFormed_knownAs]⟩
  have wellFormed : n.WellFormed := by
    apply wellFormed_functionOf
    simp [wellFormed_assigning, wellFormed_calling_knownAs, last, first, second, third]
  refine ⟨wellFormed, fun env => ?_⟩
  obtain ⟨succeeds, reports⟩ :=
    @chained_assignments_reported env default "f" [] ⟨default, .block _⟩ default
  obtain ⟨fs, h⟩ := succeeds wellFormed
  have deferred : Place.Deferred ⟨[second, first], third, [final]⟩ := by
    refine ⟨"b", _, _, ⟨.assigned .intro rfl (by decide) (by decide), ?_⟩, .intro, by decide, ?_⟩
    · exact continues_calling (List.forall_mem_nil _) rfl
    · simp [final, knownAs, occurrences_eq, held, Node.shape, isNameOf]
  refine ⟨fs, h, ?_⟩
  rw [reports fs h]
  have report := report_mem (mem_places_iff.2 rfl) deferred
  rw [Place.report_of_assigns .intro] at report
  exact List.mem_append_right _ report

end IdiomLint.Rules.MethodChains
