import IdiomLint.Catalogue
import IdiomLint.Proofs.CheckRuns
import IdiomLint.Proofs.FaultFreeRules

/-! Runs that end in no fault. Over a well-formed tree with a complete symbol table, neither nested
too deeply nor with numbers that are too long to be written, a run of the checks that come with the
program ends in no fault, unless the tree holds a second test of a type that is given no value and
the check for such tests is among those that run. -/
namespace IdiomLint

open Rules Rules.TypeTests

def Judge.isPlain : Judge → Bool
  | .plain _ => true
  | _ => false

theorem Judge.succeeds_of_isPlain {j : Judge} (h : j.isPlain) (env : Env) (notes : Notes)
    (n : Node) : Succeeds (j.run env notes n) := by
  cases j with
  | plain f => exact succeeds_ok _
  | fallible f => cases h
  | noting f => cases h

namespace Catalogue

theorem filter_not_isPlain : builtin.filter (fun c => !c.judge.isPlain) =
    [Loops.dictItems, Loops.enumeration, Containers.sliceCopy, TypeTests.sameValueTests,
      OpenFiles.writeLines, ControlFlow.redundantContinue, ControlFlow.redundantReturn,
      ControlFlow.elseReturn, Defaults.implicitDefault, OpenFiles.iteratedLines,
      Comprehensions.flattening, Comprehensions.starmap, MethodChains.fluentInterface,
      Comparisons.dictKeys, Containers.copyBeforeMerge, Emptiness.lengthTest,
      Comprehensions.listLoop, Containers.dictUnion, Functions.functionName,
      Interpolation.singleField, Affixes.cutAffix] := rfl

end Catalogue

variable {env : Env} {c : Check} {n : Node}

theorem Check.succeeds_judge (hc : c ∈ Catalogue.builtin)
    (other : c ≠ Catalogue.TypeTests.sameValueTests) (h : n.WellFormed)
    (complete : env.table.Complete) (notes : Notes) : Succeeds (c.judge.run env notes n) := by
  by_cases plain : c.judge.isPlain
  · exact Judge.succeeds_of_isPlain plain env notes n
  · have listed : c ∈ Catalogue.builtin.filter fun c => !c.judge.isPlain := by
      simp [hc, plain]
    rw [Catalogue.filter_not_isPlain] at listed
    simp only [List.mem_cons, List.not_mem_nil, or_false] at listed
    rcases listed with rfl | rfl | rfl | rfl | rfl | rfl | rfl | rfl | rfl | rfl | rfl | rfl | rfl
      | rfl | rfl | rfl | rfl | rfl | rfl | rfl | rfl
    · exact succeeds_map_iff.2 (Loops.succeeds_dictItems complete h)
    · exact succeeds_map_iff.2 (Loops.succeeds_enumeration complete h)
    · exact succeeds_map_iff.2 (Containers.succeeds_sliceCopy h)
    · exact absurd rfl other
    · exact succeeds_map_iff.2 (OpenFiles.succeeds_writeLines complete n)
    · exact succeeds_map_iff.2 (ControlFlow.succeeds_redundantContinue h)
    · exact succeeds_map_iff.2 (ControlFlow.succeeds_redundantReturn h)
    · exact succeeds_map_iff.2 (ControlFlow.succeeds_elseReturn h)
    · exact Defaults.succeeds_implicitDefault complete n notes
    · exact succeeds_map_iff.2 (OpenFiles.succeeds_iteratedLines complete n)
    · exact Comprehensions.succeeds_flattening env n notes
    · exact Comprehensions.succeeds_starmap env n notes
    · exact succeeds_map_iff.2 (MethodChains.succeeds_fluentInterface h)
    · exact succeeds_map_iff.2 (Comparisons.succeeds_dictKeys complete n)
    · exact succeeds_ok _
    · exact succeeds_map_iff.2 (Emptiness.succeeds_lengthTest complete h)
    · exact succeeds_map_iff.2 (Comprehensions.succeeds_listLoop h)
    · exact succeeds_map_iff.2 (Containers.succeeds_dictUnion complete n)
    · exact succeeds_map_iff.2 (Functions.succeeds_functionName h)
    · exact Interpolation.succeeds_singleField env h notes
    · exact Affixes.succeeds_cutAffix h notes

/-- The only fault that a check that comes with the program can meet. -/
theorem Check.judge_eq_error_iff (hc : c ∈ Catalogue.builtin) (h : n.WellFormed)
    (complete : env.table.Complete) (notes : Notes) (f : Fault) :
    c.judge.run env notes n = .error f ↔
      c = Catalogue.TypeTests.sameValueTests ∧ testsNothing n ∧ f = .outOfRange := by
  by_cases same : c = Catalogue.TypeTests.sameValueTests
  · subst same
    cases tests : testsNothing n with
    | true =>
      have fault : sameValueTests env n = .error .outOfRange := sameValueTests_of_testsNothing tests
      simp [Catalogue.TypeTests.sameValueTests, Judge.run, fault, Except.map, eq_comm]
    | false =>
      have fine : Succeeds (Catalogue.TypeTests.sameValueTests.judge.run env notes n) :=
        succeeds_map_iff.2 (succeeds_sameValueTests tests)
      simpa using succeeds_iff_ne_error.1 fine f
  · have fine := Check.succeeds_judge hc same h complete notes
    simpa [same] using succeeds_iff_ne_error.1 fine f

section

variable {checks : List Check} {t : Node} (h : t.WellFormed) (complete : env.table.Complete)
  (builtin : ∀ c ∈ checks, c ∈ Catalogue.builtin)
include h complete builtin

/-- What a step of a run that meets a fault is, and what the fault is. -/
theorem step_eq_error_iff {a : Action Check} (ha : a ∈ (Registry.ofChecks checks).accept t)
    (s : RunState) (f : Fault) :
    a.step env s = .error f ↔
      ∃ n cls, a = .invoke ⟨n, cls, Catalogue.TypeTests.sameValueTests⟩ ∧ testsNothing n
        ∧ f = .outOfRange := by
  rcases Registry.mem_accept_iff.1 ha with ⟨n, cls, c, rfl, entered, -, hc⟩ | ⟨g, rfl, met⟩
  · obtain ⟨m, hm, within⟩ := h.enters .checking entered
    cases hm
    rw [Registry.checksOf_ofChecks, List.mem_filter] at hc
    have judged := Check.judge_eq_error_iff (builtin c hc.1) (h.within within) complete
      (s.memory.get c.code) f
    simp only [Action.step, Check.runOn_eq, map_eq_error_iff, judged]
    constructor
    · rintro ⟨rfl, tests, rfl⟩
      exact ⟨n, cls, rfl, tests, rfl⟩
    · rintro ⟨n, cls, same, tests, rfl⟩
      cases same
      exact ⟨rfl, tests, rfl⟩
  · obtain ⟨m, hm, -⟩ := h.enters .checking met
    cases hm

theorem succeeds_runTree_iff (s : RunState) :
    Succeeds (runTree checks env s t) ↔
      (Catalogue.TypeTests.sameValueTests ∈ checks →
        ∀ n, .enter n ∈ t.events .checking → testsNothing n = false) := by
  have step (s : RunState) (a : Action Check) (ha : a ∈ (Registry.ofChecks checks).accept t) :
      Succeeds (a.step env s) ↔
        ∀ n cls, a = .invoke ⟨n, cls, Catalogue.TypeTests.sameValueTests⟩ →
          testsNothing n = false := by
    simp only [succeeds_iff_ne_error, ne_eq, step_eq_error_iff h complete builtin ha s]
    constructor
    · intro fine n cls same
      cases tests : testsNothing n with
      | false => rfl
      | true => exact absurd ⟨n, cls, same, tests, rfl⟩ (fine .outOfRange)
    · rintro fine f ⟨n, cls, same, tests, -⟩
      simp [fine n cls same] at tests
  rw [runTree_eq, succeeds_foldlM_iff step]
  constructor
  · intro all loaded n entered
    cases tests : testsNothing n with
    | false => rfl
    | true =>
      have class_ := classes_of_testsNothing tests
      have asked : Catalogue.TypeTests.sameValueTests ∈
          (Registry.ofChecks checks).checksOf .binary := by
        rw [Registry.checksOf_ofChecks, List.mem_filter]
        exact ⟨loaded, rfl⟩
      rw [← tests]
      refine all _ (Registry.mem_accept_iff.2 (.inl ⟨n, .binary, _, rfl, entered, ?_, asked⟩)) n
        .binary rfl
      simp [class_]
  · rintro each a ha n cls rfl
    rcases Registry.mem_accept_iff.1 ha with ⟨m, cls, c, same, entered, -, hc⟩ | ⟨f, same, -⟩
    · cases same
      rw [Registry.checksOf_ofChecks, List.mem_filter] at hc
      exact each hc.1 n entered
    · cases same

theorem eq_outOfRange_of_runTree {s : RunState} {f : Fault}
    (fault : runTree checks env s t = .error f) : f = .outOfRange := by
  rw [runTree_eq] at fault
  obtain ⟨s', a, ha, met⟩ := exists_of_foldlM_eq_error fault
  obtain ⟨n, cls, -, -, outOfRange⟩ := (step_eq_error_iff h complete builtin ha s' f).1 met
  exact outOfRange

theorem runTree_of_testsNothing (loaded : Catalogue.TypeTests.sameValueTests ∈ checks)
    (entered : .enter n ∈ t.events .checking) (tests : testsNothing n) (s : RunState) :
    runTree checks env s t = .error .outOfRange := by
  cases run : runTree checks env s t with
  | error f => rw [eq_outOfRange_of_runTree h complete builtin run]
  | ok s' =>
    have fine := (succeeds_runTree_iff h complete builtin s).1 ⟨s', run⟩ loaded n entered
    simp [tests] at fine

end

/-- Whether at most so many types stand inside each other in a type. -/
def Ty.isBounded : Nat → Ty → Bool
  | 0, _ => false
  | levels + 1, .inst _ args => args.all (isBounded levels)
  | levels + 1, .callable result => result.all (isBounded levels)
  | _ + 1, _ => true

namespace Node

/-- Whether the numbers of a node, its line and its value, have few enough digits to be written. -/
def isWritable (n : Node) : Bool :=
  Text.isWritable n.info.span.line && match n.shape with
    | .int value => Text.isWritable value
    | _ => true

/-- The type that is written with a node. -/
def target? (n : Node) : Option Ty :=
  match n.shape with
  | .cast _ target | .assertType _ target => target
  | _ => none

/-- Whether at most so many nodes and types of a tree stand one below the other, and all numbers in
it can be written. -/
def isBounded : Nat → Node → Bool
  | 0, _ => false
  | levels + 1, n => n.isWritable && n.target?.all (Ty.isBounded levels)
      && (n.children .calleeFirst).all (isBounded levels)

end Node

/-- A walk and then a check make up to five calls for each level of a tree, the check five more for
each level of a default and one for each symbol on the way to it. There is room for a thousand calls
inside each other, and so for this depth. -/
def maxDepth : Nat := 80

def hasBoundedDefaults (params : List (Param Node)) : Bool :=
  params.all fun p => p.initial.all (Node.isBounded maxDepth)

/-- Whether a symbol leads through at most so many others, an alias to its target and a class to
what makes its objects, and the defaults it leads to are bounded. -/
def SymbolTable.isBounded (table : SymbolTable) : Nat → SymbolId → Bool
  | 0, _ => false
  | count + 1, id =>
    match table.get id with
    | .typeAlias (some (.aliased (some next))) => table.isBounded count next
    | .cls info =>
      Rules.Defaults.makers.all fun maker =>
        (info.members.lookup maker).join.all (table.isBounded count)
    | .function _ params => hasBoundedDefaults params
    | .decorated params => hasBoundedDefaults params
    | .overloaded items implementation =>
      (items ++ implementation.toList).all fun item => hasBoundedDefaults item.params
    | _ => true

/-- A tree, a symbol table and a memory that a run can take in: nothing is missing from them, and
nothing in them is too large. -/
structure Env.Manages (env : Env) (s : RunState) (t : Node) : Prop where
  wellFormed : t.WellFormed
  complete : env.table.Complete
  bounded : t.isBounded maxDepth
  symbols : ∀ id, env.table.isBounded maxDepth id
  memory : ∀ notes ∈ s.memory, ∀ d ∈ notes.2.defaults, d.2.isBounded maxDepth

/-- The name of a variable or function of the language that nothing is known about. -/
def knownAs (name fullname : String) : Node := ⟨default, .name ⟨name, fullname, none, false⟩ none⟩

/-- `isinstance(x, x) or isinstance(…)`, the second call with the given arguments. -/
def askedTwice (args : List (CallArg Node)) : Node :=
  let isinstance := knownAs "isinstance" "builtins.isinstance"
  let x : CallArg Node := ⟨knownAs "x" "x", .pos, none⟩
  ⟨default, .binary .or ⟨default, .call isinstance [x, x] none⟩
    ⟨default, .call isinstance args none⟩ none none⟩

def askingTwice (args : List (CallArg Node)) : Node :=
  ⟨default, .file "" [⟨default, .expression (askedTwice args)⟩]⟩

theorem wellFormed_knownAs (name fullname : String) : (knownAs name fullname).WellFormed := by
  rw [Node.wellFormed_iff]
  exact ⟨rfl, nofun⟩

theorem wellFormed_askingTwice {args : List (CallArg Node)}
    (h : ∀ a ∈ args, a.value.WellFormed) : (askingTwice args).WellFormed := by
  have call {args : List (CallArg Node)} (h : ∀ a ∈ args, a.value.WellFormed) :
      (⟨default, .call (knownAs "isinstance" "builtins.isinstance") args none⟩ : Node).WellFormed := by
    rw [Node.wellFormed_iff]
    refine ⟨rfl, ?_⟩
    simpa [Node.children, wellFormed_knownAs] using h
  have tests : (askedTwice args).WellFormed := by
    rw [Node.wellFormed_iff]
    refine ⟨rfl, ?_⟩
    simpa [askedTwice, Node.children, call h] using call (by simp [wellFormed_knownAs])
  have stmt : (⟨default, .expression (askedTwice args)⟩ : Node).WellFormed := by
    rw [Node.wellFormed_iff]
    exact ⟨rfl, by simpa [Node.children] using tests⟩
  rw [askingTwice, Node.wellFormed_iff]
  exact ⟨rfl, by simpa [Node.children] using stmt⟩

theorem entered_askingTwice (args : List (CallArg Node)) :
    .enter (askedTwice args) ∈ (askingTwice args).events .checking := by
  simp [askingTwice, askedTwice, Node.events_checking, Node.refusal.eq_3, Node.children]

theorem testsNothing_of_entered_askingTwice {n : Node} (entered :
    .enter n ∈ (askingTwice [⟨knownAs "y" "y", .pos, none⟩]).events .checking) :
    testsNothing n = false := by
  simp only [askingTwice, askedTwice, knownAs, Node.refusal.eq_3, Node.events_checking,
    Node.children, List.flatMap_cons, Option.toList_none, List.map_cons, List.map_nil,
    List.cons_append, List.nil_append, List.flatMap_nil, Node.complaint.eq_2, List.append_nil,
    List.mem_cons, Event.enter.injEq, List.not_mem_nil, or_false] at entered
  rcases entered with rfl | rfl | rfl | rfl | rfl | rfl | rfl | rfl | rfl | rfl
  all_goals rfl

def tupleOnly : SymbolTable := ⟨∅, (∅ : Std.HashMap String SymbolId).insert "tuple" "builtins.tuple"⟩

theorem complete_tupleOnly : tupleOnly.Complete where
  tuple := by
    simp [tupleOnly, SymbolTable.builtinClass?, SymbolTable.classInfo?, SymbolTable.get]
  member := by
    intro id info name known
    have bare : ClassInfo.bare id = info := by simpa [tupleOnly, SymbolTable.get] using known
    simp [← bare, ClassInfo.bare]

theorem manages_askingTwice {args : List (CallArg Node)} (h : ∀ a ∈ args, a.value.WellFormed)
    (bounded : (askingTwice args).isBounded maxDepth) (version : Version) :
    Env.Manages ⟨tupleOnly, version, []⟩ {} (askingTwice args) where
  wellFormed := wellFormed_askingTwice h
  complete := complete_tupleOnly
  bounded := bounded
  symbols := by
    intro id
    have plain : tupleOnly.get id = .cls (.bare id) := by simp [tupleOnly, SymbolTable.get]
    simp [maxDepth, SymbolTable.isBounded, plain, ClassInfo.bare]
  memory := by simp

/-- Whatever calls a tree that a run can take in holds, the checks that come with the program run
over it without a fault, unless the check for two tests of one value is among them and meets a
second test without a value. Then the fault is that test's missing argument. -/
theorem runTree_succeeds_iff {checks : List Check} {t : Node} {s : RunState}
    (h : env.Manages s t) (builtin : ∀ c ∈ checks, c ∈ Catalogue.builtin) :
    ((∃ s', runTree checks env s t = .ok s') ↔
      (Catalogue.TypeTests.sameValueTests ∈ checks →
        ∀ n, .enter n ∈ t.events .checking → testsNothing n = false)) ∧
    ∀ f, runTree checks env s t = .error f → f = .outOfRange :=
  ⟨succeeds_runTree_iff h.wellFormed h.complete builtin s,
    fun _ => eq_outOfRange_of_runTree h.wellFormed h.complete builtin⟩

/-- A second test with one argument, which is one too few. -/
theorem runTree_succeeds_iff_oneArgument :
    let env : Env := ⟨tupleOnly, ⟨3, 10⟩, []⟩
    let t := askingTwice [⟨knownAs "y" "y", .pos, none⟩]
    env.Manages {} t ∧ ∃ s', runTree Catalogue.builtin env {} t = .ok s' := by
  intro env t
  have manages : env.Manages {} t :=
    manages_askingTwice (by simp [wellFormed_knownAs]) (by decide +kernel) _
  have run := runTree_succeeds_iff manages fun _ hc => hc
  exact ⟨manages, run.1.2 fun _ _ => testsNothing_of_entered_askingTwice⟩

/-- A second test without arguments ends the run, although nothing is missing from the tree and
the symbol table, and nothing in them is too large. -/
theorem second_test_without_value_faults :
    let env : Env := ⟨tupleOnly, ⟨3, 10⟩, []⟩
    let t := askingTwice []
    env.Manages {} t ∧ runTree Catalogue.builtin env {} t = .error .outOfRange := by
  intro env t
  have manages : env.Manages {} t := manages_askingTwice (by simp) (by decide +kernel) _
  have loaded : Catalogue.TypeTests.sameValueTests ∈ Catalogue.builtin := by
    simp [Catalogue.builtin]
  exact ⟨manages, runTree_of_testsNothing manages.wellFormed manages.complete (fun _ hc => hc)
    loaded (entered_askingTwice []) rfl {}⟩

end IdiomLint
