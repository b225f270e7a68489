import IdiomLint.Proofs.ImplicitDefaults

/-! Calls of the functions of a class. The language may hand such a function a value before the
arguments of the call: the object, or the class. Which parameter an argument is compared with
depends on the form of the callee and the name of the first parameter alone, so that arguments are
compared with the right parameters if and only if these tell how many are handed over. -/
namespace IdiomLint.Rules.Defaults

open CallBinding

inductive MethodKind where
  | plain | ofClass | static
deriving DecidableEq

/-- How a call leads to a function of a class: to a maker of its objects by calling the class,
through a plain or a dotted name, or to a method on an object or on the class. -/
inductive ClassForm where
  | construction (maker : String) (dotted : Bool)
  | onInstance
  | onClass

/-- How many values the language hands over before the arguments. A class is handed to what
allocates its objects however that is declared, and once more if it is a method of the class. -/
def ClassForm.hands : ClassForm → MethodKind → Nat
  | .construction maker _, kind =>
    if maker == "__new__" then 1 + (kind == .ofClass).toNat else (kind != .static).toNat
  | .onInstance, kind => (kind != .static).toNat
  | .onClass, kind => (kind == .ofClass).toNat

def ClassForm.dotted : ClassForm → Bool
  | .construction _ dotted => dotted
  | .onInstance | .onClass => true

/-- A call whose callee leads to a function of a class. -/
inductive ClassCall (env : Env) : Node → ClassForm → SymbolId → Prop where
  | construction {callee : Node} {cls symbol : SymbolId} {info : ClassInfo} {maker : String}
      (called : calledSymbol? env callee = some cls) (known : env.table.get cls = .cls info)
      (isMaker : maker ∈ makers) (member : info.members.lookup maker = some (some symbol)) :
      ClassCall env callee (.construction maker callee.isMember) symbol
  | onVariable {i j : Info} {ref base : Ref} {binding : Binding} {cls : ClassRef} {types : List Ty}
      {info : ClassInfo} {symbol : SymbolId}
      (value : env.table.get binding.symbol = .value (some (.inst cls types)))
      (known : env.table.classInfo? cls.id = some info)
      (member : info.members.lookup ref.name = some (some symbol)) :
      ClassCall env ⟨i, .member ⟨j, .name base (some binding)⟩ ref⟩ .onInstance symbol
  | onNewObject {i j k : Info} {ref base : Ref} {binding : Binding} {args : List (CallArg Node)}
      {analyzed : Option Node} {info : ClassInfo} {symbol : SymbolId}
      (known : env.table.get binding.symbol = .cls info)
      (member : info.members.lookup ref.name = some (some symbol)) :
      ClassCall env ⟨i, .member ⟨j, .call ⟨k, .name base (some binding)⟩ args analyzed⟩ ref⟩
        .onInstance symbol
  | onClass {i j : Info} {ref base : Ref} {binding : Binding} {info : ClassInfo} {symbol : SymbolId}
      (known : env.table.get binding.symbol = .cls info)
      (member : info.members.lookup ref.name = some (some symbol)) :
      ClassCall env ⟨i, .member ⟨j, .name base (some binding)⟩ ref⟩ .onClass symbol

theorem ClassCall.isMember {env : Env} {callee : Node} {form : ClassForm} {symbol : SymbolId}
    (call : ClassCall env callee form symbol) : callee.isMember = form.dotted := by
  cases call <;> rfl

theorem zipIdx_drop_eq_iff {params : List (Param Node)} {n m : Nat} :
    params.zipIdx.drop n = params.zipIdx.drop m ↔ params.length ≤ min n m ∨ n = m := by
  constructor
  · intro same
    have lengths := congrArg List.length same
    simp only [List.length_drop, List.length_zipIdx] at lengths
    omega
  · rintro (short | rfl)
    · rw [List.drop_eq_nil_of_le (by simp; omega), List.drop_eq_nil_of_le (by simp; omega)]
    · rfl

theorem Target.slots_eq_iff (t : Target) (callee : Node) {n : Nat} :
    (∀ j : Nat, (t.slots callee)[j]? = t.params.zipIdx[n + j]?) ↔
      t.params.length ≤ min (callee.isMember && t.namesReceiver).toNat n ∨
        (callee.isMember && t.namesReceiver).toNat = n := by
  rw [← zipIdx_drop_eq_iff, ← t.slots_eq_drop]
  constructor
  · intro each
    refine List.ext_getElem? fun j => ?_
    rw [each j, List.getElem?_drop]
  · intro same j
    rw [same, List.getElem?_drop]

section

variable {env : Env} {callee : Node} {args : List (CallArg Node)}

/-- What is found and noted where no function is judged, or one. -/
def Yields (env : Env) (callee : Node) (args : List (CallArg Node)) (ts : List Target)
    (notes : Notes) (r : List Finding × Notes) : Prop :=
  (ts = [] → r = ([], notes)) ∧ ∀ t, ts = [t] → r = t.judge env callee args notes

theorem yields_nil (notes : Notes) : Yields env callee args [] notes ([], notes) :=
  ⟨fun _ => rfl, fun _ h => by cases h⟩

/-- The judgement of one function, whether others are skipped for it or there are none. -/
theorem yields_judge (t : Target) (ts : List Target) (notes : Notes) :
    Yields env callee args (t :: ts) notes (t.judge env callee args notes) := by
  constructor
  · intro none
    cases none
  · intro u one
    cases one
    rfl

theorem Yields.append {ts us : List Target} {notes m m' : Notes} {found more : List Finding}
    (first : Yields env callee args ts notes (found, m))
    (second : Yields env callee args us m (more, m')) :
    Yields env callee args (ts ++ us) notes (found ++ more, m') := by
  constructor
  · intro none
    obtain ⟨noTs, noUs⟩ := List.append_eq_nil_iff.1 none
    cases first.1 noTs
    cases second.1 noUs
    rfl
  · intro t one
    rcases List.append_eq_singleton_iff.1 one with ⟨noTs, oneU⟩ | ⟨oneT, noUs⟩
    · cases first.1 noTs
      exact second.2 t oneU
    · cases second.1 noUs
      rw [List.append_nil, first.2 t oneT]

theorem yields_judgeOverloads (symbol : SymbolId) (i : Nat) (items : List Overload)
    (notes : Notes) :
    Yields env callee args (overloadTargets symbol i items) notes
      (judgeOverloads env callee args symbol i items notes) := by
  induction items generalizing i notes with
  | nil => exact yields_nil notes
  | cons item rest ih =>
    unfold overloadTargets judgeOverloads
    split
    case isFalse => exact ih (i + 1) notes
    case isTrue =>
      dsimp only
      generalize judged : Target.judge ⟨symbol, some i, item.params⟩ env callee args notes = r
      obtain ⟨found, m⟩ := r
      split
      case isTrue empty =>
        cases List.isEmpty_iff.1 empty
        exact (judged ▸ yields_judge _ [] notes).append (ih (i + 1) m)
      case isFalse => exact judged ▸ yields_judge _ _ notes

theorem yields_foldlM {step : List Finding × Notes → String → Except Fault (List Finding × Notes)}
    {leadsTo : String → List Target}
    (each : ∀ s maker r, step s maker = .ok r →
      ∃ more, r.1 = s.1 ++ more ∧ Yields env callee args (leadsTo maker) s.2 (more, r.2))
    {makers : List String} {s r : List Finding × Notes} (run : makers.foldlM step s = .ok r) :
    ∃ more, r.1 = s.1 ++ more ∧
      Yields env callee args (makers.flatMap leadsTo) s.2 (more, r.2) := by
  induction makers generalizing s with
  | nil =>
    cases run
    exact ⟨[], (List.append_nil _).symm, yields_nil _⟩
  | cons maker makers ih =>
    rw [List.foldlM_cons] at run
    obtain ⟨m, first, rest⟩ := bind_eq_ok run
    obtain ⟨found, added, here⟩ := each s maker m first
    obtain ⟨more, addedMore, below⟩ := ih rest
    refine ⟨found ++ more, ?_, here.append below⟩
    rw [addedMore, added, List.append_assoc]

/-- What a symbol is judged with. -/
theorem yields_judgeSymbol {fuel : Nat} {symbol : SymbolId} {notes : Notes}
    {r : List Finding × Notes} (run : judgeSymbol env callee args fuel symbol notes = .ok r) :
    Yields env callee args (targets env fuel symbol) notes r := by
  induction fuel generalizing symbol notes r with
  | zero =>
    cases run
    exact yields_nil notes
  | succ fuel ih =>
    unfold judgeSymbol at run
    unfold targets functions
    cases known : env.table.get symbol with
    | function type params =>
      simp only [known] at run
      cases run
      exact yields_judge _ [] notes
    | decorated params =>
      simp only [known] at run
      cases run
      exact yields_judge _ [] notes
    | overloaded items implementation =>
      simp only [known] at run
      have overloads : Yields env callee args (overloadTargets symbol 0 items) notes
          (judgeOverloads env callee args symbol 0 items notes) :=
        yields_judgeOverloads symbol 0 items notes
      cases implementation with
      | none =>
        cases run
        simpa using overloads
      | some f =>
        cases run
        exact overloads.append (yields_judge _ [] _)
    | cls info =>
      simp only [known] at run
      have whole {ts : List Target} (h : ∃ more, r.1 = [] ++ more ∧
          Yields env callee args ts notes (more, r.2)) : Yields env callee args ts notes r := by
        obtain ⟨more, added, yields⟩ := h
        rw [List.nil_append] at added
        rwa [← added] at yields
      refine whole (yields_foldlM (fun s maker r step => ?_) run)
      obtain ⟨found, m⟩ := s
      dsimp only at step
      split at step
      case h_1 absent =>
        cases step
        simp only [absent]
        exact ⟨[], (List.append_nil _).symm, yields_nil _⟩
      case h_2 => cases step
      case h_3 id member =>
        obtain ⟨⟨more, m'⟩, judged, same⟩ := bind_eq_ok step
        cases same
        simp only [member]
        exact ⟨more, rfl, ih judged⟩
    | _ =>
      simp only [known] at run
      cases run
      exact yields_nil notes

theorem implicitDefault_of_reached {t : Target} (complete : env.table.Complete)
    (only : reached env callee = [t]) (notes : Notes) (i : Info) (analyzed : Option Node) :
    implicitDefault env notes ⟨i, .call callee args analyzed⟩ =
      .ok (t.judge env callee args notes) := by
  obtain ⟨r, run⟩ := succeeds_implicitDefault complete ⟨i, .call callee args analyzed⟩ notes
  rw [run]
  unfold reached at only
  unfold implicitDefault at run
  split at only
  case h_1 symbol called =>
    simp only [called] at run
    rw [(yields_judgeSymbol run).2 t only]
  case h_2 => cases only

end

/-- Whether a dot in the callee and the name of the first parameter tell rightly how many values
the language hands over, or all parameters are for these. -/
def ClassForm.Tells (form : ClassForm) (kind : MethodKind) (t : Target) : Prop :=
  let told := (form.dotted && t.namesReceiver).toNat
  t.params.length ≤ min told (form.hands kind) ∨ told = form.hands kind

/-- A function of a class, called in any form. Its arguments that are passed by position are
compared with the parameters that receive them if and only if the form of the call tells rightly
how many values are handed over. Then, or where no argument that is passed by position is reported,
the arguments that are reported for the function can be left out together. These are all that are
reported if the call leads to no other function. -/
theorem class_call_arguments_removable {env : Env} (complete : env.table.Complete) {callee : Node}
    {form : ClassForm} {t : Target} (call : ClassCall env callee form t.symbol) (kind : MethodKind)
    {args : List (CallArg Node)} (written : WrittenCall args) {Value : Type} {handed : List Value}
    (hands : handed.length = form.hands kind) (notes : Notes) :
    let judged := t.judge env callee args notes
    ((∀ j : Nat, (t.slots callee)[j]? = t.params.zipIdx[handed.length + j]?) ↔
        form.Tells kind t) ∧
      (reached env callee = [t] → ∀ i analyzed,
        implicitDefault env notes ⟨i, .call callee args analyzed⟩ = .ok judged) ∧
      ∀ (nameable : Param Node → Bool) (contents : Contents Value) before,
        Declared nameable (t.known judged.2) →
        call? nameable (t.known judged.2) handed contents args = some before →
        (form.Tells kind t ∧ ∀ p ∈ t.params.take handed.length, p.kind ≠ .star) ∨
          (∀ a ∈ args, a.kind = .pos → isReported judged.1 a.value = false) →
        ∃ after, call? nameable (t.known judged.2) handed contents
            (args.filter (!isReported judged.1 ·.value)) = some after ∧
          List.Forall₂ (Survives (goesWith (isReported judged.1))) before after := by
  intro judged
  have tells : (∀ j : Nat, (t.slots callee)[j]? = t.params.zipIdx[handed.length + j]?) ↔
      form.Tells kind t := by
    rw [hands, t.slots_eq_iff, call.isMember, ClassForm.Tells]
  refine ⟨tells, fun only i analyzed => implicitDefault_of_reached complete only notes i analyzed,
    fun nameable contents before declared accepted safe => ?_⟩
  refine exists_call?_redundantArgs rfl declared written (t.slots_subset callee) ?_ accepted
  refine safe.imp_left fun ⟨told, single⟩ => ⟨?_, fun s hs => ?_⟩
  · refine List.ext_getElem? fun j => ?_
    rw [tells.2 told j, List.getElem?_drop]
  · have taken : s.1 ∈ (t.params.zipIdx.take handed.length).map (·.1) := List.mem_map_of_mem hs
    rw [List.map_take, List.zipIdx_map_fst] at taken
    exact single s.1 taken

def pairParams : List (Param Node) :=
  [declaring "self" .pos none, declaring "a" .opt (some 1), declaring "b" .opt (some 2)]

def pairClass : ClassInfo :=
  ⟨⟨"C", "m.C"⟩, [], [("__init__", some "C.__init__"), ("f", some "C.f")], [], "C"⟩

def pairEnv : Env where
  table := ⟨(((∅ : Std.HashMap SymbolId Symbol).insert "C" (.cls pairClass)).insert "C.__init__"
    (.function none pairParams)).insert "C.f" (.function none pairParams),
    (∅ : Std.HashMap String SymbolId).insert "tuple" "builtins.tuple"⟩
  version := ⟨3, 10⟩
  files := []

def pairName : Node := ⟨default, .name ⟨"C", "m.C", none, false⟩ (some ⟨"C", false⟩)⟩

theorem get_pairClass : pairEnv.table.get "C" = .cls pairClass := by
  simp [pairEnv, SymbolTable.get, Std.HashMap.getD_insert]

theorem get_pairMaker : pairEnv.table.get "C.__init__" = .function none pairParams := by
  simp [pairEnv, SymbolTable.get, Std.HashMap.getD_insert]

theorem get_pairMethod : pairEnv.table.get "C.f" = .function none pairParams := by
  simp [pairEnv, SymbolTable.get]

theorem complete_pairEnv : pairEnv.table.Complete where
  tuple := by
    simp [pairEnv, SymbolTable.builtinClass?, SymbolTable.classInfo?, SymbolTable.get,
      Std.HashMap.getD_insert]
  member := by
    intro id info name known
    simp only [pairEnv, SymbolTable.get, Std.HashMap.getD_insert, Std.HashMap.getD_empty] at known
    split at known
    · cases known
    split at known
    · cases known
    split at known
    · cases known
      simp only [pairClass, List.lookup_cons, List.lookup_nil]
      split
      · simp
      · split <;> simp
    · cases known
      simp [ClassInfo.bare]

theorem targets_of_function {env : Env} {symbol : SymbolId} {type : Option Ty}
    {params : List (Param Node)} (known : env.table.get symbol = .function type params)
    (fuel : Nat) : targets env (fuel + 1) symbol = [⟨symbol, none, params⟩] := by
  simp only [targets, functions, known]

theorem reached_pairName : reached pairEnv pairName = [⟨"C.__init__", none, pairParams⟩] := by
  have size : pairEnv.table.symbols.size = 3 := by
    simp [pairEnv, Std.HashMap.size_insert]
  have called : calledSymbol? pairEnv pairName = some "C" := rfl
  have noNew : pairClass.members.lookup "__new__" = none := rfl
  have init : pairClass.members.lookup "__init__" = some (some "C.__init__") := rfl
  rw [reached, called, size]
  dsimp only
  rw [targets, get_pairClass]
  simp only [makers, List.flatMap_cons, List.flatMap_nil, noNew, init,
    targets_of_function get_pairMaker, List.nil_append, List.append_nil]

/-- The method on a new object: `C().f(7, 2)`. -/
theorem class_call_arguments_removable_method :
    let t : Target := ⟨"C.f", none, pairParams⟩
    let args : List (CallArg Node) := [⟨numberAt 6 7, .pos, none⟩, ⟨numberAt 9 2, .pos, none⟩]
    let callee : Node := ⟨default, .member ⟨default, .call pairName [] none⟩ ⟨"f", "", none, false⟩⟩
    let found := [report (numberAt 9 2)]
    let contents : Contents Unit := ⟨fun _ => [], fun _ => []⟩
    ClassCall pairEnv callee .onInstance t.symbol ∧ ClassForm.onInstance.Tells .plain t ∧
      implicitDefault pairEnv {} ⟨default, .call callee args none⟩ = .ok (found, {}) ∧
      ∃ before after, call? (fun _ => true) pairParams [()] contents args = some before ∧
        call? (fun _ => true) pairParams [()] contents [⟨numberAt 6 7, .pos, none⟩] = some after ∧
        List.Forall₂ (Survives (goesWith (isReported found))) before after := by
  intro t args callee found contents
  have call : ClassCall pairEnv callee .onInstance t.symbol := .onNewObject get_pairClass rfl
  have tells : ClassForm.onInstance.Tells .plain t := .inr rfl
  have written : WrittenCall args := by
    refine ⟨?_, ?_⟩ <;> simp [args, span_numberAt, PlacedFirst]
  have hands : ([()] : List Unit).length = ClassForm.onInstance.hands .plain := rfl
  have judged : t.judge pairEnv callee args {} = (found, {}) := rfl
  have known : t.known {} = pairParams := t.known_of_untaught (by simp)
  have only : reached pairEnv callee = [t] := by
    have called : calledSymbol? pairEnv callee = some "C.f" := by
      have member : pairClass.members.lookup "f" = some (some "C.f") := rfl
      simp [callee, pairName, calledSymbol?, classBehind?, get_pairClass, member]
    rw [reached, called]
    exact targets_of_function get_pairMethod _
  have declared : Declared (fun _ => true) pairParams := by
    refine ⟨?_, ?_, ?_, ?_⟩ <;> simp [pairParams, declaring, ArgKind.place, ArgKind.gathers]
  obtain ⟨-, run, removable⟩ :=
    class_call_arguments_removable complete_pairEnv call .plain written hands {}
  simp only [judged, known] at run removable
  obtain ⟨before, accepted⟩ : ∃ before, call? (fun _ => true) pairParams [()] contents args =
      some before := ⟨_, rfl⟩
  obtain ⟨after, stillAccepted, survive⟩ := removable _ contents before declared accepted
    (.inl ⟨tells, by simp [t, pairParams, declaring]⟩)
  exact ⟨call, tells, run only _ _, before, after, accepted, stillAccepted, survive⟩

/-- An object that is made by calling the class: in `C(2, 1)` the second number is for `b`, and is
reported as the default of `a`. Without it, `b` is another number. -/
theorem construction_reports_needed_argument :
    let args : List (CallArg Node) := [⟨numberAt 2 2, .pos, none⟩, ⟨numberAt 5 1, .pos, none⟩]
    let contents : Contents Unit := ⟨fun _ => [], fun _ => []⟩
    let receiving := fun b =>
      pairParams.zip [.one (.unpacked ()), .one (.written (numberAt 2 2)), b]
    ClassCall pairEnv pairName (.construction "__init__" false) "C.__init__" ∧
      implicitDefault pairEnv {} ⟨default, .call pairName args none⟩ =
        .ok ([report (numberAt 5 1)], {}) ∧
      call? (fun _ => true) pairParams [()] contents args =
        some (receiving (.one (.written (numberAt 5 1)))) ∧
      call? (fun _ => true) pairParams [()] contents [⟨numberAt 2 2, .pos, none⟩] =
        some (receiving .byDefault) ∧
      (numberAt 5 1).equivalent (intNode 2) = false := by
  intro args contents receiving
  have call : ClassCall pairEnv pairName (.construction "__init__" false) "C.__init__" :=
    .construction rfl get_pairClass (by simp [makers]) rfl
  refine ⟨call, ?_, rfl, rfl, rfl⟩
  rw [implicitDefault_of_reached complete_pairEnv reached_pairName]
  rfl

end IdiomLint.Rules.Defaults
