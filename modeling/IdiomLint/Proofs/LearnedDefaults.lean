import IdiomLint.Proofs.CommandLine
import IdiomLint.Proofs.FaultFreeRules

/-! Defaults that one call teaches and another uses. A call teaches the known defaults of what it
shows to call, about all functions that it reaches. What is found about a later call is the same
without the earlier ones, as long as they teach nothing about the parameters it looks at that it
does not teach itself. -/
namespace IdiomLint.Rules.Defaults

/-- The defaults that a call with the given callee teaches about a function. -/
def Target.lessons (t : Target) (env : Env) (callee : Node) : List (ParamKey × Node) :=
  ((t.slots callee).zip ((knownDefaults.lookup (calledName env callee)).getD [])).filterMap
    fun (slot, d) => d.map fun value => (t.key slot, value)

/-- The parameters of a function that a call with the given callee looks at. -/
def Target.keys (t : Target) (callee : Node) : List ParamKey := (t.slots callee).map t.key

def overloadTargets (symbol : SymbolId) : Nat → List Overload → List Target
  | _, [] => []
  | i, item :: rest =>
    if item.decorated then ⟨symbol, some i, item.params⟩ :: overloadTargets symbol (i + 1) rest
    else overloadTargets symbol (i + 1) rest

def functions (env : Env) (symbol : SymbolId) : List Target :=
  match env.table.get symbol with
  | .function _ params => [⟨symbol, none, params⟩]
  | .decorated params => [⟨symbol, none, params⟩]
  | .overloaded items implementation =>
    overloadTargets symbol 0 items ++ implementation.toList.map fun f => ⟨symbol, none, f.params⟩
  | _ => []

/-- The functions behind a symbol. A class has those of its makers. -/
def targets (env : Env) : Nat → SymbolId → List Target
  | 0, _ => []
  | fuel + 1, symbol =>
    match env.table.get symbol with
    | .cls info => makers.flatMap fun maker =>
        match info.members.lookup maker with
        | some (some id) => targets env fuel id
        | _ => []
    | _ => functions env symbol

/-- The functions that a callee may stand for. -/
def reached (env : Env) (callee : Node) : List Target :=
  match calledSymbol? env callee with
  | some symbol => targets env (env.table.symbols.size + 1) symbol
  | none => []

def consulted (env : Env) : Node → List ParamKey
  | ⟨_, .call callee _ _⟩ => (reached env callee).flatMap fun t => t.keys callee
  | _ => []

def taught (env : Env) : Node → List ParamKey
  | ⟨_, .call callee _ _⟩ => (reached env callee).flatMap fun t => (t.lessons env callee).map (·.1)
  | _ => []

variable {env : Env} {callee : Node} {args : List (CallArg Node)}

theorem mem_overloadTargets {symbol : SymbolId} {items : List Overload} {i : Nat} {t : Target}
    (h : t ∈ overloadTargets symbol i items) :
    ∃ j item, items[j]? = some item ∧ t = ⟨symbol, some (i + j), item.params⟩ := by
  induction items generalizing i with
  | nil => cases h
  | cons item rest ih =>
    have later (h : t ∈ overloadTargets symbol (i + 1) rest) :
        ∃ j item', (item :: rest)[j]? = some item' ∧ t = ⟨symbol, some (i + j), item'.params⟩ := by
      obtain ⟨j, item', found, rfl⟩ := ih h
      exact ⟨j + 1, item', by simpa using found, by simp [Nat.add_assoc, Nat.add_comm 1]⟩
    unfold overloadTargets at h
    split at h
    · rcases List.mem_cons.1 h with rfl | h
      · exact ⟨0, item, rfl, rfl⟩
      · exact later h
    · exact later h

theorem eq_of_mem_functions {symbol : SymbolId} {t t' : Target} (h : t ∈ functions env symbol)
    (h' : t' ∈ functions env symbol) (variant : t.variant = t'.variant) : t = t' := by
  unfold functions at h h'
  split at h
  case h_1 type params known =>
    simp only [known] at h'
    rw [List.mem_singleton.1 h, List.mem_singleton.1 h']
  case h_2 params known =>
    simp only [known] at h'
    rw [List.mem_singleton.1 h, List.mem_singleton.1 h']
  case h_3 items implementation known =>
    simp only [known, List.mem_append, List.mem_map, Option.mem_toList] at h h'
    rcases h with h | ⟨f, hf, rfl⟩
    · obtain ⟨j, item, hi, rfl⟩ := mem_overloadTargets h
      rcases h' with h' | ⟨g, -, rfl⟩
      · obtain ⟨j', item', hi', rfl⟩ := mem_overloadTargets h'
        obtain rfl : j = j' := by simpa using variant
        rw [hi] at hi'
        cases hi'
        rfl
      · cases variant
    · rcases h' with h' | ⟨g, hg, rfl⟩
      · obtain ⟨j', item', -, rfl⟩ := mem_overloadTargets h'
        cases variant
      · rw [Option.mem_unique hf hg]
  case h_4 => cases h

theorem symbol_of_mem_functions {symbol : SymbolId} {t : Target} (h : t ∈ functions env symbol) :
    t.symbol = symbol := by
  unfold functions at h
  split at h
  case h_1 | h_2 => rw [List.mem_singleton.1 h]
  case h_3 =>
    simp only [List.mem_append, List.mem_map] at h
    rcases h with h | ⟨f, -, rfl⟩
    · obtain ⟨j, item, -, rfl⟩ := mem_overloadTargets h
      rfl
    · rfl
  case h_4 => cases h

theorem mem_functions_of_mem_targets {fuel : Nat} {symbol : SymbolId} {t : Target}
    (h : t ∈ targets env fuel symbol) : t ∈ functions env t.symbol := by
  induction fuel generalizing symbol with
  | zero => cases h
  | succ fuel ih =>
    unfold targets at h
    split at h
    · obtain ⟨maker, -, h⟩ := List.mem_flatMap.1 h
      split at h
      · exact ih h
      · cases h
    · rwa [symbol_of_mem_functions h]

theorem eq_of_mem_reached {t t' : Target} (h : t ∈ reached env callee)
    (h' : t' ∈ reached env callee) (symbol : t.symbol = t'.symbol)
    (variant : t.variant = t'.variant) : t = t' := by
  unfold reached at h h'
  split at h
  case h_1 callee' known =>
    simp only [known] at h'
    have own := mem_functions_of_mem_targets h
    rw [symbol] at own
    exact eq_of_mem_functions own (mem_functions_of_mem_targets h') variant
  case h_2 => cases h

theorem owner_of_mem_lessons {t : Target} {k : ParamKey}
    (h : k ∈ (t.lessons env callee).map (·.1)) : k.symbol = t.symbol ∧ k.variant = t.variant := by
  simp only [Target.lessons, List.mem_map, List.mem_filterMap, Option.map_eq_some_iff] at h
  obtain ⟨e, ⟨⟨slot, d⟩, -, value, -, rfl⟩, rfl⟩ := h
  exact ⟨rfl, rfl⟩

/-- Whether a function is judged the same from related notes, and leaves related notes. -/
def Respects (R : Notes → Notes → Prop) (env : Env) (callee : Node) (args : List (CallArg Node))
    (t : Target) : Prop :=
  ∀ m m', R m m' → (t.judge env callee args m).1 = (t.judge env callee args m').1
    ∧ R (t.judge env callee args m).2 (t.judge env callee args m').2

/-- The same fault, or the same findings and related notes. -/
inductive Alike (R : Notes → Notes → Prop) :
    Except Fault (List Finding × Notes) → Except Fault (List Finding × Notes) → Prop where
  | fault (f : Fault) : Alike R (.error f) (.error f)
  | found (fs : List Finding) {m m' : Notes} : R m m' → Alike R (.ok (fs, m)) (.ok (fs, m'))

section

variable {R : Notes → Notes → Prop} {m m' : Notes}

theorem judgeOverloads_respects {symbol : SymbolId} {i : Nat} {items : List Overload}
    (each : ∀ t ∈ overloadTargets symbol i items, Respects R env callee args t) (h : R m m') :
    (judgeOverloads env callee args symbol i items m).1 =
        (judgeOverloads env callee args symbol i items m').1
      ∧ R (judgeOverloads env callee args symbol i items m).2
        (judgeOverloads env callee args symbol i items m').2 := by
  induction items generalizing i m m' with
  | nil => exact ⟨rfl, h⟩
  | cons item rest ih =>
    unfold overloadTargets at each
    unfold judgeOverloads
    split
    case isFalse plain =>
      rw [if_neg plain] at each
      exact ih each h
    case isTrue decorated =>
      rw [if_pos decorated] at each
      obtain ⟨here, below⟩ := List.forall_mem_cons.1 each
      obtain ⟨found, notes⟩ := here m m' h
      dsimp only
      rw [found]
      split
      · exact ih below notes
      · exact ⟨rfl, notes⟩

theorem Alike.of_eq {x y : List Finding × Notes} (found : x.1 = y.1) (notes : R x.2 y.2) :
    Alike R (.ok x) (.ok y) := by
  obtain ⟨fs, m⟩ := x
  obtain ⟨gs, m'⟩ := y
  subst found
  exact .found fs notes

theorem Alike.prepend {x y : Except Fault (List Finding × Notes)} (h : Alike R x y)
    (found : List Finding) :
    Alike R (do let (more, notes) ← x; return (found ++ more, notes))
      (do let (more, notes) ← y; return (found ++ more, notes)) := by
  cases h with
  | fault f => exact .fault f
  | found fs notes => exact .found (found ++ fs) notes

theorem Alike.map_fst_eq {x y : Except Fault (List Finding × Notes)} (h : Alike R x y) :
    x.map (·.1) = y.map (·.1) := by
  cases h <;> rfl

theorem Alike.foldlM {α : Type} {as : List α}
    {step : List Finding × Notes → α → Except Fault (List Finding × Notes)}
    (each : ∀ a ∈ as, ∀ fs m m', R m m' → Alike R (step (fs, m) a) (step (fs, m') a))
    (fs : List Finding) (h : R m m') :
    Alike R (as.foldlM step (fs, m)) (as.foldlM step (fs, m')) := by
  induction as generalizing fs m m' with
  | nil => exact .found fs h
  | cons a as ih =>
    obtain ⟨here, below⟩ := List.forall_mem_cons.1 each
    have first := here fs m m' h
    rw [List.foldlM_cons, List.foldlM_cons]
    generalize step (fs, m) a = x, step (fs, m') a = y at first
    cases first with
    | fault f => exact .fault f
    | found gs notes => exact ih below gs notes

/-- By induction over the classes that are gone through. -/
theorem judgeSymbol_alike {fuel : Nat} {symbol : SymbolId}
    (each : ∀ t ∈ targets env fuel symbol, Respects R env callee args t) (h : R m m') :
    Alike R (judgeSymbol env callee args fuel symbol m)
      (judgeSymbol env callee args fuel symbol m') := by
  induction fuel generalizing symbol m m' with
  | zero => exact .found [] h
  | succ fuel ih =>
    unfold targets functions at each
    unfold judgeSymbol
    cases known : env.table.get symbol with
    | function type params =>
      simp only [known] at each
      obtain ⟨found, notes⟩ := each _ List.mem_cons_self m m' h
      exact .of_eq found notes
    | decorated params =>
      simp only [known] at each
      obtain ⟨found, notes⟩ := each _ List.mem_cons_self m m' h
      exact .of_eq found notes
    | overloaded items implementation =>
      simp only [known, List.forall_mem_append] at each
      obtain ⟨found, notes⟩ := judgeOverloads_respects each.1 h
      cases implementation with
      | none => exact .of_eq found notes
      | some f =>
        obtain ⟨more, notes⟩ := each.2 _ List.mem_cons_self _ _ notes
        exact .of_eq (congrArg₂ (· ++ ·) found more) notes
    | cls info =>
      simp only [known, List.mem_flatMap] at each
      refine Alike.foldlM (fun maker hm fs m m' h => ?_) [] h
      dsimp only
      split
      case h_1 => exact .found fs h
      case h_2 => exact .fault .broken
      case h_3 id member =>
        exact (ih (fun t ht => each t ⟨maker, hm, by simpa [member] using ht⟩) h).prepend fs
    | value type => exact .found [] h
    | package fullname members => exact .found [] h
    | typeAlias target => exact .found [] h

theorem implicitDefault_alike {n : Node}
    (each : ∀ i callee args analyzed, n = ⟨i, .call callee args analyzed⟩ →
      ∀ t ∈ reached env callee, Respects R env callee args t) (h : R m m') :
    Alike R (implicitDefault env m n) (implicitDefault env m' n) := by
  unfold implicitDefault
  split
  case h_1 i callee args analyzed =>
    have functions := each i callee args analyzed rfl
    unfold reached at functions
    split
    case h_1 symbol called =>
      simp only [called] at functions
      exact judgeSymbol_alike functions h
    case h_2 => exact .found [] h
  case h_2 => exact .found [] h

end

theorem judge_defaults (t : Target) (notes : Notes) :
    (t.judge env callee args notes).2.defaults = t.lessons env callee ++ notes.defaults := rfl

/-- One call: what the notes hold about parameters afterwards was there or is taught. -/
theorem known_of_implicitDefault {K : ParamKey → Prop} {n : Node} {notes notes' : Notes}
    {found : List Finding} (before : ∀ e ∈ notes.defaults, K e.1)
    (teaches : ∀ k ∈ taught env n, K k) (run : implicitDefault env notes n = .ok (found, notes')) :
    ∀ e ∈ notes'.defaults, K e.1 := by
  have alike : Alike (fun m m' => m = m' ∧ ∀ e ∈ m.defaults, K e.1)
      (implicitDefault env notes n) (implicitDefault env notes n) := by
    refine implicitDefault_alike ?_ ⟨rfl, before⟩
    rintro i callee args analyzed rfl t ht m _ ⟨rfl, before⟩
    refine ⟨rfl, rfl, fun e he => ?_⟩
    rw [judge_defaults, List.mem_append] at he
    rcases he with he | he
    · exact teaches e.1 (List.mem_flatMap.2 ⟨t, ht, List.mem_map_of_mem he⟩)
    · exact before e he
  rw [run] at alike
  cases alike with
  | found fs h => exact h.2

def remember (env : Env) (notes : Notes) (n : Node) : Except Fault Notes :=
  (implicitDefault env notes n).map (·.2)

/-- A run over calls: by induction over them. -/
theorem known_of_foldlM {K : ParamKey → Prop} {calls : List Node} {notes notes' : Notes}
    (before : ∀ e ∈ notes.defaults, K e.1) (teach : ∀ n ∈ calls, ∀ k ∈ taught env n, K k)
    (run : calls.foldlM (remember env) notes = .ok notes') : ∀ e ∈ notes'.defaults, K e.1 := by
  induction calls generalizing notes with
  | nil =>
    cases run
    exact before
  | cons n calls ih =>
    obtain ⟨here, below⟩ := List.forall_mem_cons.1 teach
    rw [List.foldlM_cons] at run
    obtain ⟨next, first, rest⟩ := bind_eq_ok run
    obtain ⟨⟨found, next⟩, judged, rfl⟩ := map_eq_ok first
    exact ih (known_of_implicitDefault before here judged) below rest

/-- What lies at the bottom of the notes does not show through where a lesson is on top. -/
theorem lookup_append_base {lessons middle base : List (ParamKey × Node)} {k : ParamKey}
    (covered : k ∈ base.map (·.1) → k ∈ lessons.map (·.1)) :
    (lessons ++ (middle ++ base)).lookup k = (lessons ++ middle).lookup k := by
  rw [← List.append_assoc, List.lookup_append, List.lookup_append]
  by_cases inBase : k ∈ base.map (·.1)
  · obtain ⟨e, he, rfl⟩ := List.mem_map.1 (covered inBase)
    have onTop : (lessons.lookup e.1).isSome := List.lookup_isSome_iff.2 ⟨e, he, by simp⟩
    obtain ⟨value, found⟩ := Option.isSome_iff_exists.1 onTop
    simp [found]
  · have absent : base.lookup k = none := by
      refine List.lookup_eq_none_iff.2 fun e he => ?_
      simpa using fun same : k = e.1 => inBase (same ▸ List.mem_map_of_mem he)
    simp [absent]

/-- Of the defaults only those of the slots matter. -/
theorem redundantArgs_congr {d d' : Slot → Option Node} {slots : List Slot}
    (same : ∀ slot ∈ slots, d slot = d' slot) (i : Nat) (found : List Finding)
    (args : List (CallArg Node)) :
    redundantArgs d slots i found args = redundantArgs d' slots i found args := by
  induction args generalizing i found with
  | nil => rfl
  | cons a rest ih =>
    obtain ⟨value, kind, name⟩ := a
    unfold redundantArgs
    cases at_ : slots[i]? with
    | none => rfl
    | some slot =>
      have here := same slot (List.mem_of_getElem? at_)
      cases kind with
      | pos => simp only [here, ih]
      | named =>
        cases named : slotNamed? slots name with
        | none => exact ih (i + 1) found
        | some s =>
          have inSlots : s ∈ slots := List.mem_reverse.1 (List.mem_of_find?_eq_some named)
          simp only [same s inSlots, ih]
      | _ => rfl

/-- Notes that are the same but for what lies at the bottom of the first. -/
def OnTopOf (base : List (ParamKey × Node)) (m m' : Notes) : Prop :=
  m.defaults = m'.defaults ++ base

theorem respects_onTopOf {base : List (ParamKey × Node)} {t : Target}
    (covered : ∀ k ∈ t.keys callee, k ∈ base.map (·.1) → k ∈ (t.lessons env callee).map (·.1)) :
    Respects (OnTopOf base) env callee args t := by
  intro m m' h
  constructor
  · refine redundantArgs_congr (fun slot hs => ?_) _ _ _
    have visible : (t.lessons env callee ++ (m'.defaults ++ base)).lookup (t.key slot) =
        (t.lessons env callee ++ m'.defaults).lookup (t.key slot) :=
      lookup_append_base (covered (t.key slot) (List.mem_map_of_mem hs))
    change ((t.lessons env callee ++ m.defaults).lookup (t.key slot)).or slot.1.initial =
      ((t.lessons env callee ++ m'.defaults).lookup (t.key slot)).or slot.1.initial
    rw [h, visible]
  · unfold OnTopOf
    rw [judge_defaults, judge_defaults, h, List.append_assoc]

theorem implicitDefault_of_function {symbol : SymbolId} {type : Option Ty}
    {params : List (Param Node)} (called : calledSymbol? env callee = some symbol)
    (known : env.table.get symbol = .function type params) (notes : Notes) (i : Info)
    (analyzed : Option Node) :
    implicitDefault env notes ⟨i, .call callee args analyzed⟩ =
      .ok (Target.judge ⟨symbol, none, params⟩ env callee args notes) := by
  simp only [implicitDefault, called, judgeSymbol, known]

theorem taught_of_unknown (h : knownDefaults.lookup (calledName env callee) = none) (i : Info)
    (analyzed : Option Node) : taught env ⟨i, .call callee args analyzed⟩ = [] := by
  simp [taught, Target.lessons, h]

def dictClass : ClassInfo :=
  ⟨⟨"dict", "builtins.dict"⟩, [], [("get", some "dict.get")], [], "dict"⟩

def getMethod : Target :=
  ⟨"dict.get", none, ["self", "key", "default"].map fun name =>
    ⟨default, name, name, .pos, none, false, true⟩⟩

def dictEnv : Env where
  table := ⟨(((∅ : Std.HashMap SymbolId Symbol).insert "dict" (.cls dictClass)).insert "d"
    (.value (some (.inst dictClass.ref [])))).insert "dict.get" (.function none getMethod.params), ∅⟩
  version := ⟨3, 10⟩
  files := []

def getOf (x : Node) : Node := ⟨default, .member x ⟨"get", "", none, false⟩⟩

def getOrNone (x : Node) (key : String) : Node :=
  ⟨default, .call (getOf x) [⟨⟨default, .str key⟩, .pos, none⟩, ⟨noneNode, .pos, none⟩] none⟩

def newDict : Node :=
  ⟨default, .call ⟨default, .name ⟨"dict", "builtins.dict", none, false⟩ (some ⟨"dict", false⟩)⟩ []
    none⟩

theorem get_dict : dictEnv.table.get "dict" = .cls dictClass := by
  simp [dictEnv, SymbolTable.get, Std.HashMap.getD_insert]

theorem classBehind?_variableNamed : classBehind? dictEnv (variableNamed "d") = some dictClass := by
  have known : dictEnv.table.get "d" = .value (some (.inst dictClass.ref [])) := by
    simp [dictEnv, SymbolTable.get, Std.HashMap.getD_insert]
  simp [classBehind?, variableNamed, known, SymbolTable.classInfo?, dictClass, get_dict]

/-- Both ways lead to the method, but only the variable shows its full name. -/
theorem calledName_getOf : calledName dictEnv (getOf (variableNamed "d")) = "builtins.dict.get"
    ∧ calledName dictEnv (getOf newDict) = "" := by
  refine ⟨?_, rfl⟩
  simp only [calledName, getOf, classBehind?_variableNamed]
  rfl

theorem implicitDefault_getOrNone {x : Node} (hx : x = variableNamed "d" ∨ x = newDict)
    (key : String) (notes : Notes) :
    implicitDefault dictEnv notes (getOrNone x key) = .ok (getMethod.judge dictEnv (getOf x)
      [⟨⟨default, .str key⟩, .pos, none⟩, ⟨noneNode, .pos, none⟩] notes) := by
  have method : dictEnv.table.get "dict.get" = .function none getMethod.params := by
    simp [dictEnv, SymbolTable.get]
  have called : calledSymbol? dictEnv (getOf x) = some "dict.get" := by
    rcases hx with rfl | rfl
    · change (classBehind? dictEnv (variableNamed "d")).bind _ = _
      rw [classBehind?_variableNamed]
      rfl
    · simp [calledSymbol?, getOf, newDict, classBehind?, get_dict, dictClass]
  exact implicitDefault_of_function called method notes _ _

/-- What is found about a call is the same after earlier calls and on its own, if those teach
defaults only for parameters that it does not look at or teaches a default for itself. -/
theorem implicitDefault_after_calls {b : Node} {earlier : List Node} {notes : Notes}
    (run : earlier.foldlM (remember env) {} = .ok notes)
    (nothingNew : ∀ a ∈ earlier, ∀ k ∈ taught env a, k ∈ consulted env b → k ∈ taught env b) :
    (implicitDefault env notes b).map (·.1) = (implicitDefault env {} b).map (·.1) := by
  have known := known_of_foldlM nofun nothingNew run
  have alike : Alike (OnTopOf notes.defaults) (implicitDefault env notes b)
      (implicitDefault env {} b) := by
    refine implicitDefault_alike ?_ (List.nil_append _).symm
    rintro i callee args analyzed rfl t ht
    refine respects_onTopOf fun k hk inBase => ?_
    obtain ⟨e, he, rfl⟩ := List.mem_map.1 inBase
    obtain ⟨t', ht', taught⟩ :=
      List.mem_flatMap.1 (known e he (List.mem_flatMap.2 ⟨t, ht, hk⟩))
    -- the function that the call teaches this about is the one that is looked at
    obtain ⟨slot, -, own⟩ := List.mem_map.1 hk
    obtain ⟨symbol, variant⟩ := owner_of_mem_lessons taught
    have same : t = t' := eq_of_mem_reached ht ht' (by rw [← symbol, ← own]; rfl)
      (by rw [← variant, ← own]; rfl)
    rwa [same]
  exact alike.map_fst_eq

/-- A method called on a new dictionary and on a variable, and then on the variable again. -/
theorem implicitDefault_after_calls_variable :
    let earlier := [getOrNone newDict "k", getOrNone (variableNamed "d") "k"]
    let b := getOrNone (variableNamed "d") "j"
    ∃ notes, earlier.foldlM (remember dictEnv) {} = .ok notes
      ∧ (implicitDefault dictEnv notes b).map (·.1) = (implicitDefault dictEnv {} b).map (·.1) := by
  intro earlier b
  have judged (notes : Notes) (a : Node) (ha : a ∈ earlier) : Succeeds (remember dictEnv notes a) := by
    rcases List.mem_pair.1 ha with rfl | rfl
    · simp [remember, implicitDefault_getOrNone]
    · simp [remember, implicitDefault_getOrNone]
  obtain ⟨notes, run⟩ := succeeds_foldlM judged {}
  refine ⟨notes, run, implicitDefault_after_calls run fun a ha k taught _ => ?_⟩
  rcases List.mem_pair.1 ha with rfl | rfl
  · rw [getOrNone, taught_of_unknown (by rw [calledName_getOf.2]; rfl)] at taught
    cases taught
  · exact taught

/-- A call on a new dictionary is reported only after one on a variable, which teaches it the
default. -/
theorem earlier_call_teaches_default :
    let b := getOrNone newDict "k"
    ∃ notes, remember dictEnv {} (getOrNone (variableNamed "d") "k") = .ok notes
      ∧ (implicitDefault dictEnv {} b).map (·.1) = .ok []
      ∧ (implicitDefault dictEnv notes b).map (·.1) = .ok [Finding.ofNode noneNode message] := by
  intro b
  refine ⟨⟨[], [(⟨"dict.get", none, 1⟩, noneNode)]⟩, ?_, ?_, ?_⟩
  · rw [remember, implicitDefault_getOrNone (.inl rfl)]
    change Except.ok (getMethod.learn (calledName dictEnv (getOf (variableNamed "d"))) _ {}) = _
    rw [calledName_getOf.1]
    rfl
  · rw [implicitDefault_getOrNone (.inr rfl)]
    rfl
  · rw [implicitDefault_getOrNone (.inr rfl)]
    rfl

end IdiomLint.Rules.Defaults
