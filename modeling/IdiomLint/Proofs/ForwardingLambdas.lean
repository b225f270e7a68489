import IdiomLint.Proofs.ArgumentBinding
import IdiomLint.Proofs.CommandLine
import IdiomLint.Proofs.Scopes

/-! Lambdas that pass their parameters on to a function. Calling such a lambda calls the function,
evaluated outside of it, with the same arguments, whatever expressions mean, exactly if every parameter
is filled by position, as many arguments are passed as there are parameters, the names of the parameters
differ, the function depends on none of them, and the lambda is no generator. The check looks at the
names alone, so it also reports lambdas with defaults, with parameters that gather arguments, and with
a function that depends on a parameter. -/
namespace IdiomLint

namespace CallBinding

variable {Val : Type} {nameable : Param Node → Bool}

/-- What a parameter receives and what remains, where nothing is passed by name. -/
inductive TakesPlaced : Param Node → List (Passed Val) → Received Val → List (Passed Val) → Prop
  | one {p : Param Node} {x : Passed Val} {placed : List (Passed Val)}
    (positional : p.kind.isPositional) : TakesPlaced p (x :: placed) (.one x) placed
  | rest {p : Param Node} {placed : List (Passed Val)} : TakesPlaced p placed (.rest placed) []
  | restByName {p : Param Node} {placed : List (Passed Val)} :
    TakesPlaced p placed (.restByName []) placed
  | byDefault {p : Param Node} {placed : List (Passed Val)} : TakesPlaced p placed .byDefault placed

variable {p : Param Node} {placed placed' : List (Passed Val)} {y : Received Val}
  {named' : List (String × Passed Val)}

theorem takesPlaced_of_take? (h : take? nameable p placed [] = some (y, placed', named')) :
    TakesPlaced p placed y placed' ∧ named' = [] := by
  by_cases gathers : p.kind.gathers
  · by_cases star : p.kind = .star
    · rw [take?_of_star star] at h
      cases h
      exact ⟨.rest, rfl⟩
    · have starStar := eq_starStar_of_gathers gathers star
      rw [take?_of_starStar starStar] at h
      cases h
      exact ⟨.restByName, rfl⟩
  · by_cases receives : p.kind.isPositional ∧ placed ≠ []
    · obtain ⟨positional, some⟩ := receives
      obtain ⟨x, rest, rfl⟩ := List.exists_cons_of_ne_nil some
      rw [take?_cons positional] at h
      simp only [List.any_nil, Bool.and_false, Bool.false_eq_true, if_false] at h
      cases h
      exact ⟨.one positional, rfl⟩
    · have none : p.kind.isPositional → placed = [] := by simpa using receives
      rw [take?_of_fill (by simpa using gathers) none, fill?_of_unnamed (by simp)] at h
      split at h
      · cases h
        exact ⟨.byDefault, rfl⟩
      · cases h

/-- What is received by position is one of the things that are passed; everything else that a parameter
receives is its default or what it gathers. -/
theorem received_of_all? {params : List (Param Node)} {received : List (Param Node × Received Val)}
    (h : all? nameable params placed [] = some received) :
    received.map (·.1) = params ∧ ∀ r ∈ received,
      (r.1.kind.isPositional ∧ ∃ x ∈ placed, r.2 = .one x) ∨ r.2 = .byDefault ∨
        r.2 = .restByName [] ∨ ∃ xs, r.2 = .rest xs := by
  induction params generalizing placed received with
  | nil =>
    cases placed with
    | nil =>
      cases h
      exact ⟨rfl, by simp⟩
    | cons x placed => cases h
  | cons p ps ih =>
    obtain ⟨y, placed', named', rest, taken, filled, rfl⟩ := all?_cons h
    obtain ⟨takes, rfl⟩ := takesPlaced_of_take? taken
    obtain ⟨names, shapes⟩ := ih filled
    have remains : placed' ⊆ placed := by
      cases takes with
      | one => exact List.subset_cons_self _ _
      | rest => exact List.nil_subset _
      | restByName => exact List.Subset.refl _
      | byDefault => exact List.Subset.refl _
    refine ⟨congrArg (p :: ·) names, List.forall_mem_cons.2 ⟨?_, fun r hr => ?_⟩⟩
    · cases takes with
      | one positional => exact .inl ⟨positional, _, List.mem_cons_self, rfl⟩
      | rest => exact .inr (.inr (.inr ⟨_, rfl⟩))
      | restByName => exact .inr (.inr (.inl rfl))
      | byDefault => exact .inr (.inl rfl)
    · rcases shapes r hr with ⟨positional, x, hx, shown⟩ | other
      · exact .inl ⟨positional, x, remains hx, shown⟩
      · exact .inr other

/-- Parameters that are filled by position receive one thing each, in order. -/
theorem all?_of_positional {params : List (Param Node)} (positional : ∀ p ∈ params, p.kind.isPositional)
    (length : placed.length = params.length) :
    all? nameable params placed [] = some (params.zip (placed.map .one)) := by
  induction params generalizing placed with
  | nil =>
    obtain rfl := List.eq_nil_of_length_eq_zero length
    rfl
  | cons p ps ih =>
    cases placed with
    | nil => cases length
    | cons x placed =>
      rw [List.forall_mem_cons] at positional
      rw [all?, take?_cons positional.1]
      simp [ih positional.2 (Nat.succ.inj length)]

end CallBinding

namespace Rules.Functions

structure LambdaCall where
  params : List (Param Node)
  isGenerator : Bool
  callee : Node
  args : List (CallArg Node)

def lambdaCall? : Node → Option LambdaCall
  | ⟨_, .lambda params body isGenerator⟩ =>
    match returned? body with
    | some ⟨_, .call callee args _⟩ => some ⟨params, isGenerator, callee, args⟩
    | _ => none
  | _ => none

end Rules.Functions

open Rules.Functions

namespace Interpretation

variable {Val : Type} (M : Interpretation Val) (env : String → Val)

def passed : Passed Val → Val
  | .written n => M.value env n
  | .unpacked v => v

/-- The value that a parameter gets. Its default is evaluated where the function stands. -/
def received (p : Param Node) : Received Val → Val
  | .one x => M.passed env x
  | .byDefault => p.initial.elim (M.tuple []) (M.value env)
  | .rest xs => M.tuple (xs.map (M.passed env))
  | .restByName xs => M.mapping (xs.map fun e => (e.1, M.passed env e.2))

/-- The names of parameters with the values they get from arguments that are passed by position; none
if these are refused. -/
def parameters? (params : List (Param Node)) (vals : List Val) : Option (List (String × Val)) :=
  (CallBinding.all? (!·.positionOnly) params (vals.map .unpacked) []).map fun received =>
    received.map fun r => (r.1.name, M.received env r.1 r.2)

/-- The function that a lambda calls when it is called, and the arguments, which are all passed by
position. A generator does not call anything yet. -/
def callMade? (c : LambdaCall) (vals : List Val) : Option (Val × List Val) :=
  if c.isGenerator then none
  else (M.parameters? env c.params vals).map fun pairs =>
    (M.value (bound env pairs) c.callee, c.args.map fun a => M.value (bound env pairs) a.value)

variable {M env} {params : List (Param Node)} {vals : List Val}

theorem parameters?_of_positional (positional : ∀ p ∈ params, p.kind.isPositional)
    (length : vals.length = params.length) :
    M.parameters? env params vals = some ((params.map (·.name)).zip vals) := by
  rw [parameters?, CallBinding.all?_of_positional positional (by simpa using length)]
  simp only [Option.map_some, Option.some.injEq]
  induction params generalizing vals with
  | nil => rfl
  | cons p ps ih =>
    cases vals with
    | nil => cases length
    | cons v vals =>
      exact congrArg _ (ih (fun q hq => positional q (List.mem_cons_of_mem _ hq))
        (Nat.succ.inj length))

/-- For `reading`, where every name stands for 0, a default and what a parameter gathers are not 1. -/
theorem reading_parameters? {x : String} {params : List (Param Node)} {vals : List Nat}
    {pairs : List (String × Nat)}
    (h : (reading x).parameters? (fun _ => 0) params vals = some pairs) :
    pairs.map (·.1) = params.map (·.name) ∧
      ∀ p ∈ params, ∃ v, (p.name, v) ∈ pairs ∧ (v = 1 → p.kind.isPositional) := by
  obtain ⟨received, binds, rfl⟩ := Option.map_eq_some_iff.1 h
  obtain ⟨rfl, shapes⟩ := CallBinding.received_of_all? binds
  refine ⟨by simp, fun p hp => ?_⟩
  obtain ⟨r, hr, rfl⟩ := List.mem_map.1 hp
  refine ⟨_, List.mem_map_of_mem hr, fun one => ?_⟩
  rcases shapes r hr with ⟨positional, -⟩ | shown | shown | ⟨xs, shown⟩
  · exact positional
  · rw [shown] at one
    cases initial : r.1.initial with
    | none =>
      rw [Interpretation.received, initial] at one
      cases one
    | some d =>
      rw [Interpretation.received, initial, Option.elim_some, reading_zero] at one
      cases one
  · rw [shown] at one
    cases one
  · have large : 2 ≤ (reading x).tuple (xs.map ((reading x).passed fun _ => 0)) := two_le_reading_tuple
    rw [shown, Interpretation.received] at one
    omega

end Interpretation

namespace Rules.Functions

open Finding

variable {Val : Type} {M : Interpretation Val} {env : String → Val} {params : List (Param Node)}
  {args : List (CallArg Node)}

/-- What is passed on is what the parameters stand for. -/
theorem map_value_of_forwards (h : forwards params args) (M : Interpretation Val)
    (env : String → Val) :
    args.map (fun a => M.value env a.value) = (params.map (·.name)).map env := by
  have names : params.map (fun p => some p.name) = args.map (fun a => nameOf? a.value) :=
    eq_of_beq (Bool.and_eq_true_iff.1 h).1
  apply M.map_value_of_nameOf?
  rw [← names, List.map_map]
  rfl

theorem forwardedTo?_eq_some {i : Info} {callee g : Node} {analyzed : Option Node}
    (h : forwardedTo? params ⟨i, .call callee args analyzed⟩ = .ok (some g)) :
    g = callee ∧ forwards params args := by
  simp only [forwardedTo?] at h
  split at h
  case isTrue passesOn =>
    obtain ⟨contains, -, h⟩ := bind_eq_ok h
    cases contains with
    | true => cases h
    | false =>
      cases h
      exact ⟨rfl, (Bool.and_eq_true_iff.1 passesOn).2⟩
  case isFalse => cases h

/-- A lambda that returns a call is only reported for the function that it calls. -/
theorem report_of_lambdaCall? {env : Env} {n : Node} {fs : List Finding} {f : Finding}
    {c : LambdaCall} (call : lambdaCall? n = some c) (reported : functionName env n = .ok fs)
    (hf : f ∈ fs) : forwards c.params c.args ∧ f = replace n n.sourceText c.callee.sourceText := by
  unfold lambdaCall? at call
  split at call
  case h_1 i params body isGenerator =>
    split at call
    case h_1 j callee args analyzed returns =>
      cases call
      simp only [functionName, returns] at reported
      obtain ⟨found, forwarded, reported⟩ := bind_eq_ok reported
      cases found with
      | none =>
        have noValue : emptyValueType? ⟨j, .call callee args analyzed⟩ = none := rfl
        rw [noValue] at reported
        cases empty : params.isEmpty <;> rw [empty] at reported <;> cases reported <;> cases hf
      | some g =>
        cases reported
        obtain ⟨rfl, passesOn⟩ := forwardedTo?_eq_some forwarded
        exact ⟨passesOn, List.mem_singleton.1 hf⟩
    case h_2 => cases call
  case h_2 => cases call

/-- When calling a lambda with so many arguments calls the function with the same ones. -/
structure LambdaCall.PassesOn (c : LambdaCall) (count : Nat) : Prop where
  isGenerator : c.isGenerator = false
  count : count = c.params.length
  positional : ∀ p ∈ c.params, p.kind.isPositional
  distinct : (c.params.map (·.name)).Nodup
  free : ∀ p ∈ c.params, ¬c.callee.DependsOn p.name

namespace LambdaCall

variable {c : LambdaCall} {k : Nat}

theorem PassesOn.callMade? (h : c.PassesOn k) (forwarded : forwards c.params c.args)
    (M : Interpretation Val) (env : String → Val) {vals : List Val} (length : vals.length = k) :
    M.callMade? env c vals = some (M.value env c.callee, vals) := by
  have counted : vals.length = c.params.length := length.trans h.count
  have keys : ((c.params.map (·.name)).zip vals).map (·.1) = c.params.map (·.name) :=
    List.map_fst_zip (by simp [counted])
  rw [Interpretation.callMade?, if_neg (by simp [h.isGenerator]),
    Interpretation.parameters?_of_positional h.positional counted, Option.map_some,
    map_value_of_forwards forwarded, map_bound_zip h.distinct (by simp [counted]), M.value_bound]
  rw [keys]
  intro x hx
  obtain ⟨p, hp, rfl⟩ := List.mem_map.1 hx
  exact h.free p hp

/-- Called with so many arguments, the lambda calls the function with the same ones, whatever
expressions mean. -/
def AlwaysCalls (c : LambdaCall) (k : Nat) : Prop :=
  ∀ (Val : Type) (M : Interpretation Val) (env : String → Val) (vals : List Val),
    vals.length = k → M.callMade? env c vals = some (M.value env c.callee, vals)

section

variable (always : c.AlwaysCalls k) (forwarded : forwards c.params c.args)
include always forwarded

theorem AlwaysCalls.exists_pairs (M : Interpretation Val) (env : String → Val) {vals : List Val}
    (length : vals.length = k) : c.isGenerator = false ∧ ∃ pairs,
      M.parameters? env c.params vals = some pairs ∧
      M.value (bound env pairs) c.callee = M.value env c.callee ∧
      (c.params.map (·.name)).map (bound env pairs) = vals := by
  have made := always Val M env vals length
  rw [Interpretation.callMade?] at made
  split at made
  · cases made
  · rename_i isGenerator
    obtain ⟨pairs, bindings, shown⟩ := Option.map_eq_some_iff.1 made
    rw [map_value_of_forwards forwarded, Prod.mk.injEq] at shown
    exact ⟨by simpa using isGenerator, pairs, bindings, shown⟩

theorem AlwaysCalls.distinct : (c.params.map (·.name)).Nodup := by
  -- arguments that all differ are passed on, so no two parameters have one name
  obtain ⟨-, pairs, -, -, values⟩ := always.exists_pairs forwarded (Interpretation.reading "")
    (fun _ => 0) List.length_range
  have nodup : ((c.params.map (·.name)).map (bound (fun _ => 0) pairs)).Nodup := by
    rw [values]
    exact List.nodup_range
  exact nodup.of_map

theorem AlwaysCalls.count : k = c.params.length := by
  obtain ⟨-, pairs, -, -, values⟩ := always.exists_pairs forwarded (Interpretation.reading "")
    (fun _ => 0) List.length_range
  simpa using (congrArg List.length values).symm

theorem AlwaysCalls.positional : ∀ p ∈ c.params, p.kind.isPositional := by
  -- every argument is 1, and neither a default nor what is gathered can be
  obtain ⟨-, pairs, bindings, -, values⟩ := always.exists_pairs forwarded
    (Interpretation.reading "") (fun _ => 0) (List.length_replicate (n := k) (a := 1))
  obtain ⟨keys, shapes⟩ := Interpretation.reading_parameters? bindings
  intro p hp
  obtain ⟨v, mem, ofOne⟩ := shapes p hp
  have nodup : (pairs.map (·.1)).Nodup := keys ▸ always.distinct forwarded
  have one : bound (fun _ => 0) pairs p.name = 1 := by
    apply List.eq_of_mem_replicate (n := k)
    rw [← values]
    exact List.mem_map_of_mem (List.mem_map_of_mem hp)
  exact ofOne ((bound_of_mem nodup mem).symm.trans one)

theorem AlwaysCalls.free : ∀ p ∈ c.params, ¬c.callee.DependsOn p.name := by
  intro p hp depends
  have inside := Interpretation.reading_bound (List.mem_map_of_mem hp) depends
  rw [List.length_map] at inside
  obtain ⟨-, pairs, bindings, same, -⟩ := always.exists_pairs forwarded
    (Interpretation.reading p.name) (fun _ => 0)
    (List.length_replicate.trans (always.count forwarded).symm)
  rw [Interpretation.parameters?_of_positional (always.positional forwarded)
    List.length_replicate] at bindings
  obtain rfl := Option.some.inj bindings
  rw [inside, Interpretation.reading_zero] at same
  cases same

end

/-- The lambda calls the function with its own arguments, whatever expressions mean, exactly if it
passes them on. -/
theorem alwaysCalls_iff (forwarded : forwards c.params c.args) :
    c.AlwaysCalls k ↔ c.PassesOn k := by
  constructor
  · intro always
    obtain ⟨isGenerator, -⟩ := always.exists_pairs forwarded (Interpretation.reading "")
      (fun _ => 0) List.length_range
    exact ⟨isGenerator, always.count forwarded, always.positional forwarded,
      always.distinct forwarded, always.free forwarded⟩
  · intro h Val M env vals length
    exact h.callMade? forwarded M env length

end LambdaCall

/-- Calling a lambda that is reported for the function it calls calls that function with the same
arguments, whatever expressions mean, exactly if the lambda passes so many on. -/
theorem forwarding_lambda_same_iff {env : Env} {n : Node} {fs : List Finding} {f : Finding}
    {c : LambdaCall} (call : lambdaCall? n = some c) (reported : functionName env n = .ok fs)
    (hf : f ∈ fs) :
    f = replace n n.sourceText c.callee.sourceText ∧ ∀ k, c.AlwaysCalls k ↔ c.PassesOn k := by
  obtain ⟨forwarded, text⟩ := report_of_lambdaCall? call reported hf
  exact ⟨text, fun k => c.alwaysCalls_iff forwarded⟩

def param (name : String) (kind : ArgKind) (initial : Option Node) : Param Node :=
  ⟨default, name, name, kind, initial, false, false⟩

def forwarding (params : List (Param Node)) (callee : Node) : LambdaCall :=
  ⟨params, false, callee, params.map fun p => ⟨nameNode p.name, .pos, none⟩⟩

def LambdaCall.node (c : LambdaCall) : Node :=
  ⟨default, .lambda c.params ⟨default, .block [⟨default, .returnStmt
    (some ⟨default, .call c.callee c.args none⟩)⟩]⟩ c.isGenerator⟩

theorem containsCall_nameNode (name : String) : containsCall (nameNode name) = .ok false := by
  rw [containsCall, Node.entries, Node.events]
  rfl

theorem containsCall_memberNode (base name : String) :
    containsCall (memberNode base name) = .ok false := by
  have inside : (nameNode base).events outsideCalls = [.enter (nameNode base)] := by
    rw [Node.events]
    rfl
  have outside : (memberNode base name).events outsideCalls =
      [.enter (memberNode base name), .enter (nameNode base)] := by
    rw [Node.events]
    change _ :: ((outsideCalls.entered _).attach.flatMap fun c => c.1.events outsideCalls) ++ _ = _
    rw [List.flatMap_subtype (g := fun c => c.events outsideCalls) (fun _ _ => rfl), List.unattach_attach]
    change _ :: ((nameNode base).events outsideCalls ++ []) ++ [] = _
    rw [inside]
    rfl
  rw [containsCall, Node.entries, outside]
  rfl

theorem forwards_forwarding (params : List (Param Node)) (callee : Node) :
    forwards params (forwarding params callee).args := by
  simp [forwards, forwarding, nameNode, nameOf?, Function.comp_def]

theorem functionName_forwarding (env : Env) (params : List (Param Node)) {callee : Node}
    (named : callee.ref?.isSome) (noCall : containsCall callee = .ok false) :
    functionName env (forwarding params callee).node =
      .ok [replace (forwarding params callee).node (forwarding params callee).node.sourceText
        callee.sourceText] := by
  have forwarded : forwardedTo? params ⟨default, .call callee (forwarding params callee).args none⟩ =
      .ok (some callee) := by
    rw [forwardedTo?, if_pos (by simp [named, forwards_forwarding]), noCall]
    rfl
  change (forwardedTo? params ⟨default, .call callee (forwarding params callee).args none⟩ >>= _) = _
  rw [forwarded]
  rfl

/-- Two parameters are passed on to a method of something else. -/
theorem forwarding_lambda_same_iff_member :
    let env : Env := ⟨.empty, ⟨3, 10⟩, []⟩
    let c := forwarding [param "x" .pos none, param "y" .pos none] (memberNode "m" "f")
    ∃ f, functionName env c.node = .ok [f] ∧
      f.message = "Replace `lambda x, y: m.f(x, y)` with `m.f`" ∧ c.AlwaysCalls 2 := by
  intro env c
  have reported := functionName_forwarding env c.params rfl (containsCall_memberNode "m" "f")
  obtain ⟨text, same⟩ := forwarding_lambda_same_iff (c := c) rfl reported (List.mem_singleton.2 rfl)
  refine ⟨_, reported, by rw [text]; decide +kernel, (same 2).2 ⟨rfl, rfl, ?_, ?_, ?_⟩⟩
  · decide
  · decide
  · simp [c, forwarding, param, Node.dependsOn_memberNode]

/-- A default is passed on although the lambda is called without arguments, gathered arguments are
passed on as one, and a method of the argument is not there outside of the lambda. -/
theorem unfaithful_forwarding_reported :
    let env : Env := ⟨.empty, ⟨3, 10⟩, []⟩
    let one : Node := ⟨default, .int 1⟩
    let byDefault := forwarding [param "x" .opt (some one)] (nameNode "f")
    let gathering := forwarding [param "x" .star none] (nameNode "f")
    let ownMethod := forwarding [param "x" .pos none] (memberNode "x" "run")
    (∀ c ∈ [byDefault, gathering, ownMethod], functionName env c.node =
      .ok [replace c.node c.node.sourceText c.callee.sourceText]) ∧
    (∀ (Val : Type) (M : Interpretation Val) (env : String → Val) (v : Val),
      M.callMade? env byDefault [] = some (env "f", [M.value env one]) ∧
      M.callMade? env gathering [v] = some (env "f", [M.tuple [v]])) ∧
    (Interpretation.reading "x").callMade? (fun _ => 0) ownMethod [1] = some (1, [1]) ∧
    (Interpretation.reading "x").value (fun _ => 0) (memberNode "x" "run") = 0 := by
  intro env one byDefault gathering ownMethod
  refine ⟨?_, ?_, ?_, Interpretation.reading_zero⟩
  · simp only [List.forall_mem_cons]
    exact ⟨functionName_forwarding env _ rfl (containsCall_nameNode "f"),
      functionName_forwarding env _ rfl (containsCall_nameNode "f"),
      functionName_forwarding env _ rfl (containsCall_memberNode "x" "run"), by simp⟩
  · intro Val M env v
    have apart : "f" ≠ "x" := by decide
    have filled : M.parameters? env byDefault.params [] = some [("x", M.value env one)] := rfl
    have gathered : M.parameters? env gathering.params [v] = some [("x", M.tuple [v])] := rfl
    rw [Interpretation.callMade?, Interpretation.callMade?, filled, gathered]
    simp [byDefault, gathering, forwarding, nameNode, param, bound, M.value_name, apart]
  · have filled : (Interpretation.reading "x").parameters? (fun _ => 0) ownMethod.params [1] =
        some [("x", 1)] := rfl
    have depends : (memberNode "x" "run").DependsOn "x" := Node.dependsOn_memberNode.2 rfl
    rw [Interpretation.callMade?, filled]
    simp [ownMethod, forwarding, nameNode, param, bound, Interpretation.reading_of_dependsOn depends,
      (Interpretation.reading "x").value_name]

end Rules.Functions

end IdiomLint
