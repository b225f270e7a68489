import IdiomLint.Syntax.Children
import IdiomLint.Syntax.Names

/-! Walks over a tree in pre-order. A walk is the list of its events, so that everything done
along a walk is a fold over a list. -/
namespace IdiomLint

/-- The class the type checker gives a type. -/
def Ty.className : Option Ty → String
  | none => "NoneType"
  | some (.inst ..) => "Instance"
  | some .any => "AnyType"
  | some .tuple => "TupleType"
  | some (.callable _) => "CallableType"
  | some (.aliased _) => "TypeAliasType"
  | some .other => "NoneType"

/-- A walk either enters a node or meets a fault, after which nothing more happens. -/
inductive Event where
  | enter (node : Node)
  | fault (cause : Fault)

/-- Which children a walk goes on to: all of them, or only so many from the front. -/
structure Walk where
  order : Order
  reach : Node → Option Nat

namespace Walk

/-- Enters everything, callee before arguments. -/
def full : Walk := ⟨.calleeFirst, fun _ => none⟩

/-- The walk that runs the checks. -/
def checking : Walk := ⟨.argumentsFirst, fun _ => none⟩

def entered (w : Walk) (n : Node) : List Node :=
  match w.reach n with
  | none => n.children w.order
  | some k => (n.children w.order).take k

theorem mem_children_of_mem_entered {w : Walk} {n c : Node} (h : c ∈ w.entered n) :
    c ∈ n.children w.order := by
  unfold entered at h
  split at h
  · exact h
  · exact List.mem_of_mem_take h

end Walk

namespace Node

/-- Arguments and wrapped types are no nodes a walk can enter. -/
def refusal : Node → Option Fault
  | ⟨_, .argument _⟩ => some (.unsupported "Argument")
  | ⟨_, .required item⟩ => some (.unsupported (Ty.className item))
  | _ => none

/-- A request to reveal the type of an expression has to hold one. -/
def complaint : Node → Option Fault
  | ⟨_, .reveal .type none⟩ => some .broken
  | _ => none

def events (w : Walk) (n : Node) : List Event :=
  match n.refusal with
  | some f => [.fault f]
  | none =>
    let inside := (w.entered n).attach.flatMap fun c => c.1.events w
    let after := if (w.reach n).isNone then n.complaint.toList.map Event.fault else []
    .enter n :: inside ++ after
termination_by sizeOf n
decreasing_by exact sizeOf_lt_of_mem_children (Walk.mem_children_of_mem_entered c.2)

/-- Runs an action at every node that a walk enters, up to the first fault. -/
def foldEvents {σ : Type} (action : σ → Node → Except Fault σ) (start : σ) (es : List Event) :
    Except Fault σ :=
  es.foldlM (fun s e => match e with
    | .enter n => action s n
    | .fault f => .error f) start

/-- The nodes a walk enters, or the first fault it meets. -/
def entries (w : Walk) (n : Node) : Except Fault (List Node) :=
  (n.events w).mapM fun e => match e with
    | .enter m => .ok m
    | .fault f => .error f

/-- The number of names in a tree that resolve to `fullname`. -/
def readCount (fullname : String) (n : Node) : Except Fault Nat :=
  (n.entries .full).map fun ns => (ns.filter (isNameOf fullname)).length

end Node

/-- Whether no context mentions the name. The contexts after the first that does are not walked. -/
def unusedIn (fullname : String) : List Node → Except Fault Bool
  | [] => .ok true
  | context :: rest => do
    let count ← context.readCount fullname
    if count > 0 then return false else unusedIn fullname rest

end IdiomLint
