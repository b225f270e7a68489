import IdiomLint.Syntax.Tree

/-! What statements do. Control flow is given a fixed meaning; expressions, patterns, context
managers and all other statements mean what an interpretation says, in any monad. -/
namespace IdiomLint

inductive Outcome (Value Error : Type) where
  | normal
  | returned (value : Value)
  | broken
  | continued
  | raised (error : Error)

/-- What is left open by the meaning of control flow. -/
structure Meaning (m : Type → Type) (Value Error Manager Iterator : Type) where
  /-- The value of a bare return. -/
  nothing : Value
  value : Node → m (Except Error Value)
  /-- Whether a condition holds. -/
  test : Node → m (Except Error Bool)
  /-- Whether a pattern takes a value; the names it binds are effects. -/
  takes : Value → Node → m (Except Error Bool)
  /-- Evaluates a resource and enters it. -/
  enter : Bool → Node → m (Except Error Manager)
  /-- Binds what was entered to a target. -/
  bind : Manager → Node → m (Except Error Unit)
  /-- Leaves a resource, with an error or without; whether the error is dropped. -/
  leave : Manager → Option Error → m (Except Error Bool)
  iterate : Bool → Node → m (Except Error Iterator)
  /-- Takes the next item and binds it to the index; whether there is one. -/
  advance : Iterator → Node → m (Except Error Bool)
  /-- Statements of other kinds. -/
  other : Node → m (Outcome Value Error)

namespace Meaning

variable {m : Type → Type} [Monad m] {Value Error Manager Iterator : Type}
  (I : Meaning m Value Error Manager Iterator)

/-- Goes on after a statement that ends normally. -/
def andThen (rest : m (Outcome Value Error)) : Outcome Value Error → m (Outcome Value Error)
  | .normal => rest
  | o => pure o

def orRaise {α : Type} (act : m (Except Error α)) (rest : α → m (Outcome Value Error)) :
    m (Outcome Value Error) := do
  match ← act with
  | .ok a => rest a
  | .error e => pure (.raised e)

/-- How a statement under a context manager ends once the manager is left. A manager is told of an
error and of nothing else. -/
def leaving (manager : Manager) : Outcome Value Error → m (Outcome Value Error)
  | .raised e =>
    orRaise (I.leave manager (some e)) fun dropped => pure (if dropped then .normal else .raised e)
  | o => orRaise (I.leave manager none) fun _ => pure o

def bindTarget (manager : Manager) : Option Node → m (Except Error Unit)
  | none => pure (.ok ())
  | some target => I.bind manager target

/-- Runs a body inside of resources, the first outermost. -/
def within (isAsync : Bool) : List (WithItem Node) → m (Outcome Value Error) →
    m (Outcome Value Error)
  | [], body => body
  | ⟨resource, target⟩ :: rest, body =>
    orRaise (I.enter isAsync resource) fun manager => do
      let o ← orRaise (I.bindTarget manager target) fun _ => within isAsync rest body
      I.leaving manager o

def guardHolds : Option Node → m (Except Error Bool)
  | none => pure (.ok true)
  | some guard => I.test guard

mutual

def exec : Node → m (Outcome Value Error)
  | ⟨_, .block body⟩ => execAll body
  | ⟨_, .passStmt⟩ => pure .normal
  | ⟨_, .breakStmt⟩ => pure .broken
  | ⟨_, .continueStmt⟩ => pure .continued
  | ⟨_, .returnStmt none⟩ => pure (.returned I.nothing)
  | ⟨_, .returnStmt (some value)⟩ => orRaise (I.value value) fun v => pure (.returned v)
  | ⟨_, .ifElse branches orElse⟩ => execBranches branches (execOptional orElse)
  | ⟨_, .withBlock items body isAsync⟩ => I.within isAsync items (exec body)
  | ⟨_, .matching subject cases⟩ => orRaise (I.value subject) fun v => execCases v cases
  | n => I.other n

/-- One statement after the other, up to the first that does not end normally. -/
def execAll : List Node → m (Outcome Value Error)
  | [] => pure .normal
  | stmt :: rest => exec stmt >>= andThen (execAll rest)

def execOptional : Option Node → m (Outcome Value Error)
  | none => pure .normal
  | some body => exec body

def execBranches : List (Node × Node) → m (Outcome Value Error) → m (Outcome Value Error)
  | [], orElse => orElse
  | (condition, body) :: rest, orElse =>
    orRaise (I.test condition) fun holds => if holds then exec body else execBranches rest orElse

/-- The first case that takes the value and whose guard holds. -/
def execCases (v : Value) : List (MatchCase Node) → m (Outcome Value Error)
  | [] => pure .normal
  | ⟨pattern, guard, body⟩ :: rest =>
    orRaise (I.takes v pattern) fun taken =>
      if taken then
        orRaise (I.guardHolds guard) fun holds => if holds then exec body else execCases v rest
      else execCases v rest

end

/-- The result of a function with this body: falling off its end returns nothing. -/
def call (body : Node) : m (Outcome Value Error) :=
  I.exec body >>= andThen (pure (.returned I.nothing))

/-- How a round of a loop ends when its body has ended: `continue` is the end of the round. -/
def roundEnd : Outcome Value Error → Outcome Value Error
  | .continued => .normal
  | o => o

def round (body : Node) : m (Outcome Value Error) := roundEnd <$> I.exec body

/-- At most so many rounds of a loop; nothing if it goes on after them. -/
def rounds (next : m (Except Error Bool)) (body : Node) (orElse : Option Node) :
    Nat → m (Option (Outcome Value Error))
  | 0 => pure none
  | limit + 1 => do
    match ← next with
    | .error e => pure (some (.raised e))
    | .ok false => some <$> I.execOptional orElse
    | .ok true =>
      match ← I.round body with
      | .normal => rounds next body orElse limit
      | .broken => pure (some .normal)
      | o => pure (some o)

def loop (limit : Nat) : Node → m (Option (Outcome Value Error))
  | ⟨_, .whileLoop condition body orElse⟩ => I.rounds (I.test condition) body orElse limit
  | ⟨_, .forLoop index source body orElse isAsync⟩ => do
    match ← I.iterate isAsync source with
    | .error e => pure (some (.raised e))
    | .ok it => I.rounds (I.advance it index) body orElse limit
  | n => some <$> I.exec n

end Meaning

end IdiomLint
