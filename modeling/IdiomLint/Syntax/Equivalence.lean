import IdiomLint.Syntax.Names
import IdiomLint.Syntax.Outline

/-! When two expressions are taken to be the same: equal up to positions and name marks where the
shape is compared part by part, equal outlines for all other shapes. -/
namespace IdiomLint

namespace Equivalence

def sameName (a b : String) : Bool := unmangle a == unmangle b

mutual

def nodes : Node → Node → Bool
  | ⟨_, .name a _⟩, ⟨_, .name b _⟩ => sameName a.fullname b.fullname
  | ⟨_, .member a r⟩, ⟨_, .member b s⟩ =>
    r.name == s.name && sameName r.fullname s.fullname && nodes a b
  | ⟨_, .index a k _ _⟩, ⟨_, .index b l _ _⟩ => nodes a b && nodes k l
  | ⟨_, .call f as _⟩, ⟨_, .call g bs _⟩ => nodes f g && arguments as bs
  | ⟨_, .list as⟩, ⟨_, .list bs⟩ => each as bs
  | ⟨_, .tuple as⟩, ⟨_, .tuple bs⟩ => each as bs
  | ⟨_, .set as⟩, ⟨_, .set bs⟩ => each as bs
  | ⟨_, .dict as⟩, ⟨_, .dict bs⟩ => entries as bs
  | ⟨_, .star a⟩, ⟨_, .star b⟩ => nodes a b
  | ⟨_, .unary op a _⟩, ⟨_, .unary oq b _⟩ => op == oq && nodes a b
  | ⟨_, .binary op a b _ _⟩, ⟨_, .binary oq c d _ _⟩ => op == oq && nodes a c && nodes b d
  | ⟨_, .comparison ops as⟩, ⟨_, .comparison oqs bs⟩ => ops == oqs && common as bs
  | ⟨_, .slice a b c⟩, ⟨_, .slice d e f⟩ => optional a d && optional b e && optional c f
  | a, b => a.outline == b.outline
termination_by structural x => x

def optional : Option Node → Option Node → Bool
  | none, none => true
  | some a, some b => nodes a b
  | _, _ => false
termination_by structural x => x

def each : List Node → List Node → Bool
  | [], [] => true
  | a :: as, b :: bs => nodes a b && each as bs
  | _, _ => false
termination_by structural x => x

/-- As far as both lists go. -/
def common : List Node → List Node → Bool
  | a :: as, b :: bs => nodes a b && common as bs
  | _, _ => true
termination_by structural x => x

def entries : List (Option Node × Node) → List (Option Node × Node) → Bool
  | [], [] => true
  | (k, v) :: as, (l, w) :: bs => optional k l && nodes v w && entries as bs
  | _, _ => false
termination_by structural x => x

def arguments : List (CallArg Node) → List (CallArg Node) → Bool
  | [], [] => true
  | ⟨a, k, n⟩ :: as, ⟨b, l, m⟩ :: bs => nodes a b && k == l && n == m && arguments as bs
  | _, _ => false
termination_by structural x => x

end

end Equivalence

namespace Node

def equivalent (a b : Node) : Bool := Equivalence.nodes a b

end Node

end IdiomLint
