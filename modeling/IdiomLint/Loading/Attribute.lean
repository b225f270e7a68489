/-! The names that a module defines, and which of them is the class of its findings. -/
namespace IdiomLint

inductive Attribute where
  /-- A class of findings, by its own name. -/
  | findingClass (name : String)
  | otherClass (name : String)
  | function (name : String)
  /-- One of the classes that every module can import: the base class of findings, codes and
  categories. -/
  | baseClass (name : String)
  | value
deriving DecidableEq, Inhabited

namespace Attribute

def name? : Attribute → Option String
  | findingClass n => some n
  | otherClass n => some n
  | function n => some n
  | baseClass n => some n
  | value => none

/-- The names of the base classes are never those of findings. -/
def baseNames : List String := ["Error", "ErrorCode", "ErrorCategory"]

def isErrorName (name : String) : Bool := "Error".toList.isPrefixOf name.toList

/-- Asking whether a function inherits from a class makes no sense. -/
inductive NotAClass where
  | notAClass
deriving DecidableEq

/-- Whether an attribute is a class of findings with a name of its own. -/
def isFindingClass (a : Attribute) : Except NotAClass Bool :=
  match a.name? with
  | none => .ok false
  | some name =>
    if isErrorName name && !baseNames.contains name then
      match a with
      | findingClass _ => .ok true
      | function _ => .error .notAClass
      | _ => .ok false
    else .ok false

/-- Whether an attribute under a name is looked at. -/
def isCandidateName (name : String) : Bool :=
  isErrorName name && name != "Error" && name != "ErrorCode"

/-- The first class of findings in the given order. -/
def firstFindingClass? : List (String × Attribute) → Except NotAClass (Option String)
  | [] => .ok none
  | (name, a) :: rest =>
    if isCandidateName name then
      match a.isFindingClass with
      | .error e => .error e
      | .ok true => .ok a.name?
      | .ok false => firstFindingClass? rest
    else firstFindingClass? rest

/-- The class of findings of a module: attributes are tried in the order of their names. -/
def findingClass? (attributes : List (String × Attribute)) : Except NotAClass (Option String) :=
  firstFindingClass? (attributes.mergeSort fun a b => a.1 ≤ b.1)

end Attribute

end IdiomLint
