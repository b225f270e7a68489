import IdiomLint.Check.Run

/-! What a run has to say: texts, and reports with the files they are about; and the order in which
messages are shown. Keys are compared part by part, and a text has no order with a number. -/
namespace IdiomLint

inductive Message where
  | text (text : String)
  | report (report : Report) (file : Option String)
deriving DecidableEq, Inhabited

namespace Message

def isReport : Message → Bool
  | text _ => false
  | report _ _ => true

end Message

/-- The file of a report; an empty name is none. -/
def namedFile (file : Option String) : Option String := file.filter fun f => !f.isEmpty

inductive KeyPart where
  | text (s : String)
  | number (n : Int)
deriving DecidableEq, Inhabited

namespace KeyPart

/-- Whether one key comes no later than another; nothing if a text meets a number. -/
def le? : List KeyPart → List KeyPart → Option Bool
  | [], _ => some true
  | _ :: _, [] => some false
  | a :: as, b :: bs =>
    if a = b then le? as bs
    else
      match a, b with
      | .text s, .text t => some (s ≤ t)
      | .number m, .number n => some (m ≤ n)
      | _, _ => none

end KeyPart

namespace Message

def key (by_ : SortKey) : Message → List KeyPart
  | text t => [.text "", .text t]
  | report r file =>
    let place := [.text (file.getD ""), .number r.finding.line, .number r.finding.column]
    let code := [.text r.code.series, .number r.code.number]
    match by_ with
    | .error => code ++ place
    | .filename => place ++ code

end Message

/-- Some two keys cannot be compared. -/
inductive Incomparable where
  | incomparable
deriving DecidableEq

/-- Sorts by keys; entries with equal keys stay in order. -/
def sortByKey {α : Type} (key : α → List KeyPart) (xs : List α) : Except Incomparable (List α) :=
  if xs.all fun a => xs.all fun b => (KeyPart.le? (key a) (key b)).isSome then
    .ok (xs.mergeSort fun a b => (KeyPart.le? (key a) (key b)).getD true)
  else .error .incomparable

def sortMessages (by_ : SortKey) (ms : List Message) : Except Incomparable (List Message) :=
  sortByKey (Message.key by_) ms

end IdiomLint
