import IdiomLint.Bench.Value

/-! Benchmarks and what comes of calling them. -/
namespace IdiomLint.Bench

/-- An error that ends a call: its kind and what it was made with. -/
structure Raised where
  kind : String
  argument : Option Value
deriving Inhabited

/-- The kind and the text of an error. A missing key is shown as it is written in a program. -/
def Raised.text (r : Raised) : String :=
  let shown := match r.argument with
    | none => ""
    | some v => if r.kind == "KeyError" then v.literal else v.text
  r.kind ++ ": " ++ shown

inductive Stop where
  | raised (error : Raised)
  | timeout

/-- The word for how a call ended. -/
def Stop.label : Stop → String
  | raised e => "<" ++ e.kind ++ ">"
  | timeout => "<timeout>"

structure Benchmark where
  name : String
  /-- Results of the calls; the last one stays. -/
  results : List Value
  /-- Whether the function gives its result itself, and not a function to be called for it. -/
  direct : Bool
  /-- The number of the call that fails, if any does. -/
  failsAt : Nat
  raises : Option Raised
  timesOut : Bool
  /-- The sets of parameters it is meant to be called with. -/
  params : List (List (String × Value))

namespace Benchmark

/-- How a call with a number ends. -/
def call (b : Benchmark) (n : Nat) : Except Stop Value :=
  if n = b.failsAt && b.timesOut then .error .timeout
  else
    match b.raises with
    | some e => if n = b.failsAt then .error (.raised e) else .ok (result n)
    | none => .ok (result n)
where
  result (n : Nat) : Value := b.results.getD n (b.results.getLastD .none)

/-- Whether a name is that of a benchmark. -/
def isBenchName (name : String) : Bool := "bench_".toList.isPrefixOf name.toList

end Benchmark

/-- A module with benchmarks, or the error that importing it ends with. -/
abbrev Suite := Except Raised (List Benchmark)

/-- The benchmarks among the functions of a module, by their names. -/
def benchmarks (functions : List Benchmark) : List Benchmark :=
  (functions.filter fun b => Benchmark.isBenchName b.name).mergeSort fun a b => a.name ≤ b.name

/-- Sets a key that may be there already; it then keeps its place. -/
def put {α : Type} (entries : List (String × α)) (key : String) (value : α) :
    List (String × α) :=
  if entries.any fun e => e.1 == key then
    entries.map fun e => if e.1 == key then (key, value) else e
  else entries ++ [(key, value)]

end IdiomLint.Bench
