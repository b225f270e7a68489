import IdiomLint.Toml.Lexeme

/-! Reading TOML documents. -/
namespace IdiomLint.Toml

def setMember (name : String) (v : Value) (t : Table) : Table :=
  if t.any (·.1 == name) then t.map fun m => if m.1 == name then (name, v) else m
  else t ++ [(name, v)]

/-- Changes the table behind a key, making the tables on the way that do not exist yet. Where
`throughLists` holds, a list on the way stands for its last table. -/
def updateBehind (throughLists : Bool) (change : Table → Option Table) : Key → Table → Option Table
  | [], t => change t
  | k :: ks, t =>
    match t.lookup k with
    | none => (updateBehind throughLists change ks []).map fun n => setMember k (.table n) t
    | some (.table n) =>
      (updateBehind throughLists change ks n).map fun n => setMember k (.table n) t
    | some (.array items) =>
      match throughLists, items.getLast? with
      | true, some (.table n) =>
        (updateBehind throughLists change ks n).map fun n =>
          setMember k (.array (items.dropLast ++ [.table n])) t
      | _, _ => none
    | some _ => none

/-- Adds an empty table to the list behind a key. -/
def appendTable (key : Key) (t : Table) : Option Table :=
  updateBehind true (fun parent =>
    let name := key.getLastD ""
    match parent.lookup name with
    | none => some (setMember name (.array [.table []]) parent)
    | some (.array items) => some (setMember name (.array (items ++ [.table []])) parent)
    | some _ => none) key.dropLast t

/-- A document while it is read: what it holds so far, the keys of values that no longer change,
the keys that no header may name again, and those that will join them at the next header. -/
structure Draft where
  table : Table
  frozen : List Key
  declared : List Key
  pending : List Key
  header : Key

def isFrozen (frozen : List Key) (key : Key) : Bool := frozen.any fun p => p.isPrefixOf key

def isContainer : Value → Bool
  | .array _ => true
  | .table _ => true
  | _ => false

/-- A member is put into an inline table, unless its place is taken or no longer changes. -/
def addInline (t : Table) (frozen : List Key) (key : Key) (v : Value) :
    Except Cause (Table × List Key) :=
  if isFrozen frozen key then .error (.frozen key)
  else
    let name := key.getLastD ""
    match updateBehind false some key.dropLast t with
    | none => .error .overwritten
    | some _ =>
      match updateBehind false (fun nest =>
          if nest.any (·.1 == name) then none else some (setMember name v nest))
          key.dropLast t with
      | none => .error (.duplicateKey name)
      | some t => .ok (t, if isContainer v then key :: frozen else frozen)

def simpleValue (cs : List Char) : Except Trouble (Value × List Char) :=
  match dateOrMoment? cs with
  | some (v, date, rest) => if date.exists then .ok (v, rest) else fail .badDate cs
  | none =>
    match timePart? cs with
    | some (t, rest) => .ok (.time t, rest)
    | none =>
      match number? cs with
      | some (.ok v, rest) => .ok (v, rest)
      | some (.error cause, rest) => fail cause rest
      | none =>
        match specialFloat? cs with
        | some r => .ok r
        | none => fail .badValue cs

def skipAll (cs : List Char) : Except Trouble (List Char) := skipFiller (cs.length + 1) cs

/-- The equals sign behind a key, and the blanks after it. -/
def equals : List Char → Except Trouble (List Char)
  | '=' :: cs => .ok (skipSpaces cs)
  | cs => fail .noEquals cs

/-- What is left of the room for calls inside each other. -/
def roomAfter (calls room : Nat) (cs : List Char) : Except Trouble Nat :=
  if room < calls then fail .tooDeep cs else .ok (room - calls)

mutual

/-- A value. An array or inline table in it takes two steps, one for the value and one for what it
holds, so twice the length of the text is enough. What an array holds is read two calls further
inside, and what an inline table holds three. -/
def value : Nat → Nat → Read Value
  | _, 0, cs => fail .badValue cs
  | room, fuel + 1, cs =>
    match cs with
    | '"' :: '"' :: '"' :: rest => (multilineString '"' rest).map fun r => (.string r.1, r.2)
    | '"' :: rest => (basicString rest).map fun r => (.string r.1, r.2)
    | '\x27' :: '\x27' :: '\x27' :: rest =>
      (multilineString '\x27' rest).map fun r => (.string r.1, r.2)
    | '\x27' :: rest => (literalString rest).map fun r => (.string r.1, r.2)
    | 't' :: 'r' :: 'u' :: 'e' :: rest => .ok (.bool true, rest)
    | 'f' :: 'a' :: 'l' :: 's' :: 'e' :: rest => .ok (.bool false, rest)
    | '[' :: rest => do
      let room ← roomAfter 2 room rest
      match ← skipAll rest with
      | ']' :: rest => pure (.array [], rest)
      | rest => do
        let (items, rest) ← arrayItems room fuel rest
        pure (.array items, rest)
    | '\x7b' :: rest => do
      let room ← roomAfter 3 room rest
      match skipSpaces rest with
      | '\x7d' :: rest => pure (.table [], rest)
      | rest => do
        let (t, rest) ← inlineMembers room fuel [] [] rest
        pure (.table t, rest)
    | _ => simpleValue cs

def arrayItems : Nat → Nat → Read (List Value)
  | _, 0, cs => fail .openArray cs
  | room, fuel + 1, cs => do
    let (v, rest) ← value room fuel cs
    match ← skipAll rest with
    | ']' :: rest => pure ([v], rest)
    | ',' :: rest => do
      match ← skipAll rest with
      | ']' :: rest => pure ([v], rest)
      | rest => do
        let (vs, rest) ← arrayItems room fuel rest
        pure (v :: vs, rest)
    | rest => fail .openArray rest

def inlineMembers : Nat → Nat → Table → List Key → Read Table
  | _, 0, _, _, cs => fail .openInlineTable cs
  | room, fuel + 1, t, frozen, cs => do
    let (k, rest) ← key cs
    let (v, rest) ← value room fuel (← equals rest)
    match addInline t frozen k v with
    | .error cause => fail cause rest
    | .ok (t, frozen) =>
      match skipSpaces rest with
      | '\x7d' :: rest => pure (t, rest)
      | ',' :: rest => inlineMembers room fuel t frozen (skipSpaces rest)
      | rest => fail .openInlineTable rest

end

/-- All keys that lead to a key from below a header, the key itself left out. -/
def waypoints (header key : Key) : List Key :=
  (List.range (key.length - 1)).map fun i => header ++ key.take (i + 1)

def Draft.assign (d : Draft) (key : Key) (v : Value) : Except Cause Draft :=
  let parent := d.header ++ key.dropLast
  let name := key.getLastD ""
  match (waypoints d.header key).find? d.declared.contains with
  | some k => .error (.redefined k)
  | none =>
    if isFrozen d.frozen parent then .error (.frozen parent)
    else
      match updateBehind true (fun nest =>
          if nest.any (·.1 == name) then none else some (setMember name v nest)) parent d.table with
      | none => .error .overwritten
      | some t =>
        .ok { d with
          table := t
          pending := waypoints d.header key ++ d.pending
          frozen := if isContainer v then (d.header ++ key) :: d.frozen else d.frozen }

/-- At a header the keys that were waiting are declared. -/
def Draft.settle (d : Draft) : Draft :=
  { d with declared := d.pending ++ d.declared, pending := [] }

def Draft.openTable (d : Draft) (key : Key) : Except Cause Draft :=
  if d.declared.contains key || isFrozen d.frozen key then .error (.declaredTwice key)
  else
    match updateBehind true some key d.table with
    | none => .error .overwritten
    | some t => .ok { d with table := t, declared := key :: d.declared, header := key }

/-- A new item of a list starts with a clean slate below its key. -/
def Draft.openItem (d : Draft) (key : Key) : Except Cause Draft :=
  if isFrozen d.frozen key then .error (.frozen key)
  else
    match appendTable key d.table with
    | none => .error .overwritten
    | some t =>
      let keep := fun k : Key => !key.isPrefixOf k
      .ok { d with
        table := t
        frozen := d.frozen.filter keep
        declared := key :: d.declared.filter keep
        header := key }

def orFail {α : Type} (rest : List Char) : Except Cause α → Except Trouble α
  | .ok a => .ok a
  | .error cause => fail cause rest

def assignment (room : Nat) (d : Draft) : Read Draft := fun cs => do
  let (k, rest) ← key cs
  let (v, rest) ← value room (2 * rest.length + 2) (← equals rest)
  let d ← orFail rest (d.assign k v)
  pure (d, rest)

def tableHeader (d : Draft) : Read Draft := fun cs => do
  let (k, rest) ← key (skipSpaces cs)
  let d ← orFail rest (d.openTable k)
  match rest with
  | ']' :: rest => pure (d, rest)
  | rest => fail .openTableHeader rest

def itemHeader (d : Draft) : Read Draft := fun cs => do
  let (k, rest) ← key (skipSpaces cs)
  let d ← orFail rest (d.openItem k)
  match rest with
  | ']' :: ']' :: rest => pure (d, rest)
  | rest => fail .openArrayHeader rest

def statement (room : Nat) (d : Draft) : Read Draft := fun cs =>
  match cs with
  | '[' :: '[' :: rest => itemHeader d.settle rest
  | '[' :: rest => tableHeader d.settle rest
  | '#' :: _ => .ok (d, cs)
  | c :: _ =>
    if isBareKeyChar c || c == '"' || c == '\x27' then assignment room d cs
    else fail .badStatement cs
  | [] => .ok (d, [])

/-- One statement a line; every line takes from the fuel. -/
def lines (room : Nat) : Nat → Draft → List Char → Except Trouble Draft
  | 0, d, _ => .ok d
  | fuel + 1, d, cs =>
    match skipSpaces cs with
    | [] => .ok d
    | '\n' :: rest => lines room fuel d rest
    | cs => do
      let (d, rest) ← statement room d cs
      match ← skipComment (skipSpaces rest) with
      | [] => .ok d
      | '\n' :: rest => lines room fuel d rest
      | rest => fail .noLineEnd rest

/-- Line ends of two characters count as one. -/
def joinLineEnds : List Char → List Char
  | '\r' :: '\n' :: cs => '\n' :: joinLineEnds cs
  | c :: cs => c :: joinLineEnds cs
  | [] => []

/-- The document a text holds, or why it holds none. -/
def parse (text : String) (room : Nat := standardRoom) : Except Refusal Table :=
  let cs := joinLineEnds text.toList
  match lines room (cs.length + 1) ⟨[], [], [], [], []⟩ cs with
  | .ok d => .ok d.table
  | .error t => .error (t.refusal cs)

end IdiomLint.Toml
