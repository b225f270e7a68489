import IdiomLint.Check.Basic
import IdiomLint.Syntax.Equivalence
import IdiomLint.Syntax.SourceText
import IdiomLint.Syntax.Walk

/-! Lists, sets and dictionaries: filling, clearing, copying, sorting and merging them. -/
namespace IdiomLint.Rules.Containers

open Finding

/-- A whole slice of something: `x[:]`. -/
def wholeSlice? : Node → Option Node
  | ⟨_, .index base ⟨_, .slice none none none⟩ _ _⟩ => some base
  | _ => none

def clear (env : Env) (n : Node) : List Finding :=
  let cleared? := match n with
    | ⟨_, .deletion target⟩ => wholeSlice? target
    | ⟨_, .assignment [target] ⟨_, .list []⟩⟩ => wholeSlice? target
    | _ => none
  match cleared? with
  | some base =>
    if env.isList base then [replace n n.sourceText (base.sourceText ++ ".clear()")] else []
  | none => []

/-- The list that a statement appends one item to. -/
def appendedTo? (env : Env) : Node → Option Node
  | ⟨_, .expression ⟨_, .call ⟨_, .member base ref⟩ [_] _⟩⟩ =>
    if ref.name == "append" && env.isList base then some base else none
  | _ => none

/-- The last statement if it appended to a list: where it stands and the list; and whether the
appends it belongs to are reported already. -/
structure AppendRun where
  last : Option (Span × Node) := none
  reported : Bool := false

def appendRuns (env : Env) : AppendRun → List Node → List Finding
  | _, [] => []
  | run, stmt :: rest =>
    match appendedTo? env stmt with
    | none => appendRuns env {} rest
    | some base =>
      let next := some (stmt.span, base)
      match run.last with
      | some (at_, previous) =>
        if !run.reported && base.equivalent previous then
          let x := base.sourceText
          startingAt at_.line at_.column
            (replacement (x ++ ".append(...); " ++ x ++ ".append(...)")
              (x ++ ".extend((..., ...))")) :: appendRuns env ⟨next, true⟩ rest
        else appendRuns env ⟨next, run.reported⟩ rest
      | none => appendRuns env ⟨next, run.reported⟩ rest

def extend (env : Env) (n : Node) : List Finding :=
  appendRuns env {} (n.statementList?.getD [])

/-- A loop that adds to a set or takes from it one by one. -/
def setLoop (env : Env) : Node → List Finding
  | n@⟨_, .forLoop index@⟨_, .name _ _⟩ source
      ⟨_, .block [⟨_, .expression ⟨_, .call ⟨_, .member set ref⟩ [⟨arg, _, _⟩] _⟩⟩]⟩
      none false⟩ =>
    if (ref.name == "add" || ref.name == "discard") && env.isSet set
        && !set.equivalent index then
      let function := if ref.name == "add" then "update" else "difference_update"
      let xs := source.sourceText
      let s := set.sourceText
      let x := index.sourceText
      if arg.isName then
        if index.equivalent arg then
          [replace n n.sourceText (s ++ "." ++ function ++ "(" ++ xs ++ ")")]
        else []
      else
        [replace n ("for " ++ x ++ " in " ++ xs ++ ": " ++ s ++ "." ++ ref.name ++ "(...)")
          (s ++ "." ++ function ++ "(... for " ++ x ++ " in " ++ xs ++ ")")]
    else []
  | _ => []

/-- Where a slice makes a copy that is used: not in targets, deletions and lambdas, nor inside
another index. -/
def copying : Walk :=
  ⟨.calleeFirst, fun n => match n with
    | ⟨_, .assignment _ _⟩ => some 1
    | ⟨_, .lambda _ _ _⟩ => some 0
    | ⟨_, .deletion ⟨_, .index _ _ _ _⟩⟩ => some 0
    | ⟨_, .index _ _ _ _⟩ => some 0
    | _ => none⟩

def sliceCopyAt (env : Env) (n : Node) : List Finding :=
  match wholeSlice? n with
  | some base =>
    if env.hasType base [.builtin "bytearray", .builtin "list", .builtin "tuple"] then
      let x := base.sourceText
      [replace n (x ++ "[:]") (x ++ ".copy()")]
    else []
  | none => []

def sliceCopy (env : Env) (n : Node) : Except Fault (List Finding) :=
  (n.entries copying).map fun ns => ns.flatMap (sliceCopyAt env)

/-- Copies among the operands of a merge. Every merge that is looked at is remembered, so that
one within another is looked at once. -/
def mergedCopies (env : Env) (seen : List NodeId) : Node → List Finding × List NodeId
  | n@⟨i, .call ⟨_, .member base ref⟩ [] _⟩ =>
    if !seen.contains i.id && ref.name == "copy"
        && env.hasType base [.builtin "dict", .builtin "set", .named "os._Environ"] then
      let x := base.sourceText
      ([replace n (x ++ ".copy()") x], seen)
    else ([], seen)
  | ⟨i, .binary .bitOr left right _ _⟩ =>
    if seen.contains i.id then ([], seen)
    else
      let l := mergedCopies env seen left
      let r := mergedCopies env l.2 right
      (l.1 ++ r.1, i.id :: r.2)
  | _ => ([], seen)

def copyBeforeMerge (env : Env) (notes : Notes) (n : Node) :
    Except Fault (List Finding × Notes) :=
  let (found, seen) := mergedCopies env notes.seen n
  .ok (found, { notes with seen })

/-- What a statement reverses, if its value is a reversed copy. -/
def reversed? : Node → Option Node
  | ⟨_, .call callee [⟨arg, _, _⟩] _⟩ =>
    if callee.isNameOf "builtins.reversed" then some arg
    else
      match arg with
      | ⟨_, .call inner [⟨x, _, _⟩] _⟩ =>
        if callee.isNameOf "builtins.list" && inner.isNameOf "builtins.reversed" then some x
        else none
      | _ => none
  | ⟨_, .index base ⟨_, .slice none none (some ⟨_, .unary .neg ⟨_, .int 1⟩ _⟩)⟩ _ _⟩ => some base
  | _ => none

def reverse (env : Env) : Node → List Finding
  | n@⟨_, .assignment [target] value⟩ =>
    match reversed? value with
    | some source =>
      if target.equivalent source && env.isList source then
        [replace n n.sourceText (target.sourceText ++ ".reverse()")]
      else []
    | none => []
  | _ => []

def keywordText (a : CallArg Node) : String := a.name.getD "None" ++ "=" ++ a.value.sourceText

def sort (env : Env) : Node → List Finding
  | n@⟨_, .assignment [target] ⟨_, .call callee (⟨source, _, _⟩ :: rest) _⟩⟩ =>
    if callee.isNameOf "builtins.sorted" && target.equivalent source && env.isList source
        && rest.all (·.kind == .named) then
      [replace n n.sourceText
        (target.sourceText ++ ".sort(" ++ ", ".intercalate (rest.map keywordText) ++ ")")]
    else []
  | _ => []

/-- A keyword of a sort, on what those before it say: whether it is reversed, and the key as it is
passed on. None if it is another one. -/
def sortKeyword? (state : Bool × String) (a : CallArg Node) : Option (Bool × String) :=
  match a.name with
  | some "reverse" => if a.value.isTrueLiteral then some (true, state.2) else none
  | some "key" => some (state.1, ", key=" ++ a.value.sourceText)
  | _ => none

def sortKeywords? (args : List (CallArg Node)) : Option (Bool × String) :=
  args.foldlM sortKeyword? (false, "")

/-- The first or the last place. -/
def isFirst? : Node → Option Bool
  | ⟨_, .int k⟩ => if k == 0 then some true else none
  | ⟨_, .unary .neg ⟨_, .int k⟩ _⟩ => if k == 1 then some false else none
  | _ => none

def sortedExtreme (_ : Env) : Node → List Finding
  | n@⟨_, .index ⟨_, .call callee (⟨source, _, _⟩ :: rest) _⟩ key _ _⟩ =>
    match isFirst? key, sortKeywords? rest with
    | some first, some (backwards, by_) =>
      if callee.isNameOf "builtins.sorted" then
        let function := if first == backwards then "max" else "min"
        [replace n n.sourceText (function ++ "(" ++ source.sourceText ++ by_ ++ ")")]
      else []
    | _, _ => []
  | _ => []

def isSpread (entry : Option Node × Node) : Bool := entry.1.isNone

/-- The entries of a dictionary in groups of spreads and plain entries. -/
def entryGroups (items : List (Option Node × Node)) : List (List (Option Node × Node)) :=
  items.splitBy fun a b => isSpread a == isSpread b

/-- How an entry is shown before and after; none if it spreads what is no mapping. -/
def entryTexts? (env : Env) : Option Node × Node → Except Fault (Option (String × String))
  | (some _, _) => .ok (some ("...", "\x7b...\x7d"))
  | (none, value) => do
    if ← env.isMapping value then
      let x := value.sourceText
      return some ("**" ++ x, x)
    else return none

/-- All texts, up to the first entry that has none. -/
def allTexts? (env : Env) :
    List (Option Node × Node) → Except Fault (Option (List (String × String)))
  | [] => .ok (some [])
  | entry :: rest => do
    match ← entryTexts? env entry with
    | none => return none
    | some t => return (← allTexts? env rest).map (t :: ·)

def isMergeable : List (List (Option Node × Node)) → Bool
  | [group] => (group.head?.map isSpread).getD false && group.length ≠ 1
  | [_, _] => true
  | _ => false

def dictDisplay (env : Env) (n : Node) (items : List (Option Node × Node)) :
    Except Fault (List Finding) :=
  if isMergeable (entryGroups items) then do
    match ← allTexts? env items with
    | some texts =>
      return [replace n ("\x7b" ++ ", ".intercalate (texts.map (·.1)) ++ "\x7d")
        (" | ".intercalate (texts.map (·.2)))]
    | none => return []
  else .ok []

/-- The arguments of a `dict` call sorted into operands and keywords. -/
structure DictArguments where
  operands : List String := []
  keywords : List (String × String) := []

def DictArguments.setKeyword (d : DictArguments) (name value : String) : DictArguments :=
  if d.keywords.any (·.1 == name) then
    { d with keywords := d.keywords.map fun k => if k.1 == name then (name, value) else k }
  else { d with keywords := d.keywords ++ [(name, value)] }

def dictArguments? (env : Env) (alone : Bool) (d : DictArguments) :
    List (CallArg Node) → Except Fault (Option DictArguments)
  | [] => .ok (some d)
  | ⟨value, kind, name⟩ :: rest =>
    let x := value.sourceText
    match kind with
    | .star => .ok none
    | .starStar => do
      if ← env.isMapping value then
        let operand := if alone then "\x7b**" ++ x ++ "\x7d" else x
        dictArguments? env alone { d with operands := d.operands ++ [operand] } rest
      else return none
    | _ =>
      match name.filter (· != "") with
      | some keyword => dictArguments? env alone (d.setKeyword keyword x) rest
      | none => dictArguments? env alone { d with operands := d.operands ++ [x] } rest

def DictArguments.union (d : DictArguments) : String :=
  let members := d.keywords.map fun k => "\"" ++ k.1 ++ "\": " ++ k.2
  let display := if members.isEmpty then [] else ["\x7b" ++ ", ".intercalate members ++ "\x7d"]
  " | ".intercalate (d.operands ++ display)

def dictCall (env : Env) (n : Node) (args : List (CallArg Node)) : Except Fault (List Finding) :=
  if args.map (·.kind) == [.pos] || args.all (·.kind == .named) then .ok []
  else do
    match ← dictArguments? env (args.length == 1) {} args with
    | some d => return [replace n n.sourceText d.union]
    | none => return []

def dictUnion (env : Env) (n : Node) : Except Fault (List Finding) :=
  if !env.version.atLeast 3 9 then .ok []
  else
    match n with
    | ⟨_, .dict items⟩ => dictDisplay env n items
    | ⟨_, .call callee args _⟩ =>
      if callee.refersTo "builtins.dict" then dictCall env n args else .ok []
    | _ => .ok []

end IdiomLint.Rules.Containers
