import IdiomLint.Proofs.CommandLine
import IdiomLint.Proofs.FaultFreeRules

/-! Calls that make a dictionary, and the unions they are to be written as. A call takes one mapping
or iterable of pairs by position, and further mappings and single entries as keywords; a union joins
two values by an operator that plain dictionaries have and other objects may have or not. -/
namespace IdiomLint.Rules.Containers

open Finding

inductive Key where
  | text (name : String)
  | other (id : Nat)
deriving DecidableEq

/-- What a mapping holds for each key. -/
def Entries (Item : Type) : Type := Key → Option Item

namespace Entries

variable {Item : Type}

def empty : Entries Item := fun _ => none

def single (name : String) (item : Item) : Entries Item := fun key =>
  if key = .text name then some item else none

/-- The entries of two mappings. The second one decides about common keys. -/
def merge (a b : Entries Item) : Entries Item := fun key => (b key).or (a key)

def mergeAll (es : List (Entries Item)) : Entries Item := es.foldr merge empty

@[simp] theorem empty_merge (a : Entries Item) : empty.merge a = a := by
  funext key
  simp [merge, empty]

@[simp] theorem merge_empty (a : Entries Item) : a.merge empty = a := by
  funext key
  simp [merge, empty]

theorem merge_assoc (a b c : Entries Item) : (a.merge b).merge c = a.merge (b.merge c) := by
  funext key
  simp [merge, Option.or_assoc]

@[simp] theorem mergeAll_nil : mergeAll ([] : List (Entries Item)) = empty := rfl

@[simp] theorem mergeAll_cons (e : Entries Item) (es : List (Entries Item)) :
    mergeAll (e :: es) = e.merge (mergeAll es) := rfl

theorem mergeAll_append (as bs : List (Entries Item)) :
    mergeAll (as ++ bs) = (mergeAll as).merge (mergeAll bs) := by
  induction as with
  | nil => simp
  | cons a as ih => rw [List.cons_append, mergeAll_cons, mergeAll_cons, ih, merge_assoc]

theorem merge_eq_none_iff {a b : Entries Item} {key : Key} :
    a.merge b key = none ↔ a key = none ∧ b key = none := by
  rw [merge, Option.or_eq_none_iff, and_comm]

/-- An entry for a key that a mapping lacks can come before or after it. -/
theorem single_merge {a : Entries Item} {name : String} (fresh : a (.text name) = none)
    (item : Item) : (single name item).merge a = a.merge (single name item) := by
  funext key
  by_cases h : key = .text name
  · simp [merge, single, h, fresh]
  · simp [merge, single, h]

end Entries

inductive Value (Obj Item : Type) where
  | dict (entries : Entries Item)
  | object (obj : Obj)

/-- What is to be known about objects that are no plain dictionaries: what they hold if they are
mappings, the pairs they give if they are not, and the unions they take part in. -/
structure Objects (Item : Type) where
  Obj : Type
  entries? : Obj → Option (Entries Item)
  pairs? : Obj → Option (Entries Item)
  union? : Value Obj Item → Value Obj Item → Option (Value Obj Item)

namespace Objects

variable {Item : Type} (W : Objects Item)

def held? : Value W.Obj Item → Option (Entries Item)
  | .dict entries => some entries
  | .object obj => W.entries? obj

/-- What a dictionary made of a value holds. -/
def read? : Value W.Obj Item → Option (Entries Item)
  | .dict entries => some entries
  | .object obj => (W.entries? obj).or (W.pairs? obj)

def join? : Value W.Obj Item → Value W.Obj Item → Option (Value W.Obj Item)
  | .dict a, .dict b => some (.dict (a.merge b))
  | x, y => W.union? x y

/-- A kind of mappings for which the union does what it does for plain dictionaries. -/
structure Merging (P : Value W.Obj Item → Prop) : Prop where
  dict : ∀ entries, P (.dict entries)
  mapping : ∀ x, P x → ∃ a, W.held? x = some a
  join : ∀ x y a b, P x → P y → W.held? x = some a → W.held? y = some b →
    ∃ z, W.join? x y = some z ∧ P z ∧ W.held? z = some (a.merge b)

/-- The value takes part in no union. -/
def NoUnion (x : Value W.Obj Item) : Prop := ∀ y, W.join? x y = none ∧ W.join? y x = none

variable {W} {P : Value W.Obj Item → Prop}

theorem read?_of_held? {x : Value W.Obj Item} {a : Entries Item} (h : W.held? x = some a) :
    W.read? x = some a := by
  cases x with
  | dict entries => exact h
  | object obj => exact Option.or_eq_some_iff.2 (.inl h)

theorem merging_dict : W.Merging fun x => ∃ entries, x = .dict entries where
  dict entries := ⟨entries, rfl⟩
  mapping := by
    rintro x ⟨entries, rfl⟩
    exact ⟨entries, rfl⟩
  join := by
    rintro x y a b ⟨a, rfl⟩ ⟨b, rfl⟩ ⟨⟩ ⟨⟩
    exact ⟨_, rfl, ⟨_, rfl⟩, rfl⟩

end Objects

structure Inputs {Item : Type} (W : Objects Item) where
  value : Node → Value W.Obj Item
  item : Node → Item

namespace Inputs

variable {Item : Type} {W : Objects Item} (V : Inputs W)

def held (x : Node) : Entries Item := (W.held? (V.value x)).getD .empty

/-- The entries that are given one by one. -/
def given (members : List (String × Node)) : Entries Item :=
  .mergeAll (members.map fun m => .single m.1 (V.item m.2))

@[simp] theorem given_nil : V.given [] = .empty := rfl

@[simp] theorem given_cons (m : String × Node) (ms : List (String × Node)) :
    V.given (m :: ms) = (Entries.single m.1 (V.item m.2)).merge (V.given ms) := rfl

end Inputs

inductive Keyword where
  | named (name : String) (value : Node)
  | spread (value : Node)

namespace Keyword

def arg : Keyword → CallArg Node
  | .named name value => ⟨value, .named, some name⟩
  | .spread value => ⟨value, .starStar, none⟩

def member? : Keyword → Option (String × Node)
  | .named name value => some (name, value)
  | .spread _ => none

def spread? : Keyword → Option Node
  | .named _ _ => none
  | .spread value => some value

def members (keywords : List Keyword) : List (String × Node) := keywords.filterMap member?

def spreads (keywords : List Keyword) : List Node := keywords.filterMap spread?

variable (name : String) (value : Node) (rest : List Keyword)

@[simp] theorem members_nil : members [] = [] := rfl

@[simp] theorem members_named : members (.named name value :: rest) =
    (name, value) :: members rest := rfl

@[simp] theorem members_spread : members (.spread value :: rest) = members rest := rfl

@[simp] theorem spreads_nil : spreads [] = [] := rfl

@[simp] theorem spreads_named : spreads (.named name value :: rest) = spreads rest := rfl

@[simp] theorem spreads_spread : spreads (.spread value :: rest) = value :: spreads rest := rfl

end Keyword

/-- The arguments of a call that makes a dictionary, in the order of the grammar. -/
structure DictCall where
  positional : Option Node
  keywords : List Keyword
  distinct : ((Keyword.members keywords).map Prod.fst).Nodup
  names : "" ∉ (Keyword.members keywords).map Prod.fst

/-- What the keywords of a call give together: no key comes twice, and all keys are texts. -/
inductive KeywordsGive {Item : Type} {W : Objects Item} (V : Inputs W) :
    List Keyword → Entries Item → Prop
  | nil : KeywordsGive V [] .empty
  | named {name : String} {value : Node} {rest : List Keyword} {given : Entries Item}
      (fresh : given (.text name) = none) (others : KeywordsGive V rest given) :
      KeywordsGive V (.named name value :: rest)
        ((Entries.single name (V.item value)).merge given)
  | spread {value : Node} {rest : List Keyword} {held given : Entries Item}
      (mapping : W.held? (V.value value) = some held) (texts : ∀ id, held (.other id) = none)
      (apart : ∀ key, held key = none ∨ given key = none) (others : KeywordsGive V rest given) :
      KeywordsGive V (.spread value :: rest) (held.merge given)

namespace DictCall

def args (call : DictCall) : List (CallArg Node) :=
  (call.positional.toList.map fun x => ⟨x, .pos, none⟩) ++ call.keywords.map Keyword.arg

def operands (call : DictCall) : List Node :=
  call.positional.toList ++ Keyword.spreads call.keywords

/-- The call succeeds, with these entries. -/
def Gives {Item : Type} {W : Objects Item} (call : DictCall) (V : Inputs W)
    (entries : Entries Item) : Prop :=
  ∃ start given, call.positional.elim (some .empty) (fun x => W.read? (V.value x)) = some start ∧
    KeywordsGive V call.keywords given ∧ entries = start.merge given

end DictCall

/-- A part of a union: an expression, its copy `{**x}` or a display of single entries. -/
inductive UnionTerm where
  | plain (x : Node)
  | copied (x : Node)
  | display (members : List (String × Node))

namespace UnionTerm

def text : UnionTerm → String
  | .plain x => x.sourceText
  | .copied x => "\x7b**" ++ x.sourceText ++ "\x7d"
  | .display members =>
    "\x7b" ++ ", ".intercalate (members.map fun m => "\"" ++ m.1 ++ "\": " ++ m.2.sourceText) ++
      "\x7d"

variable {Item : Type} {W : Objects Item}

def value? (V : Inputs W) : UnionTerm → Option (Value W.Obj Item)
  | .plain x => some (V.value x)
  | .copied x => (W.held? (V.value x)).map .dict
  | .display members => some (.dict (V.given members))

def entries (V : Inputs W) : UnionTerm → Entries Item
  | .plain x => V.held x
  | .copied x => V.held x
  | .display members => V.given members

def joinFrom? (V : Inputs W) : Value W.Obj Item → List UnionTerm → Option (Value W.Obj Item)
  | x, [] => some x
  | x, t :: ts => (t.value? V).bind fun y => (W.join? x y).bind fun z => joinFrom? V z ts

def union? (V : Inputs W) : List UnionTerm → Option (Value W.Obj Item)
  | [] => none
  | t :: ts => (t.value? V).bind fun x => joinFrom? V x ts

end UnionTerm

/-- The union that a call is to be written as. A mapping that is the only argument is copied. -/
def DictCall.terms (call : DictCall) : List UnionTerm :=
  call.positional.toList.map .plain ++
    (Keyword.spreads call.keywords).map (if call.args.length = 1 then .copied else .plain) ++
    if (Keyword.members call.keywords).isEmpty then []
    else [.display (Keyword.members call.keywords)]

variable {env : Env} {alone : Bool}

theorem setKeyword_of_fresh {d : DictArguments} {name : String}
    (fresh : name ∉ d.keywords.map Prod.fst) (value : String) :
    d.setKeyword name value = ⟨d.operands, d.keywords ++ [(name, value)]⟩ := by
  have unknown : d.keywords.any (·.1 == name) = false :=
    List.any_eq_false.2 fun k hk same => fresh (List.mem_map.2 ⟨k, hk, beq_iff_eq.1 same⟩)
  rw [DictArguments.setKeyword, unknown]
  rfl

/-- Keywords are sorted into operands and members, each in their order. -/
theorem dictArguments?_keywords {keywords : List Keyword} {d d' : DictArguments}
    (h : dictArguments? env alone d (keywords.map Keyword.arg) = .ok (some d'))
    (distinct : (d.keywords.map Prod.fst ++ (Keyword.members keywords).map Prod.fst).Nodup)
    (names : "" ∉ (Keyword.members keywords).map Prod.fst) :
    d' = ⟨d.operands ++ (Keyword.spreads keywords).map fun x =>
        (if alone then UnionTerm.copied x else .plain x).text,
      d.keywords ++ (Keyword.members keywords).map fun m => (m.1, m.2.sourceText)⟩ := by
  induction keywords generalizing d with
  | nil =>
    cases h
    simp
  | cons keyword keywords ih =>
    cases keyword with
    | named name value =>
      rw [Keyword.members_named, List.map_cons] at distinct names
      obtain ⟨unnamed, names⟩ := not_or.1 (mt List.mem_cons.2 names)
      have fresh : name ∉ d.keywords.map Prod.fst := fun known =>
        (List.nodup_append.1 distinct).2.2 name known name List.mem_cons_self rfl
      have step : dictArguments? env alone d (Keyword.arg (.named name value) ::
          keywords.map Keyword.arg) = dictArguments? env alone
            (d.setKeyword name value.sourceText) (keywords.map Keyword.arg) := by
        have shown : (some name).filter (· != "") = some name :=
          Option.filter_some_pos (bne_iff_ne.2 (Ne.symm unnamed))
        simp only [Keyword.arg, dictArguments?, shown]
      rw [List.map_cons, step, setKeyword_of_fresh fresh] at h
      rw [ih h (by simpa using distinct) names]
      simp
    | spread value =>
      obtain ⟨mapping, -, h⟩ := bind_eq_ok (x := env.isMapping value) h
      cases mapping with
      | false => cases h
      | true =>
        rw [ih h distinct names]
        cases alone <;> simp [UnionTerm.text]

variable {call : DictCall}

theorem dictArguments?_args {d : DictArguments}
    (h : dictArguments? env alone {} call.args = .ok (some d)) :
    d = ⟨call.positional.toList.map Node.sourceText ++ (Keyword.spreads call.keywords).map fun x =>
        (if alone then UnionTerm.copied x else .plain x).text,
      (Keyword.members call.keywords).map fun m => (m.1, m.2.sourceText)⟩ := by
  obtain ⟨positional, keywords, distinct, names⟩ := call
  cases positional with
  | none => exact dictArguments?_keywords h distinct names
  | some x =>
    have step : dictArguments? env alone {} (DictCall.mk (some x) keywords distinct names).args =
        dictArguments? env alone ⟨[x.sourceText], []⟩ (keywords.map Keyword.arg) := rfl
    rw [step] at h
    exact dictArguments?_keywords h distinct names

theorem union_eq {d : DictArguments}
    (h : dictArguments? env (call.args.length == 1) {} call.args = .ok (some d)) :
    d.union = " | ".intercalate (call.terms.map UnionTerm.text) := by
  rw [dictArguments?_args h, DictArguments.union, DictCall.terms]
  have positional : call.positional.toList.map Node.sourceText =
      (call.positional.toList.map UnionTerm.plain).map UnionTerm.text := by
    cases call.positional <;> rfl
  have spreads : (Keyword.spreads call.keywords).map (fun x =>
      (if call.args.length == 1 then UnionTerm.copied x else .plain x).text) =
        ((Keyword.spreads call.keywords).map
          (if call.args.length = 1 then .copied else .plain)).map UnionTerm.text := by
    by_cases alone : call.args.length = 1 <;> simp [alone]
  rw [positional, spreads]
  cases Keyword.members call.keywords with
  | nil => simp
  | cons m ms => simp [UnionTerm.text, Function.comp_def]

theorem exists_of_mem_dictUnion {i : Info} {callee : Node} {args : List (CallArg Node)}
    {analyzed : Option Node} {fs : List Finding} {found : Finding}
    (h : dictUnion env ⟨i, .call callee args analyzed⟩ = .ok fs) (mem : found ∈ fs) :
    callee.refersTo "builtins.dict" ∧ args.map (·.kind) ≠ [.pos] ∧
      args.all (·.kind == .named) = false ∧
      ∃ d, dictArguments? env (args.length == 1) {} args = .ok (some d) ∧
        found = replace ⟨i, .call callee args analyzed⟩
          (Node.sourceText ⟨i, .call callee args analyzed⟩) d.union := by
  rw [dictUnion] at h
  split at h
  · cases h
    cases mem
  split at h
  case isFalse =>
    cases h
    cases mem
  case isTrue dict =>
    rw [dictCall] at h
    split at h
    · cases h
      cases mem
    case isFalse kinds =>
      obtain ⟨notAlone, unnamed⟩ : args.map (·.kind) ≠ [.pos] ∧
          args.all (·.kind == .named) = false := by
        simpa only [Bool.or_eq_true, not_or, beq_iff_eq, Bool.not_eq_true] using kinds
      obtain ⟨d, sorted, h⟩ := bind_eq_ok h
      cases d with
      | none =>
        cases h
        cases mem
      | some d =>
        cases h
        exact ⟨dict, notAlone, unnamed, d, sorted, List.mem_singleton.1 mem⟩

theorem DictCall.length_args :
    call.args.length = call.operands.length + (Keyword.members call.keywords).length := by
  have keywords (ks : List Keyword) :
      ks.length = (Keyword.spreads ks).length + (Keyword.members ks).length := by
    induction ks with
    | nil => rfl
    | cons k ks ih => cases k <;> simp [ih] <;> omega
  simp only [args, operands, List.length_append, List.length_map, keywords call.keywords]
  omega

theorem DictCall.operands_ne_nil (unnamed : call.args.all (·.kind == .named) = false) :
    call.operands ≠ [] := by
  intro nothing
  obtain ⟨positional, spreads⟩ := List.append_eq_nil_iff.1 nothing
  have named (ks : List Keyword) (h : Keyword.spreads ks = []) :
      (ks.map Keyword.arg).all (·.kind == .named) := by
    induction ks with
    | nil => rfl
    | cons k ks ih =>
      cases k with
      | named name value => exact ih h
      | spread value => cases h
  rw [args, positional, List.map_nil, List.nil_append, named _ spreads] at unnamed
  cases unnamed

/-- A call with one argument that is reported spreads a mapping. -/
theorem DictCall.exists_of_length_eq_one (alone : call.args.length = 1)
    (notAlone : call.args.map (·.kind) ≠ [.pos])
    (unnamed : call.args.all (·.kind == .named) = false) :
    ∃ x, call.positional = none ∧ call.keywords = [.spread x] := by
  obtain ⟨positional, keywords, distinct, names⟩ := call
  cases positional with
  | some x =>
    obtain rfl : keywords = [] := by simpa [args] using alone
    exact absurd rfl notAlone
  | none =>
    obtain ⟨k, rfl⟩ : ∃ k, keywords = [k] := by simpa [args, List.length_eq_one_iff] using alone
    cases k with
    | named name value => cases unnamed
    | spread x => exact ⟨x, rfl, rfl⟩

variable {Item : Type} {W : Objects Item} {V : Inputs W} {P : Value W.Obj Item → Prop}

/-- The mappings among the keywords can come before the single entries. -/
theorem KeywordsGive.eq_merge {keywords : List Keyword} {given : Entries Item}
    (h : KeywordsGive V keywords given) :
    given = (Entries.mergeAll ((Keyword.spreads keywords).map V.held)).merge
      (V.given (Keyword.members keywords)) := by
  induction h with
  | nil => simp
  | @named name value rest given fresh others ih =>
    -- the entry passes all mappings behind it, since none of them has its key
    obtain ⟨fresh, -⟩ := Entries.merge_eq_none_iff.1 (ih ▸ fresh)
    rw [Keyword.spreads_named, Keyword.members_named, Inputs.given_cons, ih,
      ← Entries.merge_assoc, Entries.single_merge fresh, Entries.merge_assoc]
  | @spread value rest held given mapping texts apart others ih =>
    have held_eq : V.held value = held := by simp [Inputs.held, mapping]
    rw [Keyword.spreads_spread, Keyword.members_spread, List.map_cons, Entries.mergeAll_cons,
      Entries.merge_assoc, ← ih, held_eq]

namespace UnionTerm

theorem entries_eq {t : UnionTerm} {y : Value W.Obj Item} {b : Entries Item}
    (value : t.value? V = some y) (held : W.held? y = some b) : t.entries V = b := by
  cases t with
  | plain x =>
    cases value
    simp [entries, Inputs.held, held]
  | copied x =>
    obtain ⟨a, known, rfl⟩ := Option.map_eq_some_iff.1 value
    cases held
    simp [entries, Inputs.held, known]
  | display members =>
    cases value
    cases held
    rfl

/-- Terms of one kind are joined like plain dictionaries. -/
theorem exists_joinFrom? (merging : W.Merging P) {x : Value W.Obj Item} {a : Entries Item}
    {ts : List UnionTerm} (hx : P x) (held : W.held? x = some a)
    (values : ∀ t ∈ ts, ∃ y, t.value? V = some y ∧ P y) :
    ∃ z, joinFrom? V x ts = some z ∧
      W.held? z = some (a.merge (Entries.mergeAll (ts.map (entries V)))) := by
  induction ts generalizing x a with
  | nil => exact ⟨x, rfl, by simpa using held⟩
  | cons t ts ih =>
    obtain ⟨⟨y, value, hy⟩, values⟩ := List.forall_mem_cons.1 values
    obtain ⟨b, held'⟩ := merging.mapping y hy
    obtain ⟨z, joined, hz, held''⟩ := merging.join x y a b hx hy held held'
    obtain ⟨w, rest, result⟩ := ih hz held'' values
    refine ⟨w, ?_, ?_⟩
    · rw [joinFrom?, value, Option.bind_some, joined, Option.bind_some, rest]
    · rw [result, List.map_cons, Entries.mergeAll_cons, entries_eq value held',
        Entries.merge_assoc]

theorem exists_union? (merging : W.Merging P) {ts : List UnionTerm} (nonempty : ts ≠ [])
    (values : ∀ t ∈ ts, ∃ y, t.value? V = some y ∧ P y) :
    ∃ z, union? V ts = some z ∧
      W.held? z = some (Entries.mergeAll (ts.map (entries V))) := by
  cases ts with
  | nil => exact absurd rfl nonempty
  | cons t ts =>
    obtain ⟨⟨x, value, hx⟩, values⟩ := List.forall_mem_cons.1 values
    obtain ⟨a, held⟩ := merging.mapping x hx
    obtain ⟨z, joined, result⟩ := exists_joinFrom? merging hx held values
    refine ⟨z, ?_, ?_⟩
    · rw [union?, value, Option.bind_some, joined]
    · rw [result, List.map_cons, Entries.mergeAll_cons, entries_eq value held]

theorem joinFrom?_of_noUnion {ts : List UnionTerm} {t : UnionTerm} {y : Value W.Obj Item}
    (mem : t ∈ ts) (value : t.value? V = some y) (refused : W.NoUnion y) (x : Value W.Obj Item) :
    joinFrom? V x ts = none := by
  induction ts generalizing x with
  | nil => cases mem
  | cons u ts ih =>
    rw [joinFrom?]
    rcases List.mem_cons.1 mem with rfl | mem
    · rw [value, Option.bind_some, (refused x).2, Option.bind_none]
    · simp [ih mem]

/-- One value without a union spoils the whole. -/
theorem union?_of_noUnion {ts : List UnionTerm} {t : UnionTerm} {y : Value W.Obj Item}
    (several : 2 ≤ ts.length) (mem : t ∈ ts) (value : t.value? V = some y)
    (refused : W.NoUnion y) : union? V ts = none := by
  rcases ts with _ | ⟨first, _ | ⟨second, ts⟩⟩
  · simp at several
  · simp at several
  rw [union?]
  rcases List.mem_cons.1 mem with rfl | mem
  · rw [value, Option.bind_some, joinFrom?]
    simp [(refused _).1]
  · simp [joinFrom?_of_noUnion mem value refused]

end UnionTerm

namespace DictCall

theorem terms_of_several (several : call.args.length ≠ 1) :
    call.terms = call.operands.map .plain ++
      if (Keyword.members call.keywords).isEmpty then []
      else [.display (Keyword.members call.keywords)] := by
  simp [terms, operands, several]

theorem two_le_length_terms (several : call.args.length ≠ 1)
    (unnamed : call.args.all (·.kind == .named) = false) : 2 ≤ call.terms.length := by
  have operands : 0 < call.operands.length := List.length_pos_iff.2 (operands_ne_nil unnamed)
  rw [length_args] at several
  rw [terms_of_several (length_args ▸ several), List.length_append, List.length_map]
  -- the second term is another operand, or the display
  cases hm : Keyword.members call.keywords with
  | nil =>
    rw [hm] at several
    simp only [List.length_nil] at several
    omega
  | cons m ms =>
    simp only [List.isEmpty_cons, Bool.false_eq_true, if_false, List.length_cons, List.length_nil]
    omega

theorem mergeAll_terms (several : call.args.length ≠ 1) :
    Entries.mergeAll (call.terms.map (UnionTerm.entries V)) =
      (Entries.mergeAll (call.operands.map V.held)).merge
        (V.given (Keyword.members call.keywords)) := by
  rw [terms_of_several several, List.map_append, Entries.mergeAll_append, List.map_map]
  cases Keyword.members call.keywords with
  | nil => rfl
  | cons m ms => simp [UnionTerm.entries, Function.comp_def]

/-- A call on mappings gives what the operands hold, and the single entries after them. -/
theorem Gives.eq_merge {entries : Entries Item} (gives : call.Gives V entries)
    (mappings : ∀ x ∈ call.operands, ∃ a, W.held? (V.value x) = some a) :
    entries = (Entries.mergeAll (call.operands.map V.held)).merge
      (V.given (Keyword.members call.keywords)) := by
  obtain ⟨start, given, read, keywords, rfl⟩ := gives
  have start_eq : start = Entries.mergeAll (call.positional.toList.map V.held) := by
    cases hp : call.positional with
    | none =>
      rw [hp] at read
      cases read
      rfl
    | some x =>
      rw [hp] at read
      obtain ⟨a, held⟩ := mappings x (by simp [operands, hp])
      cases read.symm.trans (Objects.read?_of_held? held)
      simp [Inputs.held, held]
  rw [keywords.eq_merge, start_eq, operands, List.map_append, Entries.mergeAll_append,
    Entries.merge_assoc]

theorem Gives.exists_union?_alone {entries : Entries Item} {x : Node} (gives : call.Gives V entries)
    (positional : call.positional = none) (keywords : call.keywords = [.spread x]) :
    ∃ z, UnionTerm.union? V call.terms = some z ∧ W.held? z = some entries := by
  have terms_eq : call.terms = [.copied x] := by simp [terms, args, positional, keywords]
  obtain ⟨start, given, read, keys, rfl⟩ := gives
  rw [positional] at read
  rw [keywords] at keys
  cases read
  cases keys with
  | @spread _ _ held _ mapping texts apart others =>
    cases others
    refine ⟨.dict held, ?_, by simp [Objects.held?]⟩
    simp [terms_eq, UnionTerm.union?, UnionTerm.value?, UnionTerm.joinFrom?, mapping]

theorem Gives.exists_union?_merging {entries : Entries Item} (gives : call.Gives V entries)
    (several : call.args.length ≠ 1) (unnamed : call.args.all (·.kind == .named) = false)
    (merging : W.Merging P) (kind : ∀ x ∈ call.operands, P (V.value x)) :
    ∃ z, UnionTerm.union? V call.terms = some z ∧ W.held? z = some entries := by
  have values : ∀ t ∈ call.terms, ∃ y, t.value? V = some y ∧ P y := by
    rw [terms_of_several several]
    refine List.forall_mem_append.2 ⟨List.forall_mem_map.2 fun x hx => ⟨_, rfl, kind x hx⟩, ?_⟩
    cases Keyword.members call.keywords with
    | nil => simp
    | cons m ms => simpa using ⟨_, rfl, merging.dict _⟩
  have nonempty : call.terms ≠ [] :=
    List.length_pos_iff.1 (Nat.lt_of_lt_of_le Nat.two_pos (two_le_length_terms several unnamed))
  obtain ⟨z, union, held⟩ := UnionTerm.exists_union? merging nonempty values
  refine ⟨z, union, ?_⟩
  rw [held, mergeAll_terms several, gives.eq_merge fun x hx => merging.mapping _ (kind x hx)]

end DictCall

/-- A reported call and the union it is to be written as. The union gives the same entries if it
copies the only argument, or if all operands are plain dictionaries or of another kind that merges
like them. It gives nothing if there are several terms and one of them takes part in no union, like
a list of pairs or a mapping of a class without the operator. -/
theorem dict_union_same {i : Info} {callee : Node} {analyzed : Option Node} {fs : List Finding}
    {found : Finding} (h : dictUnion env ⟨i, .call callee call.args analyzed⟩ = .ok fs)
    (mem : found ∈ fs) :
    callee.refersTo "builtins.dict" ∧
    found = replace ⟨i, .call callee call.args analyzed⟩
      (Node.sourceText ⟨i, .call callee call.args analyzed⟩)
      (" | ".intercalate (call.terms.map UnionTerm.text)) ∧
    ∀ {Item : Type} {W : Objects Item} {V : Inputs W} {entries : Entries Item},
      call.Gives V entries →
      ((call.args.length = 1 ∨
          ∃ P, W.Merging P ∧ ∀ x ∈ call.operands, P (V.value x)) →
        ∃ z, UnionTerm.union? V call.terms = some z ∧ W.held? z = some entries) ∧
      ((call.args.length ≠ 1 ∧ ∃ x ∈ call.operands, W.NoUnion (V.value x)) →
        UnionTerm.union? V call.terms = none) := by
  obtain ⟨dict, notAlone, unnamed, d, sorted, rfl⟩ := exists_of_mem_dictUnion h mem
  refine ⟨dict, by rw [union_eq sorted], fun {Item W V entries} gives => ⟨?_, ?_⟩⟩
  · intro fits
    by_cases alone : call.args.length = 1
    · obtain ⟨x, positional, keywords⟩ := DictCall.exists_of_length_eq_one alone notAlone unnamed
      exact gives.exists_union?_alone positional keywords
    · obtain ⟨P, merging, kind⟩ := fits.resolve_left alone
      exact gives.exists_union?_merging alone unnamed merging kind
  · rintro ⟨several, x, hx, refused⟩
    refine UnionTerm.union?_of_noUnion (t := .plain x)
      (DictCall.two_le_length_terms several unnamed) ?_ rfl refused
    rw [DictCall.terms_of_several several]
    exact List.mem_append_left _ (List.mem_map_of_mem hx)

def dictName : Node := ⟨default, .name ⟨"dict", "builtins.dict", none, false⟩ none⟩

def mappingClass : ClassInfo :=
  ⟨⟨"dict", "builtins.dict"⟩, [⟨"dict", "builtins.dict"⟩, ⟨"Mapping", "typing.Mapping"⟩], [], [],
    "dict"⟩

def mappingEnv : Env where
  table := ⟨((∅ : Std.HashMap SymbolId Symbol).insert "dict" (.cls mappingClass)).insert "z"
    (.value (some (.inst mappingClass.ref []))), ∅⟩
  version := ⟨3, 10⟩
  files := []

def mixedCall : DictCall where
  positional := some (variableNamed "y")
  keywords := [.named "b" ⟨default, .int 2⟩, .spread (variableNamed "z")]
  distinct := by decide
  names := by decide

theorem isMapping_z : mappingEnv.isMapping (variableNamed "z") = .ok true := by
  have value : mappingEnv.table.get "z" = .value (some (.inst mappingClass.ref [])) := by
    simp [mappingEnv, SymbolTable.get]
  have cls : mappingEnv.table.get "dict" = .cls mappingClass := by
    simp [mappingEnv, SymbolTable.get, Std.HashMap.getD_insert]
  have type : mappingEnv.typeOf (variableNamed "z") = some (.type (.inst mappingClass.ref [])) := by
    change mappingEnv.table.entity "z" = _
    rw [SymbolTable.entity, value]
    rfl
  have known : mappingEnv.table.classInfo? mappingClass.ref.id = some mappingClass := by
    change mappingEnv.table.classInfo? "dict" = _
    rw [SymbolTable.classInfo?, cls]
  rw [Env.isMapping, type, SymbolTable.isMapping, SymbolTable.isSubclass, SymbolTable.classOf,
    known]
  decide +kernel

theorem exists_dictUnion_mixedCall :
    ∃ f, dictUnion mappingEnv ⟨default, .call dictName mixedCall.args none⟩ = .ok [f] := by
  have sorted : ∃ d, dictArguments? mappingEnv false {} mixedCall.args =
      mappingEnv.isMapping (variableNamed "z") >>= fun mapping =>
        if mapping then .ok (some d) else pure none := ⟨_, rfl⟩
  have reports : ∃ g, dictUnion mappingEnv ⟨default, .call dictName mixedCall.args none⟩ =
      dictArguments? mappingEnv false {} mixedCall.args >>= g ∧ ∀ d, ∃ f, g (some d) = .ok [f] :=
    ⟨_, rfl, fun _ => ⟨_, rfl⟩⟩
  obtain ⟨d, sorted⟩ := sorted
  obtain ⟨g, reports, single⟩ := reports
  obtain ⟨f, single⟩ := single d
  refine ⟨f, ?_⟩
  rw [reports, sorted, isMapping_z]
  exact single

def noObjects : Objects Nat := ⟨Empty, fun _ => none, fun _ => none, fun _ _ => none⟩

/-- Both `y` and `z` hold an item for the key `a`. -/
def sharedKey : Inputs noObjects :=
  ⟨fun x => .dict (.single "a" (if x.refersTo "m.z" then 3 else 1)), fun _ => 2⟩

theorem dict_union_same_mixed :
    ∃ f fs entries z, dictUnion mappingEnv ⟨default, .call dictName mixedCall.args none⟩ = .ok fs ∧
      f ∈ fs ∧ mixedCall.Gives sharedKey entries ∧
      UnionTerm.union? sharedKey mixedCall.terms = some z ∧ noObjects.held? z = some entries ∧
      entries (.text "a") = some 3 ∧ entries (.text "b") = some 2 := by
  obtain ⟨f, reported⟩ := exists_dictUnion_mixedCall
  have gives : mixedCall.Gives sharedKey ((Entries.single "a" 1).merge
      ((Entries.single "b" 2).merge ((Entries.single "a" 3).merge .empty))) :=
    ⟨_, _, rfl, .named rfl (.spread rfl (fun _ => rfl) (fun _ => .inr rfl) .nil), rfl⟩
  obtain ⟨-, -, same⟩ := dict_union_same reported List.mem_cons_self
  obtain ⟨z, union, held⟩ := (same gives).1 (.inr ⟨_, Objects.merging_dict, fun x _ => ⟨_, rfl⟩⟩)
  exact ⟨f, [f], _, z, reported, List.mem_cons_self, gives, union, held, rfl, rfl⟩

def pairsOnly : Objects Nat := ⟨Entries Nat, fun _ => none, some, fun _ _ => none⟩

def pairsCall : DictCall where
  positional := some ⟨default, .list [⟨default, .tuple [⟨default, .str "a"⟩, ⟨default, .int 1⟩]⟩]⟩
  keywords := [.named "b" ⟨default, .int 2⟩]
  distinct := by decide
  names := by decide

theorem union_of_pairs_suggested :
    let n : Node := ⟨default, .call dictName pairsCall.args none⟩
    let V : Inputs pairsOnly := ⟨fun _ => .object (.single "a" 1), fun _ => 2⟩
    dictUnion mappingEnv n = .ok [replace n "dict([(\"a\", 1)], b=2)"
      "[(\"a\", 1)] | \x7b\"b\": 2\x7d"] ∧
    (∃ entries, pairsCall.Gives V entries) ∧ UnionTerm.union? V pairsCall.terms = none := by
  intro n V
  exact ⟨by decide +kernel, ⟨_, _, _, rfl, .named rfl .nil, rfl⟩, rfl⟩

end IdiomLint.Rules.Containers
