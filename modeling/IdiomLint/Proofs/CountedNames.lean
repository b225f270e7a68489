import IdiomLint.Proofs.NameOccurrences

/-! Which names a count of reads comes to. Beside everything that a walk enters, the tree of a node
holds what a request to show all local names is given, which no walk looks at. A count succeeds on
the trees that a walk can enter, and leaves out just the names that stand there. -/
namespace IdiomLint

namespace Node

/-- What a request to show all local names is given. -/
def unread : Node → List Node
  | ⟨_, .reveal .locals value⟩ => value.toList
  | _ => []

def fields (n : Node) : List Node := n.held ++ n.unread

theorem sizeOf_lt_of_mem_fields {n c : Node} (h : c ∈ n.fields) : sizeOf c < sizeOf n := by
  rcases List.mem_append.1 h with held | unread
  · exact sizeOf_lt_of_mem_held held
  · unfold Node.unread at unread
    split at unread
    · have := sizeOf_mem_toList unread
      simp
      omega
    · cases unread

/-- A node and everything below it, in whatever field. -/
def everything (n : Node) : List Node := n :: n.fields.attach.flatMap fun c => c.1.everything
termination_by sizeOf n
decreasing_by exact sizeOf_lt_of_mem_fields c.2

theorem everything_eq (n : Node) :
    n.everything = n :: (n.held.flatMap everything ++ n.unread.flatMap everything) := by
  rw [everything, ← List.flatMap_append]
  congr 1
  conv_rhs => rw [← fields, ← List.attach_map_subtype_val n.fields, List.flatMap_map]

/-- Everything that stands in a request to show local names. -/
def hidden (n : Node) : List Node := n.nodes.flatMap fun m => m.unread.flatMap everything

theorem hidden_eq (n : Node) :
    n.hidden = n.unread.flatMap everything ++ n.held.flatMap hidden := by
  rw [hidden, nodes_eq, List.flatMap_cons, List.flatMap_assoc]
  rfl

/-- A tree is what hangs together outside of such requests, and what stands in them. -/
theorem everything_perm (n : Node) : n.everything.Perm (n.nodes ++ n.hidden) := by
  have below : (n.held.flatMap everything).Perm (n.held.flatMap nodes ++ n.held.flatMap hidden) :=
    (List.Perm.flatMap_left n.held fun c hc => everything_perm c).trans
      (List.flatMap_append_perm n.held nodes hidden).symm
  rw [everything_eq, nodes_eq, hidden_eq, List.cons_append]
  refine .cons n ((below.append_right _).trans ?_)
  rw [List.append_assoc]
  exact List.perm_append_comm.append_left _
termination_by sizeOf n
decreasing_by exact sizeOf_lt_of_mem_held hc

/-- No parameter and no wrapped type stands in the place of a node, and every request to reveal a
type holds an expression. -/
def Enterable (n : Node) : Prop := ∀ m ∈ n.nodes, m.refusal = none ∧ m.complaint = none

theorem enterable_iff {n : Node} :
    n.Enterable ↔ (n.refusal = none ∧ n.complaint = none) ∧ ∀ c ∈ n.held, c.Enterable := by
  unfold Enterable
  rw [nodes_eq, List.forall_mem_cons]
  simp only [List.mem_flatMap, forall_exists_index, and_imp]
  exact and_congr_right fun _ => ⟨fun h c hc m hm => h m c hc hm, fun h m c hc hm => h c hc m hm⟩

theorem succeeds_entries_iff {w : Walk} {n : Node} :
    Succeeds (n.entries w) ↔ ∀ f, .fault f ∉ n.events w := by
  constructor
  · rintro ⟨nodes, walked⟩ f
    simp [entries_eq_ok_iff.1 walked]
  · intro clear
    refine succeeds_mapM fun e he => ?_
    cases e with
    | enter m => exact succeeds_ok m
    | fault f => exact absurd he (clear f)

/-- A variable that a node declares can be entered. -/
theorem fault_not_mem_of_declared {n c : Node} (hc : c ∈ n.declarations) (f : Fault) :
    .fault f ∉ c.events .full := by
  obtain ⟨i, name, rfl⟩ := eq_variable_of_mem_declarations hc
  rw [events_full rfl]
  simp [children, complaint]

/-- A walk meets no fault exactly on the trees that it can enter. -/
theorem fault_not_mem_iff (n : Node) : (∀ f, .fault f ∉ n.events .full) ↔ n.Enterable := by
  have below (c : Node) (hc : c ∈ n.held) := fault_not_mem_iff c
  have mem_iff (entered : n.refusal = none) (c : Node) :
      c ∈ n.children .calleeFirst ↔ c ∈ n.held ∨ c ∈ n.declarations := by
    rw [(children_perm entered).mem_iff, List.mem_append]
  rw [enterable_iff]
  constructor
  · intro clear
    obtain ⟨accepted, -, inside⟩ := events_of_clear rfl clear
    exact ⟨accepted, fun c hc => (below c hc).1 (inside c ((mem_iff accepted.1 c).2 (.inl hc)))⟩
  · rintro ⟨⟨entered, content⟩, enterable⟩ f hf
    simp only [events_full entered, content, Option.toList_none, List.map_nil, List.append_nil,
      List.mem_cons, List.mem_flatMap, reduceCtorEq, false_or] at hf
    obtain ⟨c, hc, hf⟩ := hf
    rcases (mem_iff entered c).1 hc with held | declared
    · exact (below c held).2 (enterable c held) f hf
    · exact fault_not_mem_of_declared declared f hf
termination_by sizeOf n
decreasing_by exact sizeOf_lt_of_mem_held hc

theorem readCount_eq_ok_iff_enterable {x : String} {n : Node} {k : Nat} :
    n.readCount x = .ok k ↔ n.Enterable ∧ k = n.nodes.countP (isNameOf x) := by
  rw [readCount_eq_ok_iff, succeeds_entries_iff, fault_not_mem_iff, occurrences]

/-- Can be entered, and no name in it resolves to `x`. -/
def FreeOf (x : String) (n : Node) : Prop := n.Enterable ∧ ∀ m ∈ n.nodes, ¬ m.isNameOf x

end Node

/-- One tree: the search ends there if the name occurs in it, and else goes on with the others. -/
theorem unusedIn_cons_eq_ok_iff {x : String} {context : Node} {rest : List Node} {unused : Bool} :
    unusedIn x (context :: rest) = .ok unused
      ↔ context.FreeOf x ∧ unusedIn x rest = .ok unused
        ∨ unused = false ∧ context.Enterable ∧ ∃ m ∈ context.nodes, m.isNameOf x := by
  cases counted : context.readCount x with
  | error f =>
    have refused : ¬ context.Enterable := fun enterable => by
      rw [Node.readCount_eq_ok_iff_enterable.2 ⟨enterable, rfl⟩] at counted
      cases counted
    rw [unusedIn, counted]
    refine iff_of_false (by simp [bind, Except.bind]) ?_
    rintro (⟨free, -⟩ | ⟨-, enterable, -⟩)
    · exact refused free.1
    · exact refused enterable
  | ok k =>
    obtain ⟨enterable, rfl⟩ := Node.readCount_eq_ok_iff_enterable.1 counted
    have step : unusedIn x (context :: rest) = if 0 < context.nodes.countP (Node.isNameOf x)
        then .ok false else unusedIn x rest := by
      rw [unusedIn, counted]
      rfl
    rw [step]
    by_cases found : ∃ m ∈ context.nodes, m.isNameOf x
    · rw [if_pos (List.countP_pos_iff.2 found), Except.ok.injEq, eq_comm]
      have occupied : ¬ context.FreeOf x := fun free =>
        let ⟨m, hm, named⟩ := found
        free.2 m hm named
      simp only [occupied, false_and, false_or, enterable, found, and_true]
    · rw [if_neg (mt List.countP_pos_iff.1 found)]
      have free : context.FreeOf x := ⟨enterable, fun m hm named => found ⟨m, hm, named⟩⟩
      simp only [free, true_and, found, and_false, or_false]

theorem unusedIn_eq_true_iff {x : String} {contexts : List Node} :
    unusedIn x contexts = .ok true ↔ ∀ c ∈ contexts, c.FreeOf x := by
  induction contexts with
  | nil => simp [unusedIn]
  | cons context rest ih =>
    rw [unusedIn_cons_eq_ok_iff, ih, List.forall_mem_cons]
    simp

theorem unusedIn_eq_false_iff {x : String} {contexts : List Node} :
    unusedIn x contexts = .ok false ↔ ∃ before context after,
      contexts = before ++ context :: after ∧ (∀ c ∈ before, c.FreeOf x) ∧ context.Enterable
        ∧ ∃ m ∈ context.nodes, m.isNameOf x := by
  induction contexts with
  | nil => simp [unusedIn]
  | cons context rest ih =>
    rw [unusedIn_cons_eq_ok_iff, ih]
    constructor
    · rintro (⟨free, before, c, after, rfl, frees, found⟩ | ⟨-, found⟩)
      · exact ⟨context :: before, c, after, rfl, List.forall_mem_cons.2 ⟨free, frees⟩, found⟩
      · exact ⟨[], context, rest, rfl, by simp, found⟩
    · rintro ⟨before, c, after, split, frees, found⟩
      cases before with
      | nil =>
        cases split
        exact .inr ⟨rfl, found⟩
      | cons b before =>
        cases split
        obtain ⟨free, frees⟩ := List.forall_mem_cons.1 frees
        exact .inl ⟨free, before, c, after, rfl, frees, found⟩

/-- A count of reads succeeds exactly on the trees that a walk can enter, and counts each name in
them once, other than those in a request to show local names. So a search for a name says that it is
unused if and only if none of the trees has it, and that it is used if and only if one has it and
none before it. -/
theorem names_counted (x : String) :
    (∀ (t : Node) (k : Nat),
      t.readCount x = .ok k ↔ t.Enterable ∧ k = t.nodes.countP (Node.isNameOf x)) ∧
    (∀ t : Node, t.everything.Perm (t.nodes ++ t.hidden)) ∧
    (∀ contexts, unusedIn x contexts = .ok true ↔ ∀ c ∈ contexts, c.FreeOf x) ∧
    ∀ contexts, unusedIn x contexts = .ok false ↔ ∃ before context after,
      contexts = before ++ context :: after ∧ (∀ c ∈ before, c.FreeOf x) ∧ context.Enterable
        ∧ ∃ m ∈ context.nodes, m.isNameOf x :=
  ⟨fun _ _ => Node.readCount_eq_ok_iff_enterable, Node.everything_perm,
    fun _ => unusedIn_eq_true_iff, fun _ => unusedIn_eq_false_iff⟩

def givenLocals : Node :=
  ⟨default, .reveal .locals (some ⟨default, .name ⟨"x", "m.x", some .inModule, false⟩ none⟩)⟩

/-- The name is there, and neither a count nor a search comes to it. -/
theorem name_given_to_locals_not_counted :
    givenLocals.everything.countP (Node.isNameOf "m.x") = 1
      ∧ givenLocals.readCount "m.x" = .ok 0 ∧ unusedIn "m.x" [givenLocals] = .ok true := by
  have nodes : givenLocals.nodes = [givenLocals] := Node.nodes_eq givenLocals
  have enterable : givenLocals.Enterable := by
    rw [Node.Enterable, nodes]
    exact List.forall_mem_singleton.2 ⟨rfl, rfl⟩
  refine ⟨?_, Node.readCount_eq_ok_iff_enterable.2 ⟨enterable, by rw [nodes]; rfl⟩,
    unusedIn_eq_true_iff.2 (List.forall_mem_singleton.2 ⟨enterable, ?_⟩)⟩
  · rw [Node.everything_eq]
    simp [givenLocals, Node.held, Node.shape, Node.unread, Node.everything_eq, Node.isNameOf]
  · rw [nodes]
    exact List.forall_mem_singleton.2 (by decide)

end IdiomLint
