import IdiomLint.Proofs.ComparedParts

/-! Being the same is an equivalence of trees. Nodes of one form are compared by labels and parts,
nodes of no form by their outlines, and an outline tells the form of its node, so that the two ways
never meet. -/
namespace IdiomLint

namespace Node

/-- Whether a node is as it was written: analysis has put nothing in its place, a chain of
comparisons has one operand more than operators, and what is no node is missing altogether. -/
def asWritten : Node → Bool
  | ⟨_, .call _ _ analyzed⟩ => analyzed.isNone
  | ⟨_, .index _ _ _ analyzed⟩ => analyzed.isNone
  | ⟨_, .binary _ _ _ _ analyzed⟩ => analyzed.isNone
  | ⟨_, .classDef _ _ _ _ _ _ analyzed⟩ => analyzed.isNone
  | ⟨_, .comparison operators operands⟩ => operands.length == operators.length + 1
  | ⟨_, .required type?⟩ => type?.isNone
  | _ => true

def AsWritten (n : Node) : Prop := ∀ inner : Node, inner.Within n → inner.asWritten = true

variable {n c : Node}

theorem AsWritten.own (h : n.AsWritten) : n.asWritten = true := h n (.refl n)

theorem AsWritten.compared (h : n.AsWritten) (hc : c ∈ n.compared) : c.AsWritten :=
  fun inner within => h inner (.deeper (mem_children_of_mem_compared hc) within)

end Node

namespace Outline

theorem kind_declared (i : Info) (name : String) :
    kind (.ofList ((Item.declared i name).chars 0)) = "Var".toList := by
  have shown : (Item.declared i name).chars 0
      = ['V', 'a', 'r'] ++ mark i ++ '(' :: indented 0 name ++ [')'] := rfl
  rw [shown, mark, kind, String.toList_ofList]
  split <;> rfl

theorem kind_text {s : String} (letters : s.toList.all Char.isAlpha) :
    kind (.ofList ((Item.text s).chars 0)) = s.toList := by
  have shown : (Item.text s).chars 0 = indented 0 s := rfl
  rw [shown, indented_zero, String.ofList_toList, kind,
    List.takeWhile_eq_self_iff.2 (List.all_eq_true.1 letters)]

end Outline

namespace Equivalence

open Outline (kind kind_tag kind_declared kind_text)

namespace Form

def word : Form → String
  | name => "NameExpr" | member => "MemberExpr" | index => "IndexExpr" | call => "CallExpr"
  | list => "ListExpr" | tuple => "TupleExpr" | set => "SetExpr" | dict => "DictExpr"
  | star => "StarExpr" | unary => "UnaryExpr" | binary => "OpExpr"
  | comparison => "ComparisonExpr" | slice => "SliceExpr"

def all : List Form :=
  [name, member, index, call, list, tuple, set, dict, star, unary, binary, comparison, slice]

def ofWord? (w : List Char) : Option Form := all.find? (·.word == String.ofList w)

theorem ofWord?_toList {w : String} {told : Option Form} (h : all.find? (·.word == w) = told) :
    ofWord? w.toList = told := by
  rw [ofWord?, String.ofList_toList, h]

end Form

variable {f g : Form} {a b c : Node}

theorem HasForm.form_eq (h : HasForm f a) (h' : HasForm g a) : f = g := by
  cases h <;> cases h' <;> rfl

theorem told_of_form {w : String} (shown : kind a.outline = w.toList) (h : HasForm f a)
    (told : Form.all.find? (·.word == w) = some f) :
    Form.ofWord? (kind a.outline) = some g ↔ HasForm g a := by
  rw [shown, Form.ofWord?_toList told, Option.some.injEq]
  exact ⟨fun same => same ▸ h, h.form_eq⟩

theorem told_of_no_form {w : String} (shown : kind a.outline = w.toList) (h : ∀ f, ¬ HasForm f a)
    (told : Form.all.find? (·.word == w) = none) :
    Form.ofWord? (kind a.outline) = some g ↔ HasForm g a := by
  rw [shown, Form.ofWord?_toList told]
  exact iff_of_false (Option.some_ne_none g).symm (h g)

/-- The outline of a node tells its form. -/
theorem ofWord?_kind (h : a.asWritten = true) :
    Form.ofWord? (kind a.outline) = some g ↔ HasForm g a := by
  obtain ⟨i, shape⟩ := a
  cases shape
  case name ref binding =>
    have shown : kind (Node.outline ⟨i, .name ref binding⟩) = "NameExpr".toList :=
      Outline.outline_name i ref binding ▸ Outline.kind_enclosed rfl _
    exact told_of_form shown (.name ..) rfl
  case member => exact told_of_form (kind_tag rfl _ _ _) (.member ..) rfl
  case index analyzed =>
    cases analyzed with
    | none => exact told_of_form (kind_tag rfl _ _ _) (.index ..) rfl
    | some _ => cases h
  case call analyzed =>
    cases analyzed with
    | none => exact told_of_form (kind_tag rfl _ _ _) (.call ..) rfl
    | some _ => cases h
  case binary analyzed =>
    cases analyzed with
    | none => exact told_of_form (kind_tag rfl _ _ _) (.binary ..) rfl
    | some _ => cases h
  case list => exact told_of_form (kind_tag rfl _ _ _) (.list ..) rfl
  case tuple => exact told_of_form (kind_tag rfl _ _ _) (.tuple ..) rfl
  case set => exact told_of_form (kind_tag rfl _ _ _) (.set ..) rfl
  case dict => exact told_of_form (kind_tag rfl _ _ _) (.dict ..) rfl
  case star => exact told_of_form (kind_tag rfl _ _ _) (.star ..) rfl
  case unary => exact told_of_form (kind_tag rfl _ _ _) (.unary ..) rfl
  case comparison => exact told_of_form (kind_tag rfl _ _ _) (.comparison ..) rfl
  case slice => exact told_of_form (kind_tag rfl _ _ _) (.slice ..) rfl
  case ellipsis =>
    exact told_of_no_form (kind_text (s := "Ellipsis") rfl) (by intro f h; cases h) rfl
  case argument =>
    exact told_of_no_form (kind_text (s := "Argument") rfl) (by intro f h; cases h) rfl
  case required type? =>
    cases type? with
    | none => exact told_of_no_form (kind_text (s := "None") rfl) (by intro f h; cases h) rfl
    | some _ => cases h
  case assignment targets value =>
    obtain _ | ⟨target, _ | ⟨other, targets⟩⟩ := targets
    all_goals exact told_of_no_form (kind_tag rfl _ _ _) (by intro f h; cases h) rfl
  case reveal kind value =>
    cases kind <;> exact told_of_no_form (kind_tag rfl _ _ _) (by intro f h; cases h) rfl
  case leaf kind name =>
    cases kind
    case «variable» => exact told_of_no_form (kind_declared i name) (by intro f h; cases h) rfl
    all_goals exact told_of_no_form (kind_tag rfl _ _ _) (by intro f h; cases h) rfl
  all_goals exact told_of_no_form (kind_tag rfl _ _ _) (by intro f h; cases h) rfl

/-- A node that is the same as one of some form has that form. -/
theorem hasForm_of_nodes (ha : a.asWritten = true) (hb : b.asWritten = true) (h : HasForm f a)
    (same : nodes a b = true) : HasForm f b := by
  by_contra other
  have apart : ∀ g, HasForm g a → ¬ HasForm g b := by
    intro g hg
    obtain rfl : f = g := h.form_eq hg
    exact other
  have shown : a.outline = b.outline := (nodes_iff_of_not_form apart).1 same
  apply other
  rw [← ofWord?_kind hb, ← shown, ofWord?_kind ha]
  exact h

theorem length_entryParts_eq {as bs : List (Option Node × Node)}
    (given : as.map (·.1.isSome) = bs.map (·.1.isSome)) :
    (as.flatMap Node.entryParts).length = (bs.flatMap Node.entryParts).length := by
  induction as generalizing bs with
  | nil => cases bs <;> simp_all
  | cons e as ih =>
    cases bs with
    | nil => cases given
    | cons e' bs =>
      rw [List.map_cons, List.map_cons, List.cons.injEq] at given
      simp only [List.flatMap_cons, List.length_append, Node.entryParts,
        length_toList_eq given.1, ih given.2]
      rfl

/-- The label of a node tells how many parts it has. -/
theorem length_compared_eq (ha : HasForm f a) (hb : HasForm f b) (wa : a.asWritten = true)
    (wb : b.asWritten = true) (same : a.label = b.label) :
    a.compared.length = b.compared.length := by
  cases ha with
  | name | member | index | star | unary | binary => cases hb; rfl
  | call =>
    cases hb
    have counted := congrArg List.length (Label.passed.inj same)
    simpa [Node.compared] using counted
  | list | tuple | set =>
    cases hb
    exact Label.counted.inj same
  | dict =>
    cases hb
    exact length_entryParts_eq (Label.given.inj same)
  | comparison i ops operands =>
    cases hb
    have counted := Label.compared.inj same
    simp_all [Node.asWritten, Node.compared]
  | slice =>
    cases hb
    simp only [Node.label, Label.given.injEq, List.cons.injEq, and_true] at same
    obtain ⟨first, second, third⟩ := same
    simp only [Node.compared, List.length_append, length_toList_eq first, length_toList_eq second,
      length_toList_eq third]

theorem nodes_refl (a : Node) : nodes a a = true := by
  induction a using Node.compared_induction with
  | step a ih =>
    by_cases h : ∃ f, HasForm f a
    · obtain ⟨f, hf⟩ := h
      rw [nodes_iff_of_form hf hf, common_iff]
      refine ⟨rfl, fun k c d hc hd => ?_⟩
      obtain rfl : c = d := Option.some.inj (hc.symm.trans hd)
      exact ih c (List.mem_of_getElem? hc)
    · rw [nodes_iff_of_not_form fun f hf _ => h ⟨f, hf⟩]

theorem nodes_symm (h : nodes a b = true) : nodes b a = true := by
  induction a using Node.compared_induction generalizing b with
  | step a ih =>
    by_cases shared : ∃ f, HasForm f a ∧ HasForm f b
    · obtain ⟨f, ha, hb⟩ := shared
      rw [nodes_iff_of_form ha hb, common_iff] at h
      rw [nodes_iff_of_form hb ha, common_iff]
      refine ⟨h.1.symm, fun k d c hd hc => ?_⟩
      exact ih c (List.mem_of_getElem? hc) (h.2 k c d hc hd)
    · rw [nodes_iff_of_not_form fun f ha hb => shared ⟨f, ha, hb⟩] at h
      rw [nodes_iff_of_not_form fun f hb ha => shared ⟨f, ha, hb⟩]
      exact h.symm

theorem nodes_trans (wa : a.AsWritten) (wb : b.AsWritten) (wc : c.AsWritten)
    (hab : nodes a b = true) (hbc : nodes b c = true) : nodes a c = true := by
  induction a using Node.compared_induction generalizing b c with
  | step a ih =>
    by_cases formed : ∃ f, HasForm f b
    · -- All three have the form of the middle one, and it has a part at every place.
      obtain ⟨f, hb⟩ := formed
      have ha : HasForm f a := hasForm_of_nodes wb.own wa.own hb (nodes_symm hab)
      have hc : HasForm f c := hasForm_of_nodes wb.own wc.own hb hbc
      rw [nodes_iff_of_form ha hb, common_iff] at hab
      rw [nodes_iff_of_form hb hc, common_iff] at hbc
      rw [nodes_iff_of_form ha hc, common_iff]
      refine ⟨hab.1.trans hbc.1, fun k x z hx hz => ?_⟩
      have within : k < b.compared.length := by
        rw [← length_compared_eq ha hb wa.own wb.own hab.1]
        exact (List.getElem?_eq_some_iff.1 hx).1
      have hy : b.compared[k]? = some b.compared[k] := List.getElem?_eq_getElem within
      have mx := List.mem_of_getElem? hx
      exact ih x mx (wa.compared mx) (wb.compared (List.mem_of_getElem? hy))
        (wc.compared (List.mem_of_getElem? hz)) (hab.2 k x _ hx hy) (hbc.2 k _ z hy hz)
    · have no_form : ∀ g, ¬ HasForm g b := fun g hg => formed ⟨g, hg⟩
      have first := (nodes_iff_of_not_form fun g _ => no_form g).1 hab
      have second := (nodes_iff_of_not_form fun g hg => absurd hg (no_form g)).1 hbc
      rw [nodes_iff_of_not_form fun g ha _ =>
        no_form g (hasForm_of_nodes wa.own wb.own ha hab)]
      exact first.trans second

variable {s t u : Option Node}

theorem optional_refl (s : Option Node) : optional s s = true := by
  cases s with
  | none => rfl
  | some a => exact nodes_refl a

theorem optional_symm (h : optional s t = true) : optional t s = true := by
  cases s with
  | none => cases t with
    | none => rfl
    | some b => cases h
  | some a => cases t with
    | none => cases h
    | some b => exact nodes_symm h

theorem optional_trans (ws : ∀ n ∈ s, n.AsWritten) (wt : ∀ n ∈ t, n.AsWritten)
    (wu : ∀ n ∈ u, n.AsWritten) (hst : optional s t = true) (htu : optional t u = true) :
    optional s u = true := by
  cases t with
  | none => cases s with
    | none => exact htu
    | some a => cases hst
  | some b => cases s with
    | none => cases hst
    | some a => cases u with
      | none => cases htu
      | some c => exact nodes_trans (ws a rfl) (wt b rfl) (wu c rfl) hst htu

end Equivalence

/-- Being the same is an equivalence of the trees as they were written, missing ones included. -/
theorem equivalence_optional :
    Equivalence fun s t : {tree : Option Node // ∀ n ∈ tree, n.AsWritten} =>
      Equivalence.optional s.1 t.1 = true where
  refl s := Equivalence.optional_refl s.1
  symm := Equivalence.optional_symm
  trans {s t u} := Equivalence.optional_trans s.2 t.2 u.2

end IdiomLint
