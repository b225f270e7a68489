import IdiomLint.Proofs.Evaluation
import IdiomLint.Proofs.NodeMemory

/-! Columns that are computed. Two checks report a place that no node stands at: the name of a
called method, counted back from the end of the member, and the keyword before a metaclass, taken to
stand right before the class on the same line. In a tree that stands in a text the first column is
never negative; the second one is if the class stands in the first ten columns of its line. -/
namespace IdiomLint

/-- Whether a span stands in a text and has an end that is not before its start. -/
def Span.isProper (s : Span) : Bool :=
  1 ≤ s.line && 0 ≤ s.column && s.endLine.any fun endLine => s.endColumn.any fun endColumn =>
    s.line < endLine || (s.line == endLine && s.column ≤ endColumn)

namespace Node

/-- Whether a node stands in a text. A member ends with its name, which needs its width. -/
def isPlaced (n : Node) : Bool :=
  n.span.isProper && (!n.isMember || n.ref?.all fun ref =>
    n.span.endColumn.any fun endColumn => (ref.name.length : Int) ≤ endColumn)

def Placed (n : Node) : Prop := ∀ inner : Node, inner.Within n → inner.isPlaced

theorem name_length_le_of_isPlaced {n : Node} {ref : Ref} (placed : n.isPlaced)
    (member : n.isMember) (named : n.ref? = some ref) :
    (ref.name.length : Int) ≤ n.span.endColumn.getD 0 := by
  simp only [isPlaced, member, named, Bool.not_true, Bool.false_or, Option.all_some,
    Bool.and_eq_true] at placed
  cases known : n.span.endColumn with
  | none => simp [known] at placed
  | some endColumn => simpa [known] using placed.2

theorem mem_reached (n : Node) : n ∈ n.reached := by
  rw [reached_eq]
  exact List.mem_cons_self

inductive MetaclassOf : Node → Node → Prop where
  | intro (i : Info) (name : String) (decorators bases : List Node) (metaclass : Node)
      (keywords : List (String × Node)) (body : Node) (analyzed : Option Node) :
      MetaclassOf metaclass
        ⟨i, .classDef name decorators bases (some metaclass) keywords body analyzed⟩

end Node

section

variable {checks : List Check} {c : Check} {judge : Env → Node → List Finding} {env : Env}
  {t : Node} {found : List Report}

theorem Action.fault_not_mem_of_foldlM {actions : List (Action Check)} {s s' : RunState}
    (run : actions.foldlM (Action.step env) s = .ok s') (f : Fault) : .fault f ∉ actions := by
  induction actions generalizing s with
  | nil => simp
  | cons a actions ih =>
    rw [List.foldlM_cons] at run
    obtain ⟨s₁, first, rest⟩ := bind_eq_ok run
    rw [List.mem_cons, not_or]
    refine ⟨?_, ih rest⟩
    rintro rfl
    cases first

/-- A run that reports something has entered the whole tree. -/
theorem exists_entries_of_reports (run : reports checks env t = .ok found) :
    ∃ nodes, t.entries .checking = .ok nodes := by
  obtain ⟨s, run, -⟩ := map_eq_ok run
  rw [runTree_eq] at run
  refine ⟨t.reached, Node.entries_eq_ok_iff.2 (t.events_eq_reached fun f fault => ?_)⟩
  exact Action.fault_not_mem_of_foldlM run f (Registry.mem_accept_iff.2 (.inr ⟨f, rfl, fault⟩))

def Check.foundAt (c : Check) (judge : Env → Node → List Finding) (env : Env) (n : Node) :
    List Finding :=
  if c.looksAt n then judge env n else []

theorem Check.stepAt_of_plain (plain : c.judge = .plain judge) (item : .functionItem ∉ c.classes)
    (s : RunState) (n : Node) :
    c.stepAt env s n
      = .ok { s with found := ((c.foundAt judge env n).map c.report).reverse ++ s.found } := by
  rw [c.stepAt_eq item]
  cases looks : c.looksAt n with
  | false => simp [Check.foundAt, looks]
  | true =>
    rw [if_pos rfl, Check.runOn_eq, plain, Check.foundAt, looks]
    simp only [Judge.run, Except.map, Check.after, plain]
    rfl

theorem Check.foldlM_stepAt_of_plain (plain : c.judge = .plain judge)
    (item : .functionItem ∉ c.classes) (nodes : List Node) (s : RunState) :
    nodes.foldlM (c.stepAt env) s = .ok { s with
      found := ((nodes.flatMap (c.foundAt judge env)).map c.report).reverse ++ s.found } := by
  induction nodes generalizing s with
  | nil => rfl
  | cons n nodes ih =>
    rw [List.foldlM_cons, c.stepAt_of_plain plain item]
    refine (ih _).trans ?_
    simp only [List.flatMap_cons, List.map_append, List.reverse_append, List.append_assoc]

/-- Alone, such a check reports what it finds on the nodes of the tree, one after the other. -/
theorem reports_of_plain (plain : c.judge = .plain judge) (item : .functionItem ∉ c.classes)
    {nodes : List Node} (walked : t.entries .checking = .ok nodes) :
    reports [c] env t = .ok ((t.reached.flatMap (c.foundAt judge env)).map c.report) := by
  rw [reports, runTree_singleton walked, c.foldlM_stepAt_of_plain plain item]
  simp [Except.map]

/-- Beside others, it reports the same. -/
theorem mem_reports_iff (plain : c.judge = .plain judge) (item : .functionItem ∉ c.classes)
    (only : checks.filter (fun c' => c'.code = c.code) = [c])
    (run : reports checks env t = .ok found) {r : Report} :
    r ∈ found ∧ r.code = c.code
      ↔ ∃ n ∈ t.reached, c.looksAt n ∧ ∃ f ∈ judge env n, c.report f = r := by
  obtain ⟨nodes, walked⟩ := exists_entries_of_reports run
  have own := filter_code_of_reports only (reports_of_plain plain item walked)
    (by simp only [List.mem_map, forall_exists_index, and_imp]; rintro r f - rfl; rfl) run
  have mine : r ∈ found ∧ r.code = c.code ↔ r ∈ found.filter fun r => r.code = c.code := by
    simp
  rw [mine, own, List.mem_map]
  simp only [List.mem_flatMap, Check.foundAt]
  constructor
  · rintro ⟨f, ⟨n, hn, hf⟩, rfl⟩
    split at hf
    · exact ⟨n, hn, ‹_›, f, hf, rfl⟩
    · cases hf
  · rintro ⟨n, hn, looks, f, hf, rfl⟩
    exact ⟨f, ⟨n, hn, by rwa [if_pos looks]⟩, rfl⟩

end

namespace Rules

/-- The name of a called method is looked for before the end of the member. -/
theorem Strings.column_of_mem_expandTabs {env : Env} {n : Node} {f : Finding}
    (hf : f ∈ Strings.expandTabs env n) :
    ∃ callee ∈ n.children .calleeFirst, callee.isMember
      ∧ (∃ ref, callee.ref? = some ref ∧ ref.name = "replace")
      ∧ f.column = callee.span.endColumn.getD 0 - "replace".length := by
  have either : ∃ isBytes, f ∈ Strings.expandTabsIn isBytes n := by
    rcases List.mem_append.1 hf with h | h
    · exact ⟨false, h⟩
    · exact ⟨true, h⟩
  obtain ⟨isBytes, hf⟩ := either
  unfold Strings.expandTabsIn at hf
  split at hf
  case h_1 i j base ref tab _ _ blanks _ _ _ _ =>
    simp only [List.mem_ite_nil_right, Bool.and_eq_true, beq_iff_eq] at hf
    obtain ⟨⟨named, -⟩, hf⟩ := hf
    cases known : Strings.blanks? isBytes blanks with
    | none => simp [known] at hf
    | some written =>
      simp only [known, List.mem_singleton] at hf
      subst hf
      exact ⟨⟨j, .member base ref⟩, List.mem_cons_self, rfl, ⟨ref, rfl, named⟩, rfl⟩
  case h_2 => cases hf

/-- The keyword before a metaclass is looked for ten columns before the class. -/
theorem Classes.columns_nonneg_iff (env : Env) {n : Node} :
    (∀ f ∈ Classes.abstractMetaclass env n, 0 ≤ f.column)
      ↔ ∀ m : Node, m.MetaclassOf n → m.refersTo "abc.ABCMeta" → 10 ≤ m.span.column := by
  unfold Classes.abstractMetaclass
  split
  case h_1 metaclass _ _ _ =>
    constructor
    · rintro nonneg m ⟨⟩ known
      have column := nonneg _ (by rw [if_pos known]; exact List.mem_singleton_self _)
      simp only [Classes.metaclassWidth] at column
      omega
    · intro right f hf
      simp only [List.mem_ite_nil_right, List.mem_singleton] at hf
      obtain ⟨known, rfl⟩ := hf
      have column := right metaclass (.intro ..) known
      simp only [Classes.metaclassWidth]
      omega
  case h_2 other =>
    refine iff_of_true (by simp) ?_
    rintro m ⟨⟩ -
    exact absurd rfl (other _ _ _ _ _ _ _ _)

end Rules

open Catalogue.Classes (abstractMetaclass)
open Catalogue.Strings (expandTabs)

/-- In a tree that stands in a text, the column reported for tabs is never negative, and that
reported for a metaclass is not if and only if no `ABCMeta` that a class of the tree is made with
stands in the first ten columns of its line. -/
theorem computed_columns_nonneg_iff {checks : List Check} {env : Env} {t : Node}
    {found : List Report} (placed : t.Placed) (run : reports checks env t = .ok found) :
    (checks.filter (fun c => c.code = expandTabs.code) = [expandTabs] →
      ∀ r ∈ found, r.code = expandTabs.code → 0 ≤ r.finding.column) ∧
    (checks.filter (fun c => c.code = abstractMetaclass.code) = [abstractMetaclass] →
      ((∀ r ∈ found, r.code = abstractMetaclass.code → 0 ≤ r.finding.column)
        ↔ ∀ n ∈ t.reached, ∀ m : Node, m.MetaclassOf n → m.refersTo "abc.ABCMeta" →
          10 ≤ m.span.column)) := by
  constructor
  · intro only r hr own
    obtain ⟨n, hn, -, f, hf, rfl⟩ :=
      (mem_reports_iff rfl (by decide) only run).1 ⟨hr, own⟩
    obtain ⟨callee, part, member, ⟨ref, named, replaces⟩, column⟩ :=
      Rules.Strings.column_of_mem_expandTabs hf
    have inside : callee.Within t := (Node.within_of_mem_reached hn).child part
    have width := Node.name_length_le_of_isPlaced (placed callee inside) member named
    rw [replaces] at width
    change 0 ≤ f.column
    omega
  · intro only
    constructor
    · intro nonneg n hn m named
      have looks : abstractMetaclass.looksAt n := by
        cases named
        rfl
      refine (Rules.Classes.columns_nonneg_iff env).1 (fun f hf => ?_) m named
      have reported := (mem_reports_iff rfl (by decide) only run).2 ⟨n, hn, looks, f, hf, rfl⟩
      exact nonneg _ reported.1 reported.2
    · intro right r hr own
      obtain ⟨n, hn, -, f, hf, rfl⟩ :=
        (mem_reports_iff rfl (by decide) only run).1 ⟨hr, own⟩
      exact (Rules.Classes.columns_nonneg_iff env).2 (right n hn) f hf

/-- The call `x.replace("\t", " " * 4)` on the third line. -/
def blanksForTab : Node :=
  ⟨⟨4, ⟨3, 4, some 3, some 28⟩⟩, .call
    ⟨⟨5, ⟨3, 4, some 3, some 13⟩⟩, .member
      ⟨⟨6, ⟨3, 4, some 3, some 5⟩⟩, .name ⟨"x", "m.x", some .inModule, false⟩ none⟩
      ⟨"replace", "", none, false⟩⟩
    [⟨⟨⟨7, ⟨3, 14, some 3, some 18⟩⟩, .str "\t"⟩, .pos, none⟩,
      ⟨⟨⟨8, ⟨3, 20, some 3, some 27⟩⟩, .binary .mul ⟨⟨9, ⟨3, 20, some 3, some 23⟩⟩, .str " "⟩
        ⟨⟨10, ⟨3, 26, some 3, some 27⟩⟩, .int 4⟩ none none⟩, .pos, none⟩] none⟩

/-- A class with its metaclass at a column of the second line, and the call in its body. -/
def abstractClass (column : Int) : Node :=
  ⟨⟨0, ⟨1, 0, some 3, some 28⟩⟩, .classDef "C" [] []
    (some ⟨⟨1, ⟨2, column, some 2, some (column + 7)⟩⟩,
      .name ⟨"ABCMeta", "abc.ABCMeta", some .inModule, false⟩ none⟩) []
    ⟨⟨2, ⟨3, 4, some 3, some 28⟩⟩, .block [⟨⟨3, ⟨3, 4, some 3, some 28⟩⟩, .expression
      blanksForTab⟩]⟩ none⟩

def bareEnv : Env := ⟨⟨∅, ∅⟩, ⟨3, 11⟩, []⟩

/-- The class can be walked, so that such a check reports what it finds there. -/
theorem reports_abstractClass {c : Check} {judge : Env → Node → List Finding}
    (plain : c.judge = .plain judge) (item : .functionItem ∉ c.classes) (column : Int) :
    reports [c] bareEnv (abstractClass column)
      = .ok (((abstractClass column).reached.flatMap (c.foundAt judge bareEnv)).map c.report) := by
  have formed : (abstractClass column).WellFormed := fun _ within =>
    Evaluation.of_allDownTo (p := Node.hasParts) (k := 7) rfl within
  obtain ⟨nodes, walked⟩ := formed.succeeds_entries .checking
  exact reports_of_plain plain item walked

/-- The keyword stands on the second line, right before the metaclass. -/
theorem computed_columns_nonneg_iff_indented :
    (abstractClass 18).Placed ∧
      (∃ found, reports [expandTabs] bareEnv (abstractClass 18) = .ok found ∧
        (∃ r ∈ found, r.finding.column = 6) ∧
        ∀ r ∈ found, r.code = expandTabs.code → 0 ≤ r.finding.column) ∧
      ∃ found, reports [abstractMetaclass] bareEnv (abstractClass 18) = .ok found ∧
        (∃ r ∈ found, r.finding.column = 8) ∧
        ∀ r ∈ found, r.code = abstractMetaclass.code → 0 ≤ r.finding.column := by
  have placed : (abstractClass 18).Placed := fun _ within =>
    Evaluation.of_allDownTo (k := 7) (by decide) within
  have tabs := reports_abstractClass (c := expandTabs) rfl (by decide) 18
  have abc := reports_abstractClass (c := abstractMetaclass) rfl (by decide) 18
  have called : blanksForTab ∈ (abstractClass 18).reached := by
    simp [abstractClass, blanksForTab, Node.reached_eq, Node.children]
  have header : ∀ n ∈ (abstractClass 18).reached, ∀ m : Node, m.MetaclassOf n →
      m.refersTo "abc.ABCMeta" → 10 ≤ m.span.column := by
    rintro n hn m named -
    simp only [abstractClass, blanksForTab, Node.reached_eq, Node.children, List.nil_append,
      Option.toList_some, Option.toList_none, List.map_nil, List.map_cons, List.append_nil,
      List.cons_append, List.flatMap_cons, List.flatMap_nil, List.mem_cons, List.not_mem_nil,
      or_false] at hn
    rcases hn with rfl | rfl | rfl | rfl | rfl | rfl | rfl | rfl | rfl | rfl | rfl <;>
      cases named
    decide
  refine ⟨placed, ⟨_, tabs, ?_, (computed_columns_nonneg_iff placed tabs).1 rfl⟩, _, abc, ?_,
    ((computed_columns_nonneg_iff placed abc).2 rfl).2 header⟩
  · obtain ⟨reported, -⟩ := (mem_reports_iff (c := expandTabs) rfl (by decide) rfl tabs).2
      ⟨blanksForTab, called, rfl, _, List.mem_cons_self, rfl⟩
    exact ⟨_, reported, rfl⟩
  · obtain ⟨reported, -⟩ := (mem_reports_iff (c := abstractMetaclass) rfl (by decide) rfl abc).2
      ⟨_, Node.mem_reached _, rfl, _, List.mem_cons_self, rfl⟩
    exact ⟨_, reported, rfl⟩

/-- The keyword ends the first line, and the metaclass stands in the fifth column of the second. -/
theorem metaclass_column_negative :
    (abstractClass 4).Placed ∧
      ∃ found, reports [abstractMetaclass] bareEnv (abstractClass 4) = .ok found ∧
        ∃ r ∈ found, r.finding.column = -6 := by
  have placed : (abstractClass 4).Placed := fun _ within =>
    Evaluation.of_allDownTo (k := 7) (by decide) within
  have abc := reports_abstractClass (c := abstractMetaclass) rfl (by decide) 4
  obtain ⟨reported, -⟩ := (mem_reports_iff (c := abstractMetaclass) rfl (by decide) rfl abc).2
    ⟨_, Node.mem_reached _, rfl, _, List.mem_cons_self, rfl⟩
  exact ⟨placed, _, abc, _, reported, rfl⟩

end IdiomLint
