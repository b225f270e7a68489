import IdiomLint.Proofs.EquivalentTrees
import IdiomLint.Proofs.Scopes
import IdiomLint.Proofs.StringLiterals

/-! Names that are not resolved. Where the comparison of two expressions comes to two names, it asks
only where they resolve to; where it compares outlines, it sees the names themselves. So two
expressions that are the same agree in their unresolved names unless there is an unresolved name
among those that are compared as such. -/
namespace IdiomLint

namespace Outline

mutual

def Item.names : Item → List Ref
  | .text _ => []
  | .name ref _ => [ref]
  | .declared _ _ => []
  | .tag _ _ _ parts => Item.namesAll parts

def Item.namesAll : List Item → List Ref
  | [] => []
  | part :: rest => part.names ++ Item.namesAll rest

end

def endsName (c : Char) : Bool := c == '*' || c == ' ' || c == ')' || c == '\n'

/-- Whether a part can stand where it does: a text on a line of its own must not look like a name,
and a name must stand on a line of its own. -/
def Layout.admits : Layout → Item → Bool
  | .below, .text s => !"NameExpr(".toList.isPrefixOf (s.toList.dropWhile (· == ' '))
  | .beside, .name _ _ => false
  | _, _ => true

mutual

/-- Whether the names can be read off an outline. -/
def Item.legible : Item → Bool
  | .text s => !s.toList.contains '\n'
  | .name ref _ => !ref.name.toList.any endsName && !ref.fullname.toList.contains '\n'
  | .declared _ own => !own.toList.contains '\n'
  | .tag label _ layout parts =>
    label.toList.all Char.isAlpha && label != "NameExpr" && Item.legibleAll layout parts

def Item.legibleAll (layout : Layout) : List Item → Bool
  | [] => true
  | part :: rest => layout.admits part && part.legible && Item.legibleAll layout rest

end

/-- The reader is in the word with which a line begins, in a name, or behind both. -/
inductive Mode where
  | word (letters : List Char)
  | name (letters : List Char)
  | rest

/-- A line break begins a line wherever it stands; other characters depend on the mode. -/
def Mode.step : Mode → Char → Option (List String × Mode)
  | .name letters, c =>
    some <| if endsName c then ([String.ofList letters], if c = '\n' then .word [] else .rest)
      else ([], .name (letters ++ [c]))
  | .word letters, c =>
    some ([], if c = '\n' then .word []
      else if c = ' ' ∧ letters = [] then .word []
      else if c.isAlpha then .word (letters ++ [c])
      else if c = '(' ∧ letters = "NameExpr".toList then .name []
      else .rest)
  | .rest, c => some ([], if c = '\n' then .word [] else .rest)

open Scanner (run run_trans run_next run_cons)

def Mode.Settled : Mode → Prop
  | .name _ => False
  | _ => True

section

variable {cs : List Char}

theorem run_rest (line : '\n' ∉ cs) : run Mode.step .rest cs = some ([], .rest) := by
  induction cs with
  | nil => rfl
  | cons c cs ih =>
    rw [List.mem_cons, not_or] at line
    have known : Mode.step .rest c = some ([], .rest) := by simp [Mode.step, Ne.symm line.1]
    rw [run_next known, ih line.2]

theorem run_spaces (k : Nat) :
    run Mode.step (.word []) (List.replicate k ' ') = some ([], .word []) := by
  induction k with
  | zero => rfl
  | succ k ih =>
    have known : Mode.step (.word []) ' ' = some ([], .word []) := by simp [Mode.step]
    rw [List.replicate_succ, run_next known, ih]

theorem run_name (letters : List Char) (inside : ∀ c ∈ cs, endsName c = false) :
    run Mode.step (.name letters) cs = some ([], .name (letters ++ cs)) := by
  induction cs generalizing letters with
  | nil => simp [run]
  | cons c cs ih =>
    have known : Mode.step (.name letters) c = some ([], .name (letters ++ [c])) := by
      simp [Mode.step, inside c List.mem_cons_self]
    rw [run_next known, ih _ fun d hd => inside d (List.mem_cons_of_mem c hd)]
    simp

theorem run_newLine {m : Mode} (settled : m.Settled) (k : Nat) :
    run Mode.step m (newLine k) = some ([], .word []) := by
  have known : Mode.step m '\n' = some ([], .word []) := by
    cases m with
    | name => exact settled.elim
    | word => simp [Mode.step]
    | rest => simp [Mode.step]
  rw [newLine, run_next known, run_spaces]

theorem step_close {m : Mode} (settled : m.Settled) :
    Mode.step m ')' = some ([], .rest) := by
  cases m with
  | name => exact settled.elim
  | word letters =>
    have other : Char.isAlpha ')' = false := by decide
    simp [Mode.step, other]
  | rest => simp [Mode.step]

/-- A character that does not go on with the word, nor with a name behind it. -/
theorem step_word {letters : List Char} {c : Char} (line : c ≠ '\n') (alpha : ¬ c.isAlpha)
    (space : c = ' ' → letters ≠ []) (other : c = '(' → letters ≠ "NameExpr".toList) :
    Mode.step (.word letters) c = some ([], .rest) := by
  have space' : ¬ (c = ' ' ∧ letters = []) := fun h => space h.1 h.2
  have other' : ¬ (c = '(' ∧ letters = "NameExpr".toList) := fun h => other h.1 h.2
  rw [Mode.step, if_neg line, if_neg space', if_neg alpha, if_neg other']

theorem step_letter {letters : List Char} {c : Char} (alpha : c.isAlpha) :
    Mode.step (.word letters) c = some ([], .word (letters ++ [c])) := by
  have line : c ≠ '\n' := by rintro rfl; revert alpha; decide
  have space : c ≠ ' ' := by rintro rfl; revert alpha; decide
  rw [Mode.step, if_neg line, if_neg fun h => space h.1, if_pos alpha]

theorem exists_run_word {letters : List Char} (given : letters ≠ []) (line : '\n' ∉ cs)
    (other : ¬ "NameExpr(".toList <+: letters ++ cs) :
    ∃ m : Mode, m.Settled ∧ run Mode.step (.word letters) cs = some ([], m) := by
  induction cs generalizing letters with
  | nil => exact ⟨.word letters, trivial, rfl⟩
  | cons c cs ih =>
    rw [List.mem_cons, not_or] at line
    by_cases alpha : c.isAlpha
    · rw [run_next (step_letter alpha)]
      exact ih (by simp) line.2 (by simpa using other)
    · have apart : c = '(' → letters ≠ "NameExpr".toList := by
        rintro rfl rfl
        exact other (List.prefix_append "NameExpr(".toList cs)
      rw [run_next (step_word (Ne.symm line.1) alpha (fun _ => given) apart)]
      exact ⟨.rest, trivial, run_rest line.2⟩

/-- On a text that does not look like a name the reader finds none. -/
theorem exists_run_text (line : '\n' ∉ cs)
    (other : ¬ "NameExpr(".toList <+: cs.dropWhile (· == ' ')) :
    ∃ m : Mode, m.Settled ∧ run Mode.step (.word []) cs = some ([], m) := by
  induction cs with
  | nil => exact ⟨.word [], trivial, rfl⟩
  | cons c cs ih =>
    rw [List.mem_cons, not_or] at line
    by_cases space : c = ' '
    · subst space
      have known : Mode.step (.word []) ' ' = some ([], .word []) := by simp [Mode.step]
      rw [run_next known]
      exact ih line.2 (by simpa using other)
    · have other : ¬ "NameExpr(".toList <+: [c] ++ cs := by simpa [space] using other
      by_cases alpha : c.isAlpha
      · rw [run_next (step_letter alpha)]
        exact exists_run_word (List.cons_ne_nil c []) line.2 other
      · rw [run_next (step_word (Ne.symm line.1) alpha (absurd · space) fun _ h => by cases h)]
        exact ⟨.rest, trivial, run_rest line.2⟩

theorem run_letters (letters : List Char) (all : ∀ c ∈ cs, c.isAlpha) :
    run Mode.step (.word letters) cs = some ([], .word (letters ++ cs)) := by
  induction cs generalizing letters with
  | nil => simp [run]
  | cons c cs ih =>
    rw [run_next (step_letter (all c List.mem_cons_self)),
      ih _ fun d hd => all d (List.mem_cons_of_mem c hd)]
    simp

/-- Behind a label and what is added to it the reader is past the word at the beginning. -/
theorem run_label {label : String} {added : List Char} {m : Mode} (start : m = .word [] ∨ m = .rest)
    (letters : ∀ c ∈ label.toList, c.isAlpha) (other : label ≠ "NameExpr")
    (colon : ∀ c ∈ added.head?, c = ':') (line : '\n' ∉ added) :
    run Mode.step m (label.toList ++ (added ++ ['('])) = some ([], .rest) := by
  have line : '\n' ∉ added ++ ['('] := by simp [line]
  obtain rfl | rfl := start
  · have behind : run Mode.step (.word label.toList) (added ++ ['(']) = some ([], .rest) := by
      cases added with
      | nil =>
        have known : Mode.step (.word label.toList) '(' = some ([], .rest) :=
          step_word (by decide) (by decide) (absurd · (by decide)) fun _ same =>
            other (String.toList_inj.1 same)
        exact run_next known
      | cons c added =>
        obtain rfl := colon c rfl
        have known : Mode.step (.word label.toList) ':' = some ([], .rest) :=
          step_word (by decide) (by decide) (absurd · (by decide)) (absurd · (by decide))
        exact (run_next known).trans (run_rest fun h => line (List.mem_cons_of_mem _ h))
    exact run_trans (run_letters [] letters) behind
  · refine run_rest fun h => ?_
    rw [List.mem_append] at h
    exact h.elim (fun h => absurd (letters _ h) (by decide)) line

/-- A name is followed by a mark, by a blank, or by nothing. -/
theorem exists_refText (ref : Ref) (toModule : Bool) : ∃ tail : List Char,
    (refText ref toModule).toList = ref.name.toList ++ tail ∧ (∀ c ∈ tail.head?, endsName c)
      ∧ ('\n' ∉ ref.fullname.toList → '\n' ∉ tail) := by
  obtain ⟨mark, marked, base⟩ : ∃ mark : List Char, (mark = [] ∨ mark = ['*'])
      ∧ (if ref.inferred then ref.name ++ "*" else ref.name).toList = ref.name.toList ++ mark := by
    cases ref.inferred
    · exact ⟨[], .inl rfl, (List.append_nil _).symm⟩
    · exact ⟨['*'], .inr rfl, String.toList_append⟩
  obtain ⟨shown, blank, line, text⟩ : ∃ shown : List Char, (∀ c ∈ shown.head?, c = ' ')
      ∧ ('\n' ∉ ref.fullname.toList → '\n' ∉ shown)
      ∧ (refText ref toModule).toList = ref.name.toList ++ mark ++ shown := by
    rw [← base, refText]
    split
    · exact ⟨[], by simp, by simp, by simp⟩
    · split
      · exact ⟨' ' :: '[' :: (ref.fullname.toList ++ [']']), by simp, by simp, by simp [toString]⟩
      · split
        · exact ⟨[' ', '[', 'l', ']'], by simp, by simp, by simp⟩
        · exact ⟨[' ', '[', 'm', ']'], by simp, by simp, by simp⟩
        · exact ⟨[], by simp, by simp, by simp⟩
  refine ⟨mark ++ shown, by rw [text, List.append_assoc], ?_, ?_⟩
  · obtain rfl | rfl := marked
    · intro c hc
      rw [blank c hc]
      rfl
    · rintro c ⟨⟩
      rfl
  · intro full h
    obtain rfl | rfl := marked
    · exact line full h
    · exact line full ((List.mem_cons.1 h).resolve_left (by decide))

/-- The reader finds a name that stands on a line of its own. -/
theorem run_shown_name {ref : Ref} (toModule : Bool)
    (name : ∀ c ∈ ref.name.toList, endsName c = false) (line : '\n' ∉ ref.fullname.toList)
    (k : Nat) :
    run Mode.step (.word []) ((Item.name ref toModule).chars k) = some ([ref.name], .rest) := by
  obtain ⟨tail, text, ends, single⟩ := exists_refText ref toModule
  have whole : '\n' ∉ (refText ref toModule).toList := by
    rw [text, List.mem_append, not_or]
    exact ⟨fun h => absurd (name _ h) (by decide), single line⟩
  have shown : (Item.name ref toModule).chars k
      = "NameExpr(".toList ++ (ref.name.toList ++ (tail ++ [')'])) := by
    have printed : (Item.name ref toModule).chars k
        = "NameExpr".toList ++ '(' :: indented k (refText ref toModule) ++ [')'] := rfl
    rw [printed, indented_eq_toList whole, text]
    simp
  have opened : run Mode.step (.word []) "NameExpr(".toList = some ([], .name []) := rfl
  have closed :
      run Mode.step (.name ref.name.toList) (tail ++ [')']) = some ([ref.name], .rest) := by
    cases tail with
    | nil =>
      have known : Mode.step (.name ref.name.toList) ')' = some ([ref.name], .rest) := by
        simp [Mode.step, endsName]
      exact run_cons known
    | cons c tail =>
      have ending : endsName c := ends c rfl
      have other : '\n' ∉ c :: tail := single line
      rw [List.mem_cons, not_or] at other
      have known : Mode.step (.name ref.name.toList) c = some ([ref.name], .rest) := by
        simp [Mode.step, ending, Ne.symm other.1]
      have behind : run Mode.step .rest (tail ++ [')']) = some ([], .rest) :=
        run_rest (by simp [other.2])
      rw [List.cons_append, run_cons known, behind]
      rfl
  rw [shown]
  exact run_trans opened (run_trans (run_name [] name) closed)

end

theorem run_declared {i : Info} {own : String} {m : Mode} (start : m = .word [] ∨ m = .rest)
    (line : '\n' ∉ own.toList) (k : Nat) :
    run Mode.step m ((Item.declared i own).chars k) = some ([], .rest) := by
  have label : run Mode.step m ("Var".toList ++ (mark i ++ ['('])) = some ([], .rest) := by
    refine run_label start (by simp) (by decide) ?_ ?_
    all_goals
      rw [mark]
      split <;> simp
  have behind : run Mode.step .rest (own.toList ++ [')']) = some ([], .rest) :=
    run_rest (by simp [line])
  have shown := chars_declared_append i own k []
  rw [List.append_nil, indented_eq_toList line] at shown
  have whole := run_trans label behind
  rw [shown]
  simpa using whole

theorem run_tag {label : String} {node : Option Info} {layout : Layout} {parts : List Item}
    {m m' : Mode} {k : Nat} {names : List String} (start : m = .word [] ∨ m = .rest)
    (letters : ∀ c ∈ label.toList, c.isAlpha) (other : label ≠ "NameExpr") (settled : m'.Settled)
    (found : run Mode.step .rest (charsAll layout (layout.inner k) parts) = some (names, m')) :
    run Mode.step m ((Item.tag label node layout parts).chars k) = some (names, .rest) := by
  have head : run Mode.step m (label.toList ++ (lineOf node ++ ['('])) = some ([], .rest) := by
    refine run_label start letters other ?_ fun h => absurd (of_mem_lineOf h) (by decide)
    cases node with
    | none => simp [lineOf]
    | some i => simp [lineOf]
  have shown := chars_tag_append label node layout parts k []
  rw [List.append_nil] at shown
  have closed : run Mode.step m' [')'] = some ([], .rest) := run_next (step_close settled)
  have whole := run_trans head (run_trans found closed)
  rw [shown]
  simpa using whole

/-- The modes in which the reader can be between the parts of a layout. -/
def Layout.Between : Layout → Mode → Prop
  | .below, m => m.Settled
  | .beside, m => m = .rest

theorem Layout.Between.settled {layout : Layout} {m : Mode} (h : layout.Between m) : m.Settled := by
  cases layout with
  | below => exact h
  | beside =>
    cases h
    trivial

theorem Layout.between_rest (layout : Layout) : layout.Between .rest := by
  cases layout with
  | below => trivial
  | beside => rfl

def Layout.opening : Layout → Mode
  | .below => .word []
  | .beside => .rest

theorem Layout.opening_cases (layout : Layout) :
    layout.opening = .word [] ∨ layout.opening = .rest := by
  cases layout with
  | below => exact .inl rfl
  | beside => exact .inr rfl

theorem run_before {layout : Layout} {m : Mode} (between : layout.Between m) (k : Nat) :
    run Mode.step m (layout.before k) = some ([], layout.opening) := by
  cases layout with
  | below => exact run_newLine between k
  | beside =>
    cases between
    rfl

mutual

/-- The reader finds the names that an outline shows. -/
theorem exists_run_item : ∀ (d : Item) (layout : Layout) (k : Nat), layout.admits d → d.legible →
    ∃ m : Mode, layout.Between m
      ∧ run Mode.step layout.opening (d.chars k) = some (d.names.map (·.name), m)
  | .text s, layout, k, admitted, legible => by
    have line : '\n' ∉ s.toList := by simpa [Item.legible] using legible
    have shown : (Item.text s).chars k = indented k s := rfl
    rw [shown, indented_eq_toList line]
    cases layout with
    | below =>
      refine exists_run_text line fun other => ?_
      rw [← List.isPrefixOf_iff_prefix] at other
      rw [Layout.admits, other] at admitted
      cases admitted
    | beside => exact ⟨.rest, rfl, run_rest line⟩
  | .name ref toModule, layout, k, admitted, legible => by
    have ⟨name, line⟩ : (∀ c ∈ ref.name.toList, endsName c = false)
        ∧ '\n' ∉ ref.fullname.toList := by
      simpa [Item.legible] using legible
    cases layout with
    | below => exact ⟨.rest, trivial, run_shown_name toModule name line k⟩
    | beside => cases admitted
  | .declared i own, layout, k, _, legible => by
    have line : '\n' ∉ own.toList := by simpa [Item.legible] using legible
    exact ⟨.rest, layout.between_rest, run_declared layout.opening_cases line k⟩
  | .tag label node inner parts, layout, k, _, legible => by
    simp only [Item.legible, Bool.and_eq_true, List.all_eq_true, bne_iff_ne] at legible
    obtain ⟨m, between, found⟩ :=
      exists_run_parts parts inner (inner.inner k) .rest inner.between_rest legible.2
    exact ⟨.rest, layout.between_rest,
      run_tag layout.opening_cases legible.1.1 legible.1.2 between.settled found⟩

theorem exists_run_parts : ∀ (parts : List Item) (layout : Layout) (k : Nat) (m : Mode),
    layout.Between m → Item.legibleAll layout parts →
    ∃ m' : Mode, layout.Between m' ∧ run Mode.step m (charsAll layout k parts)
      = some ((Item.namesAll parts).map (·.name), m')
  | [], _, _, m, between, _ => ⟨m, between, rfl⟩
  | part :: rest, layout, k, m, between, legible => by
    simp only [Item.legibleAll, Bool.and_eq_true] at legible
    obtain ⟨m₁, between₁, found₁⟩ := exists_run_item part layout k legible.1.1 legible.1.2
    obtain ⟨m₂, between₂, found₂⟩ := exists_run_parts rest layout k m₁ between₁ legible.2
    have shown := charsAll_cons_append layout part rest k []
    rw [List.append_nil, List.append_nil] at shown
    have whole := run_trans (run_before between k) (run_trans found₁ found₂)
    refine ⟨m₂, between₂, ?_⟩
    rw [shown, Item.namesAll, List.map_append]
    exact whole

end

end Outline

def Node.legible (n : Node) : Bool :=
  Outline.Layout.below.admits (Outline.item n) && (Outline.item n).legible

/-- Legible outlines that are equal show the same names. -/
theorem Outline.names_eq_of_outline_eq {m n : Node} (hm : m.legible) (hn : n.legible)
    (same : m.outline = n.outline) :
    (item m).names.map (·.name) = (item n).names.map (·.name) := by
  rw [Node.legible, Bool.and_eq_true] at hm hn
  obtain ⟨_, _, first⟩ := exists_run_item (item m) .below 0 hm.1 hm.2
  obtain ⟨_, _, second⟩ := exists_run_item (item n) .below 0 hn.1 hn.2
  rw [String.ofList_inj.1 same, second, Option.some.injEq, Prod.mk.injEq] at first
  exact first.1.symm

example : Node.legible ⟨default, .await (nameNode "x")⟩ = true := by decide

namespace Equivalence

variable {f : Form} {a b c m n : Node} {x y : Ref}

/-- The comparison of `a` with other trees comes to its part `m`. -/
def Exposes (a m : Node) : Prop := Meets a a m m

theorem Meets.exposes (met : Meets a b m n) : Exposes a m := by
  induction met with
  | start => exact .start
  | part _ hm _ hc _ ih => exact .part ih hm hm hc hc

/-- Names of two trees that stand at the same place: the comparison comes to both at once, or they
are shown at the same place in two outlines that it compares. -/
inductive Corresponding (a b : Node) (x y : Ref) : Prop where
  | compared {i j : Info} {u v : Option Binding} :
      Meets a b ⟨i, .name x u⟩ ⟨j, .name y v⟩ → Corresponding a b x y
  | shown {m n : Node} {k : Nat} : Meets a b m n → (∀ f, HasForm f m → ¬ HasForm f n) →
      m.legible → n.legible → (Outline.item m).names[k]? = some x →
      (Outline.item n).names[k]? = some y → Corresponding a b x y

/-- A tree with all compared parts replaced. -/
theorem exists_replaced (h : HasForm f a) (replace : Node → Node) :
    ∃ b, HasForm f b ∧ b.label = a.label ∧ b.compared = a.compared.map replace := by
  cases h with
  | name i ref binding => exact ⟨_, .name i ref binding, rfl, rfl⟩
  | member i base ref => exact ⟨_, .member i (replace base) ref, rfl, rfl⟩
  | index i base key method analyzed =>
    exact ⟨_, .index i (replace base) (replace key) method analyzed, rfl, rfl⟩
  | call i callee args analyzed =>
    refine ⟨_, .call i (replace callee)
      (args.map fun a => ⟨replace a.value, a.kind, a.name⟩) analyzed, ?_, ?_⟩
    all_goals simp [Node.label, Node.compared, Function.comp_def]
  | list i items =>
    exact ⟨_, .list i (items.map replace), by simp [Node.label], rfl⟩
  | tuple i items =>
    exact ⟨_, .tuple i (items.map replace), by simp [Node.label], rfl⟩
  | set i items =>
    exact ⟨_, .set i (items.map replace), by simp [Node.label], rfl⟩
  | dict i items =>
    refine ⟨_, .dict i (items.map fun e => (e.1.map replace, replace e.2)), ?_, ?_⟩
    · simp [Node.label, Function.comp_def]
    · simp [Node.compared, Node.entryParts, List.map_flatMap, List.flatMap_map, Option.toList_map]
  | star i value => exact ⟨_, .star i (replace value), rfl, rfl⟩
  | unary i op operand method => exact ⟨_, .unary i op (replace operand) method, rfl, rfl⟩
  | binary i op left right method analyzed =>
    exact ⟨_, .binary i op (replace left) (replace right) method analyzed, rfl, rfl⟩
  | comparison i ops operands => exact ⟨_, .comparison i ops (operands.map replace), rfl, rfl⟩
  | slice i start stop step =>
    refine ⟨_, .slice i (start.map replace) (stop.map replace) (step.map replace), ?_, ?_⟩
    · simp [Node.label]
    · simp [Node.compared, Option.toList_map]

open scoped Classical in
/-- A tree stays the same when one of its compared parts is replaced by one that is the same. -/
theorem exists_same_with_part {k : Nat} {d : Node} (h : HasForm f a) (hc : a.compared[k]? = some c)
    (same : nodes c d = true) :
    ∃ b, HasForm f b ∧ b.compared[k]? = some d ∧ nodes a b = true := by
  obtain ⟨b, hb, label, parts⟩ := exists_replaced h fun n => if n = c then d else n
  refine ⟨b, hb, by simp [parts, hc], (nodes_iff_of_form h hb).2 ⟨label.symm, common_iff.2 ?_⟩⟩
  intro l p q hp hq
  rw [parts, List.getElem?_map, hp, Option.map_some, Option.some.injEq] at hq
  rw [← hq]
  split
  · rename_i eq
    rw [eq]
    exact same
  · exact nodes_refl p

/-- A compared name that is not resolved can be exchanged for another one. -/
theorem exists_same_with_name {i : Info} {u : Option Binding}
    (unresolved : unmangle x.fullname = "") (exposed : Exposes a ⟨i, .name x u⟩) :
    ∃ b y, nodes a b = true ∧ Corresponding a b x y ∧ y.fullname = "" ∧ x.name ≠ y.name := by
  suffices h : ∃ b, nodes a b = true
      ∧ Meets a b ⟨i, .name x u⟩ ⟨i, .name ⟨x.name ++ "_", "", none, false⟩ u⟩ by
    obtain ⟨b, same, met⟩ := h
    refine ⟨b, _, same, .compared met, rfl, fun eq => ?_⟩
    have longer := congrArg (·.toList.length) eq
    simp at longer
  induction a using Node.compared_induction with
  | step a ih =>
    obtain ⟨rfl, -⟩ | ⟨f, k, c, d, ha, -, hc, hd, met⟩ := exposed.first
    · refine ⟨_, (nodes_iff_of_form (.name ..) (.name ..)).2 ⟨?_, rfl⟩, .start⟩
      exact congrArg (Label.named none) unresolved
    · obtain rfl : c = d := Option.some.inj (hc.symm.trans hd)
      obtain ⟨d, same, met⟩ := ih c (List.mem_of_getElem? hc) met
      obtain ⟨b, hb, hd, same⟩ := exists_same_with_part ha hc same
      exact ⟨b, same, .of_part ha hb hc hd met⟩

end Equivalence

/-- Trees that are the same as a given one agree with it in the unresolved names at the same places,
exactly if none of the names in it that are compared as such is unresolved. -/
theorem unresolved_names_agree_iff (a : Node) :
    (∀ b : Node, a.equivalent b = true → ∀ x y, Equivalence.Corresponding a b x y →
        x.fullname = "" ∨ y.fullname = "" → x.name = y.name)
      ↔ ∀ (i : Info) (x : Ref) (u : Option Binding),
        Equivalence.Exposes a ⟨i, .name x u⟩ → unmangle x.fullname ≠ "" := by
  constructor
  · intro agree i x u exposed unresolved
    obtain ⟨b, y, same, corresponding, missing, apart⟩ :=
      Equivalence.exists_same_with_name unresolved exposed
    exact apart (agree b same x y corresponding (.inr missing))
  · intro resolved b same x y corresponding unresolved
    cases corresponding with
    | compared met =>
      have alike := (Equivalence.Agree.of_same (met.same same)).label .name (.name ..) (.name ..)
      have full : unmangle x.fullname = unmangle y.fullname := (Equivalence.Label.named.inj alike).2
      have known : unmangle x.fullname ≠ "" := resolved _ x _ met.exposes
      obtain missing | missing := unresolved
      · exact absurd (congrArg unmangle missing) known
      · exact absurd (full.trans (congrArg unmangle missing)) known
    | @shown m n k met apart hm hn hx hy =>
      have names := Outline.names_eq_of_outline_eq hm hn
        ((Equivalence.Agree.of_same (met.same same)).outline apart)
      have place := congrArg (·[k]?) names
      simpa [hx, hy] using place

/-- Two different names that are not resolved are the same, so that `a if b else c` is reported as
if it were `a if a else c`. -/
theorem unresolved_names_taken_as_same :
    (nameNode "a").equivalent (nameNode "b") = true
      ∧ (Rules.Conditions.orOperator ⟨.empty, ⟨3, 10⟩, []⟩
        ⟨default, .conditional (nameNode "b") (nameNode "a") (nameNode "c")⟩).length = 1 := by
  have same : (nameNode "a").equivalent (nameNode "b") = true := by decide
  refine ⟨same, ?_⟩
  rw [Rules.Conditions.orOperator, if_pos same]
  rfl

end IdiomLint
