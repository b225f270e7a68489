import IdiomLint.Syntax.Outline

/-! How outlines begin, and which literals an outline shows as they are. -/
namespace IdiomLint.Outline

/-- Nothing is indented at the left edge. -/
theorem indented_zero (s : String) : indented 0 s = s.toList := by
  have same (c : Char) : (if c = '\n' then newLine 0 else [c]) = [c] := by
    split
    · rename_i eq
      rw [eq]
      rfl
    · rfl
  simp only [indented, same, List.flatMap_singleton']

/-- A text of one line is shown as it is at any depth. -/
theorem indented_eq_toList {s : String} (line : '\n' ∉ s.toList) (depth : Nat) :
    indented depth s = s.toList := by
  have same (c : Char) (h : c ∈ s.toList) : (if c = '\n' then newLine depth else [c]) = [c] :=
    if_neg (by rintro rfl; exact line h)
  rw [indented, List.flatMap_def, List.map_congr_left same, ← List.flatMap_def,
    List.flatMap_singleton']

/-- The number of a line has digits only, and perhaps a sign. -/
theorem of_mem_lineOf {node : Option Info} {c : Char} (h : c ∈ lineOf node) :
    c = ':' ∨ c = '-' ∨ c.isDigit := by
  have digits {n : Nat} (h : c ∈ n.repr.toList) : c.isDigit :=
    Nat.isDigit_of_mem_toDigits (by decide) (by decide) (Nat.toList_repr ▸ h)
  have number {n : Int} (h : c ∈ n.repr.toList) : c = '-' ∨ c.isDigit := by
    cases n with
    | ofNat n => exact .inr (digits h)
    | negSucc n =>
      have shown : (Int.negSucc n).repr = "-" ++ n.succ.repr := rfl
      rw [shown, String.toList_append, List.mem_append] at h
      exact h.imp List.mem_singleton.1 digits
  cases node with
  | none => cases h
  | some i => exact (List.mem_cons.1 h).imp_right number

theorem chars_declared_append (i : Info) (own : String) (k : Nat) (u : List Char) :
    (Item.declared i own).chars k ++ u
      = "Var".toList ++ (mark i ++ '(' :: (indented k own ++ ')' :: u)) := by
  have shown : (Item.declared i own).chars k
      = "Var".toList ++ mark i ++ '(' :: indented k own ++ [')'] := rfl
  simp only [shown, List.append_assoc, List.cons_append, List.nil_append]

theorem chars_tag_append (label : String) (node : Option Info) (layout : Layout)
    (parts : List Item) (k : Nat) (u : List Char) :
    (Item.tag label node layout parts).chars k ++ u = label.toList
      ++ (lineOf node ++ '(' :: (charsAll layout (layout.inner k) parts ++ ')' :: u)) := by
  have shown : (Item.tag label node layout parts).chars k = label.toList ++ lineOf node
      ++ '(' :: charsAll layout (layout.inner k) parts ++ [')'] := rfl
  simp only [shown, List.append_assoc, List.cons_append, List.nil_append]

theorem charsAll_cons_append (layout : Layout) (part : Item) (rest : List Item) (k : Nat)
    (u : List Char) : charsAll layout k (part :: rest) ++ u
      = layout.before k ++ (part.chars k ++ (charsAll layout k rest ++ u)) := by
  have shown : charsAll layout k (part :: rest)
      = layout.before k ++ part.chars k ++ charsAll layout k rest := rfl
  simp only [shown, List.append_assoc]

/-- The letters with which a text begins. -/
def kind (s : String) : List Char := s.toList.takeWhile Char.isAlpha

theorem kind_append {tag : String} (letters : tag.toList.all Char.isAlpha) (more : String) :
    kind (tag ++ more) = tag.toList ++ kind more := by
  rw [kind, String.toList_append, List.takeWhile_append_of_pos (List.all_eq_true.1 letters), kind]

theorem kind_tag {label : String} (letters : label.toList.all Char.isAlpha) (node : Option Info)
    (layout : Layout) (parts : List Item) :
    kind (.ofList ((Item.tag label node layout parts).chars 0)) = label.toList := by
  have shown : (Item.tag label node layout parts).chars 0 = label.toList ++ lineOf node
      ++ '(' :: charsAll layout (layout.inner 0) parts ++ [')'] := rfl
  rw [shown, kind, String.toList_ofList, List.append_assoc, List.append_assoc,
    List.takeWhile_append_of_pos (List.all_eq_true.1 letters)]
  cases node with
  | none => exact List.append_nil _
  | some i => exact List.append_nil _

theorem kind_dump {label : String} (letters : label.toList.all Char.isAlpha) (i : Info)
    (parts : List Item) : kind (.ofList ((dump label i parts).chars 0)) = label.toList :=
  kind_tag letters (some i) .below parts

/-- The outline of a node on one line. -/
def enclosed (tag content : String) : String := tag ++ "(" ++ content ++ ")"

theorem enclosed_inj {tag a b : String} : enclosed tag a = enclosed tag b ↔ a = b := by
  rw [enclosed, enclosed, String.append_left_inj, String.append_right_inj]

theorem kind_enclosed {tag : String} (letters : tag.toList.all Char.isAlpha) (content : String) :
    kind (enclosed tag content) = tag.toList := by
  rw [enclosed, String.append_assoc, String.append_assoc, kind_append letters]
  simp [kind]

theorem ofList_enclosed (label content : String) :
    String.ofList (label.toList ++ '(' :: content.toList ++ [')']) = enclosed label content := by
  have opened : "(".toList = ['('] := rfl
  have closed : ")".toList = [')'] := rfl
  apply String.toList_inj.1
  rw [enclosed, String.toList_ofList, String.toList_append, String.toList_append,
    String.toList_append, opened, closed]
  simp only [List.append_assoc, List.cons_append, List.nil_append]

theorem ofList_chars_beside (label content : String) :
    String.ofList ((Item.tag label none .beside [.text content]).chars 0)
      = enclosed label content := by
  have shown : (Item.tag label none .beside [.text content]).chars 0
      = label.toList ++ [] ++ '(' :: (indented 0 content ++ []) ++ [')'] := rfl
  rw [shown, indented_zero, List.append_nil, List.append_nil, ofList_enclosed]

theorem outline_int (i : Info) (value : Int) :
    Node.outline ⟨i, .int value⟩ = enclosed "IntExpr" value.repr :=
  ofList_chars_beside _ _

theorem outline_str (i : Info) (value : String) :
    Node.outline ⟨i, .str value⟩ = enclosed "StrExpr" (literal value) :=
  ofList_chars_beside _ _

theorem outline_bytes (i : Info) (value : String) :
    Node.outline ⟨i, .bytes value⟩ = enclosed "BytesExpr" (literal value) :=
  ofList_chars_beside _ _

theorem outline_name (i : Info) (ref : Ref) (binding : Option Binding) :
    Node.outline ⟨i, .name ref binding⟩
      = enclosed "NameExpr" (refText ref ((binding.map (·.toModule)).getD false)) := by
  rw [← ofList_enclosed, ← indented_zero (refText _ _)]
  rfl

/-- Printable ASCII other than the backslash. -/
def isVerbatim (c : Char) : Bool := 32 ≤ c.toNat && c.toNat ≤ 126 && c != '\\'

theorem markEscapes_eq_self {cs : List Char} (h : ∀ c ∈ cs, isVerbatim c) :
    markEscapes cs = cs := by
  fun_induction markEscapes cs with
  | case1 => simp [isVerbatim] at h
  | case2 => simp [isVerbatim] at h
  | case3 c rest _ ih => rw [ih fun d hd => h d (List.mem_cons_of_mem _ hd)]
  | case4 => rfl

theorem flatMap_escapeOutside_eq_self {cs : List Char} (h : ∀ c ∈ cs, isVerbatim c) :
    cs.flatMap escapeOutside = cs := by
  induction cs with
  | nil => rfl
  | cons c rest ih =>
    have printable : escapeOutside c = [c] := by
      have := h c List.mem_cons_self
      simp only [isVerbatim, Bool.and_eq_true, decide_eq_true_eq] at this
      simp [escapeOutside, this.1]
    rw [List.flatMap_cons, printable, ih fun d hd => h d (List.mem_cons_of_mem _ hd)]
    rfl

theorem literal_eq_self {s : String} (h : ∀ c ∈ s.toList, isVerbatim c) : literal s = s := by
  rw [literal, markEscapes_eq_self h, flatMap_escapeOutside_eq_self h, String.ofList_toList]

end IdiomLint.Outline
