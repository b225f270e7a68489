import IdiomLint.Output.Format
import Mathlib.Data.List.Basic

/-! Colours only add to the output. The coloured text of a message is its plain text with codes
inserted into it, so deleting the codes gives the plain text back. -/
namespace IdiomLint

namespace Color

def codes : List String := [blue, yellow, gray, green, red, reset]

def escape : Char := '\x1b'

def EscapeFree (s : String) : Prop := escape ∉ s.toList

instance : DecidablePred EscapeFree := fun s => inferInstanceAs (Decidable (escape ∉ s.toList))

theorem escapeFree_append {s t : String} : EscapeFree (s ++ t) ↔ EscapeFree s ∧ EscapeFree t := by
  simp only [EscapeFree, String.toList_append, List.mem_append, not_or]

theorem escapeFree_nat (n : Nat) : EscapeFree (toString n) := by
  have shown : (toString n).toList = Nat.toDigits 10 n := Nat.toList_repr
  rw [EscapeFree, shown]
  intro found
  have digit : escape.isDigit = true := Nat.isDigit_of_mem_toDigits (by decide) (by decide) found
  exact absurd digit (by decide)

theorem escapeFree_int (n : Int) : EscapeFree (toString n) := by
  cases n with
  | ofNat n => exact escapeFree_nat n
  | negSucc n => exact escapeFree_append.2 ⟨by decide, escapeFree_nat (n + 1)⟩

def uncolored : List Char → List Char
  | [] => []
  | c :: cs =>
    match codes.find? fun code => code.toList.isPrefixOf (c :: cs) with
    | some code => uncolored (cs.drop (code.toList.length - 1))
    | none => c :: uncolored cs
termination_by cs => cs.length
decreasing_by
  · simp only [List.length_drop, List.length_cons]
    omega
  · simp only [List.length_cons, Nat.lt_add_one]

/-- One text is another one, free of escape characters, with some number of codes inserted. -/
inductive Inserted : List Char → List Char → Nat → Prop where
  | nil : Inserted [] [] 0
  | char {c : Char} {plain colored : List Char} {n : Nat} (other : c ≠ escape)
      (rest : Inserted plain colored n) : Inserted (c :: plain) (c :: colored) n
  | code {code : String} {plain colored : List Char} {n : Nat} (known : code ∈ codes)
      (rest : Inserted plain colored n) : Inserted plain (code.toList ++ colored) (n + 1)

/-- A code starts with an escape character, and only there. -/
theorem exists_toList_code {code : String} (known : code ∈ codes) :
    ∃ tail, code.toList = escape :: tail ∧ escape ∉ tail := by
  simp only [codes, List.mem_cons, List.not_mem_nil, or_false] at known
  rcases known with rfl | rfl | rfl | rfl | rfl | rfl <;> exact ⟨_, rfl, by decide⟩

theorem find?_code {code : String} (known : code ∈ codes) (rest : List Char) :
    (codes.find? fun other => other.toList.isPrefixOf (code.toList ++ rest)) = some code := by
  simp only [codes, List.mem_cons, List.not_mem_nil, or_false] at known
  rcases known with rfl | rfl | rfl | rfl | rfl | rfl <;> rfl

theorem uncolored_code {code : String} (known : code ∈ codes) (rest : List Char) :
    uncolored (code.toList ++ rest) = uncolored rest := by
  obtain ⟨tail, starts, -⟩ := exists_toList_code known
  have found := find?_code known rest
  rw [starts, List.cons_append] at found
  rw [starts, List.cons_append, uncolored]
  simp only [found, starts, List.length_cons, Nat.add_sub_cancel, List.drop_left]

theorem uncolored_cons {c : Char} (other : c ≠ escape) (cs : List Char) :
    uncolored (c :: cs) = c :: uncolored cs := by
  have none : (codes.find? fun code => code.toList.isPrefixOf (c :: cs)) = none := by
    refine List.find?_eq_none.2 fun code known => ?_
    obtain ⟨tail, starts, -⟩ := exists_toList_code known
    simp [starts, Ne.symm other]
  rw [uncolored]
  simp only [none]

namespace Inserted

variable {plain colored plain' colored' : List Char} {n n' : Nat}

theorem uncolored_eq (h : Inserted plain colored n) : uncolored colored = plain := by
  induction h with
  | nil => rw [uncolored]
  | char other _ ih => rw [uncolored_cons other, ih]
  | code known _ ih => rw [uncolored_code known, ih]

/-- Escape characters count the codes. -/
theorem count_escape (h : Inserted plain colored n) : colored.count escape = n := by
  induction h with
  | nil => rfl
  | char other _ ih => rw [List.count_cons_of_ne other, ih]
  | code known _ ih =>
    obtain ⟨tail, starts, free⟩ := exists_toList_code known
    rw [List.count_append, starts, List.count_cons_self, List.count_eq_zero.2 free, ih]
    omega

theorem append (h : Inserted plain colored n) (h' : Inserted plain' colored' n') :
    Inserted (plain ++ plain') (colored ++ colored') (n + n') := by
  induction h with
  | nil => simpa using h'
  | char other _ ih => exact .char other ih
  | @code code plain colored n known _ ih =>
    rw [List.append_assoc, Nat.add_right_comm]
    exact .code known ih

theorem of_not_mem (free : escape ∉ plain) : Inserted plain plain 0 := by
  induction plain with
  | nil => exact .nil
  | cons c plain ih =>
    obtain ⟨other, free⟩ := not_or.1 (mt List.mem_cons.2 free)
    exact .char (Ne.symm other) (ih free)

theorem of_free {s : String} (free : EscapeFree s) : Inserted s.toList s.toList 0 :=
  of_not_mem free

theorem of_code {code : String} (known : code ∈ codes) : Inserted [] code.toList 1 := by
  simpa using Inserted.code known .nil

end Inserted

end Color

open Color

theorem Text.length_splitOn {α : Type} [BEq α] [LawfulBEq α] (separator : α) (l : List α) :
    (splitOn separator l).length = l.count separator + 1 := by
  induction l with
  | nil => rfl
  | cons a rest ih =>
    obtain ⟨piece, pieces, found, next⟩ := exists_splitOn_cons separator a rest
    rw [found] at ih
    rw [next, List.count_cons]
    split <;> simp_all

theorem Text.length_split (c : Char) (s : String) : (split c s).length = count c s + 1 := by
  rw [split, List.length_map, length_splitOn, count]

/-- How many codes the colours in a message take: two quoted pieces are coloured, and no others. -/
def quoteCodes (message : String) : Nat := if Text.count '`' message = 4 then 8 else 0

theorem inserted_colorQuoted {color code : String} (known : color ∈ codes)
    (free : EscapeFree code) :
    Inserted ("`" ++ code ++ "`").toList (colorQuoted color code).toList 4 := by
  have quote : Inserted "`".toList "`".toList 0 := .of_free (by decide)
  have gray : Inserted [] gray.toList 1 := .of_code (by decide)
  have reset : Inserted [] reset.toList 1 := .of_code (by decide)
  have opened := (gray.append quote).append (Inserted.of_code known)
  have closed := (gray.append quote).append reset
  have whole := (opened.append (.of_free free)).append closed
  simpa only [colorQuoted, String.toList_append, List.append_assoc, List.nil_append,
    List.append_nil] using whole

theorem inserted_colorMessage {message : String} (free : EscapeFree message) :
    Inserted message.toList (colorMessage message).toList (quoteCodes message) := by
  have length := Text.length_split '`' message
  have joined := Text.intercalate_split '`' message
  unfold colorMessage quoteCodes
  split
  · rename_i before old between new after pieces
    rw [pieces] at length joined
    simp only [List.length_cons, List.length_nil] at length
    have four : Text.count '`' message = 4 := by omega
    have whole : message = before ++ ("`" ++ old ++ "`") ++ between ++ ("`" ++ new ++ "`")
        ++ after := by
      apply String.toList_inj.1
      rw [← joined]
      simp
    rw [whole] at free
    simp only [escapeFree_append] at free
    obtain ⟨⟨⟨⟨before', ⟨-, old'⟩, -⟩, between'⟩, ⟨-, new'⟩, -⟩, after'⟩ := free
    have first : Inserted _ (colorQuoted red old).toList 4 := inserted_colorQuoted (by decide) old'
    have second : Inserted _ (colorQuoted green new).toList 4 :=
      inserted_colorQuoted (by decide) new'
    have inserted := ((((Inserted.of_free before').append first).append (.of_free between')).append
      second).append (.of_free after')
    rw [if_pos four, whole]
    simpa only [String.toList_append, List.append_assoc] using inserted
  · rename_i other
    have few : Text.count '`' message ≠ 4 := by
      intro four
      rw [four] at length
      generalize Text.split '`' message = pieces at other length
      match pieces, length with
      | [before, old, between, new, after], _ => exact other before old between new after rfl
    rw [if_neg few]
    exact .of_free free

namespace Message

def IsEscapeFree : Message → Prop
  | text t => EscapeFree t
  | report r file => (∀ f ∈ file, EscapeFree f) ∧ EscapeFree r.code.series
      ∧ EscapeFree r.finding.message

instance : DecidablePred IsEscapeFree
  | text t => inferInstanceAs (Decidable (EscapeFree t))
  | report r file => inferInstanceAs (Decidable ((∀ f ∈ file, EscapeFree f)
      ∧ EscapeFree r.code.series ∧ EscapeFree r.finding.message))

def colorCodes : Message → Nat
  | text _ => 0
  | report r _ => 8 + quoteCodes r.finding.message

end Message

theorem Report.escapeFree_place (r : Report) : EscapeFree r.place := by
  simp only [place, escapeFree_append, escapeFree_int, and_true]
  exact ⟨by decide, by decide⟩

theorem Report.inserted_colored {r : Report} {file : Option String}
    (free : (Message.report r file).IsEscapeFree) :
    Inserted (r.plain file).toList (r.colored file).toList (8 + quoteCodes r.finding.message) := by
  obtain ⟨hfile, series, message⟩ := free
  have shown : EscapeFree (shownFile file) := by
    cases file with
    | none => exact (by decide : EscapeFree "None")
    | some f => exact hfile f rfl
  have bracketed : EscapeFree ("[" ++ r.code.toText ++ "]") := by
    simp only [Code.toText, escapeFree_append, escapeFree_nat, series, and_true]
    exact ⟨by decide, by decide⟩
  have blue : Inserted [] blue.toList 1 := .of_code (by decide)
  have gray : Inserted [] gray.toList 1 := .of_code (by decide)
  have yellow : Inserted [] yellow.toList 1 := .of_code (by decide)
  have reset : Inserted [] reset.toList 1 := .of_code (by decide)
  have space : Inserted " ".toList " ".toList 0 := .of_free (by decide)
  have colon : Inserted ":".toList ":".toList 0 := .of_free (by decide)
  have name := (blue.append (.of_free shown)).append reset
  have place := (gray.append (.of_free r.escapeFree_place)).append reset
  have code := (yellow.append (.of_free bracketed)).append reset
  have divider := ((gray.append colon).append reset).append space
  have whole := (((name.append place).append (space.append code)).append divider).append
    (inserted_colorMessage message)
  have opening : " [" = " " ++ "[" := by decide
  have closing : "]: " = "]" ++ (":" ++ " ") := by decide
  have colored : r.colored file = Color.blue ++ shownFile file ++ Color.reset ++ Color.gray
      ++ r.place ++ Color.reset ++ " " ++ Color.yellow ++ "[" ++ r.code.toText ++ "]" ++ Color.reset
      ++ Color.gray ++ ":" ++ Color.reset ++ " " ++ colorMessage r.finding.message := rfl
  rw [plain, opening, closing, colored]
  simp only [String.toList_append, List.append_assoc, List.nil_append] at whole ⊢
  exact whole

theorem Message.inserted_colored {m : Message} (free : m.IsEscapeFree) :
    Inserted m.plain.toList m.colored.toList m.colorCodes := by
  cases m with
  | text t => exact .of_free free
  | report r file => exact Report.inserted_colored free

section

variable {ms : List Message}

def colorCodes (ms : List Message) : Nat := (ms.map Message.colorCodes).foldr (· + ·) 0

theorem inserted_lines (free : ∀ m ∈ ms, m.IsEscapeFree) :
    Inserted ("\n".intercalate (ms.map Message.plain)).toList
      ("\n".intercalate (ms.map Message.colored)).toList (colorCodes ms) := by
  have between : Inserted "\n".toList "\n".toList 0 := .of_free (by decide)
  simp only [String.toList_intercalate, List.map_map]
  induction ms with
  | nil => exact .nil
  | cons m ms ih =>
    obtain ⟨first, later⟩ := List.forall_mem_cons.1 free
    cases ms with
    | nil =>
      simp only [List.map_cons, List.map_nil, List.intercalate_singleton]
      exact Message.inserted_colored first
    | cons m' ms =>
      simp only [List.map_cons, List.intercalate_cons_cons] at ih ⊢
      exact ((Message.inserted_colored first).append between).append (ih later)

theorem formatMessages_of_text {s : Settings} (text : s.format ≠ some .github)
    (links : Path.Links) (cwd : Path) (ms : List Message) :
    formatMessages s links cwd ms =
      .ok ("\n".intercalate (ms.map fun m => if s.color then m.colored else m.plain)
        ++ if !s.quiet && ms.any Message.isReport then explainHint else "") := by
  have shown : Message.shown s links cwd
      = fun m => pure (if s.color then m.colored else m.plain) := by
    funext m
    unfold Message.shown
    split
    · rename_i github
      exact absurd github text
    · rfl
  rw [formatMessages, shown, List.mapM_pure]
  rfl

end

/-- Colours change nothing but the colours: for every list of messages whose texts hold no escape
characters, deleting the codes from the coloured output gives the plain one. There are eight codes
for each report, and eight more where its message has exactly four backticks. -/
theorem uncolored_output {s : Settings} (text : s.format ≠ some .github)
    (links : Path.Links) (cwd : Path) {ms : List Message} (free : ∀ m ∈ ms, m.IsEscapeFree) :
    ∃ colored plain, formatMessages { s with color := true } links cwd ms = .ok colored
      ∧ formatMessages { s with color := false } links cwd ms = .ok plain
      ∧ uncolored colored.toList = plain.toList
      ∧ colored.toList.count escape = colorCodes ms := by
  have hint : EscapeFree (if !s.quiet && ms.any Message.isReport then explainHint else "") := by
    split <;> decide +kernel
  have inserted := (inserted_lines free).append (.of_free hint)
  rw [← String.toList_append, ← String.toList_append] at inserted
  exact ⟨_, _, formatMessages_of_text (s := { s with color := true }) text links cwd ms,
    formatMessages_of_text (s := { s with color := false }) text links cwd ms,
    inserted.uncolored_eq, inserted.count_escape⟩

theorem uncolored_output_replacement :
    ({ quiet := true } : Settings).format ≠ some .github
      ∧ (∀ m ∈ [Message.text "d: first", .report ⟨⟨"FURB", 123⟩, [],
          .startingAt 1 4 "Replace `int(0)` with `0`"⟩ (some "d.py")], m.IsEscapeFree)
      ∧ ∃ colored plain,
        formatMessages { quiet := true } [] .empty [.text "d: first", .report ⟨⟨"FURB", 123⟩, [],
          .startingAt 1 4 "Replace `int(0)` with `0`"⟩ (some "d.py")] = .ok colored
        ∧ formatMessages { quiet := true, color := false } [] .empty [.text "d: first",
          .report ⟨⟨"FURB", 123⟩, [], .startingAt 1 4 "Replace `int(0)` with `0`"⟩ (some "d.py")]
          = .ok plain
        ∧ uncolored colored.toList = plain.toList ∧ colored.toList.count escape = 16 := by
  have text : ({ quiet := true } : Settings).format ≠ some .github := by decide
  have free : ∀ m ∈ [Message.text "d: first", .report ⟨⟨"FURB", 123⟩, [],
      .startingAt 1 4 "Replace `int(0)` with `0`"⟩ (some "d.py")], m.IsEscapeFree := by
    decide +kernel
  exact ⟨text, free, uncolored_output text [] .empty free⟩

end IdiomLint
