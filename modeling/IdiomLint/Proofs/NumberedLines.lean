import IdiomLint.Proofs.IgnoreComments

/-! Which line of a file a comment is looked for on. The parser ends lines at line feeds and
carriage returns only, but the text is split at more characters than that, so the count of the lines
goes apart behind the first of these. -/
namespace IdiomLint

namespace Text

/-- An end of a line and what follows it. -/
inductive LineEnd : List Char → List Char → Prop where
  | lineFeed (rest : List Char) : LineEnd ['\n'] rest
  | both (rest : List Char) : LineEnd ['\r', '\n'] rest
  | carriageReturn {rest : List Char} (alone : rest.head? ≠ some '\n') : LineEnd ['\r'] rest

def Unbroken (line : List Char) : Prop := ∀ c ∈ line, c ≠ '\n' ∧ c ≠ '\r'

instance : DecidablePred Unbroken := fun line =>
  decidable_of_iff ((line.all fun c => c != '\n' && c != '\r') = true) (by simp [Unbroken])

/-- The lines of a text for the parser. What follows the last end of a line is a line unless it is
empty. -/
inductive ParsedLines : List Char → List (List Char) → Prop where
  | none : ParsedLines [] []
  | last {line : List Char} (given : line ≠ []) (unbroken : Unbroken line) :
      ParsedLines line [line]
  | ended {line ending rest : List Char} {ls : List (List Char)} (unbroken : Unbroken line)
      (ends : LineEnd ending rest) (more : ParsedLines rest ls) :
      ParsedLines (line ++ ending ++ rest) (line :: ls)

theorem Unbroken.tail {c : Char} {line : List Char} (h : Unbroken (c :: line)) : Unbroken line :=
  fun d hd => h d (List.mem_cons_of_mem c hd)

theorem exists_lineEnd (text : List Char) :
    Unbroken text ∨ ∃ line ending rest, text = line ++ ending ++ rest ∧ ending ≠ []
      ∧ Unbroken line ∧ LineEnd ending rest := by
  induction text with
  | nil => exact .inl (by simp [Unbroken])
  | cons c text ih =>
    by_cases feed : c = '\n'
    · exact .inr ⟨[], ['\n'], text, by simp [feed], by simp, by simp [Unbroken], .lineFeed text⟩
    · by_cases carriage : c = '\r'
      · subst carriage
        right
        by_cases both : text.head? = some '\n'
        · obtain ⟨rest, rfl⟩ := List.head?_eq_some_iff.1 both
          exact ⟨[], ['\r', '\n'], rest, by simp, by simp, by simp [Unbroken], .both rest⟩
        · exact ⟨[], ['\r'], text, by simp, by simp, by simp [Unbroken], .carriageReturn both⟩
      · rcases ih with unbroken | ⟨line, ending, rest, rfl, given, unbroken, ends⟩
        · exact .inl (List.forall_mem_cons.2 ⟨⟨feed, carriage⟩, unbroken⟩)
        · exact .inr ⟨c :: line, ending, rest, by simp, given,
            List.forall_mem_cons.2 ⟨⟨feed, carriage⟩, unbroken⟩, ends⟩

theorem exists_parsedLines (text : List Char) : ∃ ls, ParsedLines text ls := by
  -- one line fewer in each step
  induction h : text.length using Nat.strongRecOn generalizing text with
  | _ n ih =>
    rcases exists_lineEnd text with unbroken | ⟨line, ending, rest, rfl, given, unbroken, ends⟩
    · by_cases empty : text = []
      · exact ⟨[], empty ▸ .none⟩
      · exact ⟨[text], .last empty unbroken⟩
    · have shorter : rest.length < n := by
        have := List.length_pos_iff.2 given
        simp only [List.length_append] at h
        omega
      obtain ⟨ls, more⟩ := ih _ shorter rest rfl
      exact ⟨line :: ls, .ended unbroken ends more⟩

theorem unifyLineEnds_unbroken {line rest : List Char} (h : Unbroken line) :
    unifyLineEnds (line ++ rest) = line ++ unifyLineEnds rest := by
  induction line with
  | nil => rfl
  | cons c line ih =>
    have other := (h c (by simp)).2
    rw [List.cons_append, List.cons_append, ← ih h.tail]
    rw [unifyLineEnds.eq_def]
    split <;> simp_all

theorem unifyLineEnds_eq_self {line : List Char} (h : Unbroken line) :
    unifyLineEnds line = line := by
  have whole : unifyLineEnds (line ++ []) = line ++ unifyLineEnds [] := unifyLineEnds_unbroken h
  rwa [List.append_nil, unifyLineEnds, List.append_nil] at whole

theorem LineEnd.unifyLineEnds {ending rest : List Char} (h : LineEnd ending rest) :
    unifyLineEnds (ending ++ rest) = '\n' :: unifyLineEnds rest := by
  cases h with
  | lineFeed => rfl
  | both => rfl
  | carriageReturn alone =>
    cases rest with
    | nil => rfl
    | cons c rest =>
      have other : c ≠ '\n' := fun feed => alone (by rw [feed]; rfl)
      rw [List.cons_append, List.nil_append, Text.unifyLineEnds.eq_def]
      split
      · rename_i same
        exact absurd (List.cons.inj (List.cons.inj same).2).1 other
      · rename_i same
        rw [(List.cons.inj same).2]
      · rename_i carriage same
        exact absurd (List.cons.inj same).1.symm carriage
      · rename_i same
        cases same

/-- Vertical tab, form feed, the separators of files, groups and records, next line, and the
separators of lines and paragraphs. -/
def otherEnds : List Nat := [0x0b, 0x0c, 0x1c, 0x1d, 0x1e, 0x85, 0x2028, 0x2029]

def isOtherEnd (c : Char) : Bool := otherEnds.contains c.toNat

theorem endsLine_iff (c : Char) :
    endsLine c = true ↔ c = '\n' ∨ c = '\r' ∨ isOtherEnd c = true := by
  have feed : c = '\n' ↔ c.toNat = 10 := Char.toNat_inj.symm
  have carriage : c = '\r' ↔ c.toNat = 13 := Char.toNat_inj.symm
  simp only [feed, carriage, isOtherEnd, otherEnds, List.contains_iff_mem, List.mem_cons,
    List.not_mem_nil, or_false, endsLine, Bool.or_eq_true, Bool.and_eq_true, decide_eq_true_eq]
  omega

/-- The parts of a line that the other ends cut it into. -/
def parts (line : List Char) : List (List Char) := line.splitOnP isOtherEnd

theorem parts_of_free {line : List Char} (free : ∀ c ∈ line, isOtherEnd c = false) :
    parts line = [line] := List.splitOnP_eq_singleton free

theorem parts_cons_of_end {c : Char} (line : List Char) (h : isOtherEnd c = true) :
    parts (c :: line) = [] :: parts line := by
  rw [parts, List.splitOnP_cons_eq_if_modifyHead, if_pos h]
  rfl

theorem parts_cons_of_not_end {c : Char} {line first : List Char} {others : List (List Char)}
    (h : isOtherEnd c = false) (hp : parts line = first :: others) :
    parts (c :: line) = (c :: first) :: others := by
  rw [parts, List.splitOnP_cons_eq_if_modifyHead, if_neg (by simp [h])]
  exact congrArg _ hp

theorem exists_parts_eq_cons (line : List Char) : ∃ first others, parts line = first :: others :=
  List.exists_cons_of_ne_nil (List.splitOnP_ne_nil isOtherEnd line)

/-- The first part of a line is the line only if nothing cuts it. -/
theorem free_of_head?_parts {line : List Char} (h : (parts line).head? = some line) :
    ∀ c ∈ line, isOtherEnd c = false := by
  induction line with
  | nil => simp
  | cons c line ih =>
    cases isEnd : isOtherEnd c with
    | true =>
      rw [parts_cons_of_end line isEnd] at h
      cases h
    | false =>
      obtain ⟨first, others, hp⟩ := exists_parts_eq_cons line
      rw [parts_cons_of_not_end isEnd hp, List.head?_cons, Option.some.injEq] at h
      refine List.forall_mem_cons.2 ⟨isEnd, ih ?_⟩
      rw [hp, (List.cons.inj h).2, List.head?_cons]

theorem splitLines_cons_of_end {c : Char} (rest : List Char) (ends : endsLine c = true)
    (other : c ≠ '\r') : splitLines (c :: rest) = [] :: splitLines rest := by
  rw [splitLines.eq_def]
  split <;> simp_all

theorem splitLines_cons_of_inside {c : Char} {rest first : List Char} {others : List (List Char)}
    (inside : endsLine c = false) (hl : splitLines rest = first :: others) :
    splitLines (c :: rest) = (c :: first) :: others := by
  rw [splitLines.eq_def]
  split
  · rename_i none
    cases none
  · rename_i same
    rw [(List.cons.inj same).1] at inside
    cases inside
  · rename_i same
    obtain ⟨rfl, rfl⟩ := List.cons.inj same
    rw [if_neg (by simp [inside]), hl]

theorem splitLines_cons_ne_nil (c : Char) (rest : List Char) : splitLines (c :: rest) ≠ [] := by
  rw [splitLines.eq_def]
  split
  · rename_i none
    cases none
  · simp
  · split
    · simp
    · split <;> simp

theorem splitLines_singleton {c : Char} (inside : endsLine c = false) :
    splitLines [c] = [[c]] := by
  rw [splitLines.eq_def]
  split <;> simp_all [splitLines]

theorem Unbroken.isOtherEnd_eq {c : Char} {line : List Char} (h : Unbroken (c :: line)) :
    isOtherEnd c = endsLine c := by
  obtain ⟨feed, carriage⟩ := h c (by simp)
  rw [Bool.eq_iff_iff, endsLine_iff, or_iff_right feed, or_iff_right carriage]

/-- A line that ends is split into its parts. -/
theorem splitLines_append_lineFeed {line : List Char} (h : Unbroken line) (rest : List Char) :
    splitLines (line ++ '\n' :: rest) = parts line ++ splitLines rest := by
  induction line with
  | nil => exact splitLines_cons_of_end rest (by decide) (by decide)
  | cons c line ih =>
    rw [List.cons_append]
    cases isEnd : isOtherEnd c with
    | true =>
      rw [splitLines_cons_of_end _ (h.isOtherEnd_eq ▸ isEnd) (h c (by simp)).2, ih h.tail,
        parts_cons_of_end line isEnd, List.cons_append]
    | false =>
      obtain ⟨first, others, hp⟩ := exists_parts_eq_cons line
      have behind : splitLines (line ++ '\n' :: rest) = first :: (others ++ splitLines rest) := by
        rw [ih h.tail, hp, List.cons_append]
      rw [splitLines_cons_of_inside (h.isOtherEnd_eq ▸ isEnd) behind,
        parts_cons_of_not_end isEnd hp, List.cons_append]

/-- A last line that does not end is split into its parts, but an empty one at its end is no line
of its own. -/
theorem exists_splitLines_append {line : List Char} (h : Unbroken line) :
    ∃ extra, (extra = [] ∨ extra = [[]]) ∧ parts line = splitLines line ++ extra := by
  induction line with
  | nil => exact ⟨[[]], .inr rfl, rfl⟩
  | cons c line ih =>
    obtain ⟨extra, shape, hp⟩ := ih h.tail
    cases isEnd : isOtherEnd c with
    | true =>
      refine ⟨extra, shape, ?_⟩
      rw [splitLines_cons_of_end _ (h.isOtherEnd_eq ▸ isEnd) (h c (by simp)).2,
        parts_cons_of_end line isEnd, hp, List.cons_append]
    | false =>
      have inside : endsLine c = false := h.isOtherEnd_eq ▸ isEnd
      cases line with
      | nil =>
        refine ⟨[], .inl rfl, ?_⟩
        rw [parts_of_free (by simp [isEnd]), splitLines_singleton inside, List.append_nil]
      | cons d line =>
        obtain ⟨first, others, hl⟩ := List.exists_cons_of_ne_nil (splitLines_cons_ne_nil d line)
        refine ⟨extra, shape, ?_⟩
        rw [hl, List.cons_append] at hp
        rw [splitLines_cons_of_inside inside hl, parts_cons_of_not_end isEnd hp, List.cons_append]

section

variable {text : List Char} {ls : List (List Char)} {n : Nat}

/-- The ends of lines are unified and the parts of all lines stand in a row. -/
theorem ParsedLines.exists_flatMap_parts (h : ParsedLines text ls) :
    ∃ extra, (extra = [] ∨ extra = [[]])
      ∧ ls.flatMap parts = splitLines (unifyLineEnds text) ++ extra := by
  induction h with
  | none => exact ⟨[], .inl rfl, rfl⟩
  | @last line given unbroken =>
    rw [unifyLineEnds_eq_self unbroken, List.flatMap_singleton]
    exact exists_splitLines_append unbroken
  | @ended line ending rest ls unbroken ends more ih =>
    obtain ⟨extra, shape, hl⟩ := ih
    refine ⟨extra, shape, ?_⟩
    rw [List.append_assoc, unifyLineEnds_unbroken unbroken, ends.unifyLineEnds,
      splitLines_append_lineFeed unbroken, List.flatMap_cons, hl, List.append_assoc]

theorem ParsedLines.length_le (h : ParsedLines text ls) :
    ls.length ≤ (splitLines (unifyLineEnds text)).length := by
  induction h with
  | none => simp
  | @last line given unbroken =>
    rw [unifyLineEnds_eq_self unbroken]
    obtain ⟨c, line, rfl⟩ := List.exists_cons_of_ne_nil given
    exact List.length_pos_iff.2 (splitLines_cons_ne_nil c line)
  | @ended line ending rest ls unbroken ends more ih =>
    obtain ⟨first, others, hp⟩ := exists_parts_eq_cons line
    rw [List.append_assoc, unifyLineEnds_unbroken unbroken, ends.unifyLineEnds,
      splitLines_append_lineFeed unbroken, hp]
    simp only [List.cons_append, List.length_cons, List.length_append]
    omega

/-- The lines that are counted are the parts of the parser's lines, one after another. -/
theorem ParsedLines.getElem?_splitLines (h : ParsedLines text ls) (hn : n < ls.length) :
    (splitLines (unifyLineEnds text))[n]? = (ls.flatMap parts)[n]? := by
  obtain ⟨extra, -, hl⟩ := h.exists_flatMap_parts
  rw [hl, List.getElem?_append_left (Nat.lt_of_lt_of_le hn h.length_le)]

/-- Lines and parts agree up to a place exactly if no line up to it is cut. -/
theorem forall_getElem?_parts_iff :
    (∀ m ≤ n, ∀ line, ls[m]? = some line → (ls.flatMap parts)[m]? = some line)
      ↔ ∀ line ∈ ls.take (n + 1), ∀ c ∈ line, isOtherEnd c = false := by
  induction ls generalizing n with
  | nil => simp
  | cons first ls ih =>
    rw [List.take_succ_cons, List.forall_mem_cons]
    constructor
    · intro agree
      have start : (parts first ++ ls.flatMap parts)[0]? = some first :=
        agree 0 (Nat.zero_le n) first rfl
      obtain ⟨part, others, hp⟩ := exists_parts_eq_cons first
      rw [hp] at start
      have free : ∀ c ∈ first, isOtherEnd c = false := by
        apply free_of_head?_parts
        rw [hp]
        exact start
      refine ⟨free, ?_⟩
      cases n with
      | zero => simp
      | succ n =>
        refine ih.1 fun m hm line hline => ?_
        have next := agree (m + 1) (by omega) line hline
        rwa [List.flatMap_cons, parts_of_free free] at next
    · rintro ⟨free, later⟩ m hm line hline
      rw [List.flatMap_cons, parts_of_free free]
      cases m with
      | zero => exact hline
      | succ m =>
        obtain ⟨n, rfl⟩ := Nat.exists_eq_add_of_le' (Nat.le_trans (Nat.le_add_left 1 m) hm)
        exact ih.2 later m (by omega) line hline

end

end Text

open Text

def Files.Holds (fs : Files) (file text : String) : Prop :=
  ∃ parts place, fs.partsOf (Path.ofText file) = .ok parts ∧ fs.follow [] parts = .ok place
    ∧ fs.find? place = some (.file text) ∧ place ∉ fs.locked

theorem Files.Holds.read {fs : Files} {file text : String} (h : fs.Holds file text) :
    fs.read (Path.ofText file) = .ok (String.ofList (unifyLineEnds text.toList)) := by
  obtain ⟨parts, place, known, leads, found, readable⟩ := h
  simp [Files.read, known, leads, found, readable, bind, Except.bind]

section

variable {fs : Files} {file text : String} {ls : List (List Char)} {n : Nat}

theorem sourceLine_iff (holds : fs.Holds file text) (parsed : ParsedLines text.toList ls)
    (hn : n < ls.length) (line : List Char) :
    SourceLine fs file (n + 1) (String.ofList line) ↔ (ls.flatMap parts)[n]? = some line := by
  have counted : numberedLine? (lines (String.ofList (unifyLineEnds text.toList))) (n + 1)
      = ((ls.flatMap parts)[n]?).map String.ofList := by
    have positive : (0 : Int) < n + 1 := by omega
    have index : (n + 1 : Int).toNat - 1 = n := by omega
    rw [numberedLine?, if_pos positive, index, lines, List.getElem?_map, String.toList_ofList,
      parsed.getElem?_splitLines hn]
  unfold SourceLine
  rw [holds.read]
  simp [counted, String.ofList_inj]

/-- Comments are looked for on the parts of the lines: for the line with a number, on the part with
that number. So comments are found on the right lines, up to some line, exactly if no line up to it
holds a character that ends lines for the count but not for the parser. -/
theorem inspected_lines_agree_iff (holds : fs.Holds file text) :
    (∃ ls, ParsedLines text.toList ls)
      ∧ ∀ ls, ParsedLines text.toList ls → ∀ n < ls.length,
        (∃ part, (ls.flatMap parts)[n]? = some part
          ∧ SourceLine fs file (n + 1) (String.ofList part)
          ∧ ∀ r : Report, r.finding.line = n + 1 →
            ignoredByComment fs r file = .ok (lineIgnores (String.ofList part) r.code))
        ∧ ((∀ m ≤ n, ∀ line, ls[m]? = some line →
              SourceLine fs file (m + 1) (String.ofList line))
            ↔ ∀ line ∈ ls.take (n + 1), ∀ c ∈ line, isOtherEnd c = false) := by
  refine ⟨exists_parsedLines text.toList, fun ls parsed n hn => ⟨?_, ?_⟩⟩
  · have counted : n < (splitLines (unifyLineEnds text.toList)).length :=
      Nat.lt_of_lt_of_le hn parsed.length_le
    have found := parsed.getElem?_splitLines hn
    rw [List.getElem?_eq_getElem counted] at found
    have here := (sourceLine_iff holds parsed hn _).2 found.symm
    refine ⟨_, found.symm, here, fun r line => ?_⟩
    apply ignoredByComment_of_sourceLine
    rwa [line]
  · rw [← forall_getElem?_parts_iff]
    refine forall₂_congr fun m hm => forall₂_congr fun line _ => ?_
    exact sourceLine_iff holds parsed (by omega) line

end

theorem inspected_lines_agree_iff_mixed :
    Files.Holds (.single "d.py" "x = 1\r\ny = 2\rz = int(0)  # noqa\n") "d.py"
        "x = 1\r\ny = 2\rz = int(0)  # noqa\n"
      ∧ ParsedLines "x = 1\r\ny = 2\rz = int(0)  # noqa\n".toList
        ["x = 1".toList, "y = 2".toList, "z = int(0)  # noqa".toList]
      ∧ SourceLine (.single "d.py" "x = 1\r\ny = 2\rz = int(0)  # noqa\n") "d.py" 3
        "z = int(0)  # noqa" := by
  have holds : Files.Holds (.single "d.py" "x = 1\r\ny = 2\rz = int(0)  # noqa\n") "d.py"
      "x = 1\r\ny = 2\rz = int(0)  # noqa\n" := 
    ⟨["w", "d.py"], ["w", "d.py"], rfl, rfl, rfl, List.not_mem_nil⟩
  have parsed : ParsedLines "x = 1\r\ny = 2\rz = int(0)  # noqa\n".toList
      ["x = 1".toList, "y = 2".toList, "z = int(0)  # noqa".toList] := by
    have split : "x = 1\r\ny = 2\rz = int(0)  # noqa\n".toList
        = "x = 1".toList ++ ['\r', '\n'] ++ ("y = 2".toList ++ ['\r']
          ++ ("z = int(0)  # noqa".toList ++ ['\n'] ++ [])) := by decide +kernel
    rw [split]
    exact .ended (by decide +kernel) (.both _) (.ended (by decide +kernel)
      (.carriageReturn (by decide +kernel)) (.ended (by decide +kernel) (.lineFeed _) .none))
  have uncut : ["x = 1".toList, "y = 2".toList, "z = int(0)  # noqa".toList].all
      (fun line => line.all fun c => !isOtherEnd c) = true := by decide +kernel
  refine ⟨holds, parsed, ?_⟩
  obtain ⟨-, agree⟩ := (inspected_lines_agree_iff holds).2 _ parsed 2 (by decide)
  refine agree.2 (fun line hline c hc => ?_) 2 (Nat.le_refl 2) "z = int(0)  # noqa".toList rfl
  have free := List.all_eq_true.1 (List.all_eq_true.1 uncut line (List.mem_of_mem_take hline)) c hc
  simpa using free

/-- Behind a form feed, which stands on a line of its own where a new page begins, a comment is
looked for on the line before its own. -/
theorem page_break_shifts_lines :
    ParsedLines "\x0c\nx = int(0)  # noqa\n".toList ["\x0c".toList, "x = int(0)  # noqa".toList]
      ∧ lineIgnores "x = int(0)  # noqa" ⟨"FURB", 123⟩ = true
      ∧ SourceLine (.single "d.py" "\x0c\nx = int(0)  # noqa\n") "d.py" 2 ""
      ∧ ignoredByComment (.single "d.py" "\x0c\nx = int(0)  # noqa\n")
        ⟨⟨"FURB", 123⟩, [], .startingAt 2 4 ""⟩ "d.py" = .ok false := by
  refine ⟨?_, by decide +kernel, ⟨_, rfl, by decide +kernel⟩, by decide +kernel⟩
  have split : "\x0c\nx = int(0)  # noqa\n".toList
      = "\x0c".toList ++ ['\n'] ++ ("x = int(0)  # noqa".toList ++ ['\n'] ++ []) := by
    decide +kernel
  rw [split]
  exact .ended (by decide +kernel) (.lineFeed _) (.ended (by decide +kernel) (.lineFeed _) .none)

end IdiomLint
