/-! Finding, splitting and replacing in text. -/
namespace IdiomLint.Text

/-- Whether one text occurs within another. -/
def occursIn (needle : List Char) : List Char → Bool
  | [] => needle.isEmpty
  | c :: rest => needle.isPrefixOf (c :: rest) || occursIn needle rest

/-- The pieces of a list between separators; a list without separators is one piece. -/
def splitOn {α : Type} [BEq α] (separator : α) : List α → List (List α)
  | [] => [[]]
  | a :: rest =>
    match splitOn separator rest with
    | [] => [[a]]
    | piece :: pieces => if a == separator then [] :: piece :: pieces else (a :: piece) :: pieces

theorem splitOn_ne_nil {α : Type} [BEq α] (separator : α) (l : List α) :
    splitOn separator l ≠ [] := by
  cases l with
  | nil => simp [splitOn]
  | cons a rest =>
    rw [splitOn]
    split
    · simp
    · split <;> simp

theorem exists_splitOn_cons {α : Type} [BEq α] (separator a : α) (rest : List α) :
    ∃ piece pieces, splitOn separator rest = piece :: pieces
      ∧ splitOn separator (a :: rest)
        = if a == separator then [] :: piece :: pieces else (a :: piece) :: pieces := by
  obtain ⟨piece, pieces, found⟩ := List.exists_cons_of_ne_nil (splitOn_ne_nil separator rest)
  exact ⟨piece, pieces, found, by rw [splitOn, found]⟩

/-- Joining the pieces with the separator gives the list back. -/
theorem intercalate_splitOn {α : Type} [BEq α] [LawfulBEq α] (separator : α) (l : List α) :
    [separator].intercalate (splitOn separator l) = l := by
  induction l with
  | nil => rfl
  | cons a rest ih =>
    obtain ⟨piece, pieces, found, next⟩ := exists_splitOn_cons separator a rest
    rw [found] at ih
    rw [next]
    split
    · rename_i same
      rw [List.intercalate_cons_cons, ih]
      simp [eq_of_beq same]
    · rw [← ih]
      cases pieces with
      | nil => simp [List.intercalate]
      | cons b pieces => simp [List.intercalate_cons_cons]

/-- The pieces of a text between separators. -/
def split (separator : Char) (s : String) : List String :=
  (splitOn separator s.toList).map String.ofList

theorem intercalate_split (separator : Char) (s : String) :
    (String.singleton separator).intercalate (split separator s) = s := by
  apply String.toList_inj.1
  simp [split, Function.comp_def, intercalate_splitOn]

/-- Everything up to and after the first occurrence of a text. -/
def breakAt (needle : List Char) : List Char → Option (List Char × List Char)
  | [] => if needle.isEmpty then some ([], []) else none
  | c :: rest =>
    if needle.isPrefixOf (c :: rest) then some ([], (c :: rest).drop needle.length)
    else (breakAt needle rest).map fun r => (c :: r.1, r.2)

def count (c : Char) (s : String) : Nat := s.toList.count c

end IdiomLint.Text
