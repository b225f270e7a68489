import IdiomLint.Syntax.Children

/-! The statements that a statement is made of: through blocks, branches, cases and context
managers, down to the simple statements. Loops, definitions and `try` count as simple here. -/
namespace IdiomLint.Node

mutual

/-- The simple statements of a statement, in the order of the text. -/
def simple : Node → List Node
  | ⟨_, .block body⟩ => simpleAll body
  | ⟨_, .ifElse branches orElse⟩ => simpleBranches branches ++ simpleOptional orElse
  | ⟨_, .withBlock _ body _⟩ => simple body
  | ⟨_, .matching _ cases⟩ => simpleCases cases
  | n => [n]

def simpleAll : List Node → List Node
  | [] => []
  | stmt :: rest => simple stmt ++ simpleAll rest

def simpleOptional : Option Node → List Node
  | none => []
  | some body => simple body

def simpleBranches : List (Node × Node) → List Node
  | [] => []
  | (_, body) :: rest => simple body ++ simpleBranches rest

def simpleCases : List (MatchCase Node) → List Node
  | [] => []
  | ⟨_, _, body⟩ :: rest => simple body ++ simpleCases rest

end

mutual

def mapSimple (f : Node → Node) : Node → Node
  | ⟨i, .block body⟩ => ⟨i, .block (mapSimpleAll f body)⟩
  | ⟨i, .ifElse branches orElse⟩ =>
    ⟨i, .ifElse (mapSimpleBranches f branches) (mapSimpleOptional f orElse)⟩
  | ⟨i, .withBlock items body isAsync⟩ => ⟨i, .withBlock items (mapSimple f body) isAsync⟩
  | ⟨i, .matching subject cases⟩ => ⟨i, .matching subject (mapSimpleCases f cases)⟩
  | n => f n

def mapSimpleAll (f : Node → Node) : List Node → List Node
  | [] => []
  | stmt :: rest => mapSimple f stmt :: mapSimpleAll f rest

def mapSimpleOptional (f : Node → Node) : Option Node → Option Node
  | none => none
  | some body => some (mapSimple f body)

def mapSimpleBranches (f : Node → Node) : List (Node × Node) → List (Node × Node)
  | [] => []
  | (condition, body) :: rest => (condition, mapSimple f body) :: mapSimpleBranches f rest

def mapSimpleCases (f : Node → Node) : List (MatchCase Node) → List (MatchCase Node)
  | [] => []
  | ⟨pattern, guard, body⟩ :: rest => ⟨pattern, guard, mapSimple f body⟩ :: mapSimpleCases f rest

end

/-- What keeps all simple statements keeps the statement. -/
theorem mapSimple_eq_self_all (f : Node → Node) :
    (∀ n : Node, (∀ s ∈ n.simple, f s = s) → n.mapSimple f = n) ∧
    (∀ cs, (∀ s ∈ simpleCases cs, f s = s) → mapSimpleCases f cs = cs) ∧
    (∀ o, (∀ s ∈ simpleOptional o, f s = s) → mapSimpleOptional f o = o) ∧
    (∀ bs, (∀ s ∈ simpleBranches bs, f s = s) → mapSimpleBranches f bs = bs) ∧
    (∀ ns, (∀ s ∈ simpleAll ns, f s = s) → mapSimpleAll f ns = ns) := by
  apply simple.mutual_induct
  case case1 => intro i body ih h; simp_all [simple, mapSimple]
  case case2 =>
    intro i branches orElse ihb iho h
    simp only [simple, List.mem_append] at h
    simp only [mapSimple, ihb fun s hs => h s (.inl hs), iho fun s hs => h s (.inr hs)]
  case case3 => intro i items body isAsync ih h; simp_all [simple, mapSimple]
  case case4 => intro i subject cases ih h; simp_all [simple, mapSimple]
  case case5 =>
    intro n h1 h2 h3 h4 h
    rw [simple.eq_5 n h1 h2 h3 h4] at h
    rw [mapSimple.eq_5 f n h1 h2 h3 h4]
    exact h n (List.mem_singleton_self n)
  case case6 => intro h; rfl
  case case7 =>
    intro stmt rest ihs ihr h
    simp only [simpleAll, List.mem_append] at h
    simp only [mapSimpleAll, ihs fun s hs => h s (.inl hs), ihr fun s hs => h s (.inr hs)]
  case case8 => intro h; rfl
  case case9 => intro body ih h; simp_all [simpleOptional, mapSimpleOptional]
  case case10 => intro h; rfl
  case case11 =>
    intro condition body rest ihb ihr h
    simp only [simpleBranches, List.mem_append] at h
    simp only [mapSimpleBranches, ihb fun s hs => h s (.inl hs), ihr fun s hs => h s (.inr hs)]
  case case12 => intro h; rfl
  case case13 =>
    intro pattern guard body rest ihb ihr h
    simp only [simpleCases, List.mem_append] at h
    simp only [mapSimpleCases, ihb fun s hs => h s (.inl hs), ihr fun s hs => h s (.inr hs)]

/-- A node that is the other or stands somewhere below it. -/
inductive Within : Node → Node → Prop where
  | refl (n : Node) : Within n n
  | deeper {inner child outer : Node} :
      child ∈ outer.children .calleeFirst → Within inner child → Within inner outer

/-- No block of a tree is empty, as in every text that can be read. -/
def Filled (n : Node) : Prop := ∀ inner : Node, inner.Within n → ∀ i, inner ≠ ⟨i, .block []⟩

theorem Filled.child {n c : Node} (h : n.Filled) (hc : c ∈ n.children .calleeFirst) : c.Filled :=
  fun inner within => h inner (.deeper hc within)

theorem Filled.isEmpty_eq_false {i : Info} {body : List Node} (h : Filled ⟨i, .block body⟩) :
    body.isEmpty = false := by
  cases body with
  | nil => exact absurd rfl (h _ (.refl _) i)
  | cons stmt rest => rfl

end IdiomLint.Node
