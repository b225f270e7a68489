import IdiomLint.Syntax.Operator
import Mathlib.Data.List.Basic

/-! Expressions as they are written, and a reader for them. An expression is written without
parentheses around its operands; where none are needed, the reader gives the expression back. It
works like a calculator that holds back an operator until it has seen the next one. -/
namespace IdiomLint

/-- An expression without positions and without what is known of its names and types. -/
inductive Expr where
  | name (text : String)
  | int (value : Nat)
  | member (base : Expr) (name : String)
  | call (callee : Expr) (args : List Expr)
  | index (base key : Expr)
  | unary (op : UnaryOp) (operand : Expr)
  | binary (op : BinaryOp) (left right : Expr)
  | comparison (first : Expr) (rest : List (CompareOp × Expr))
  | conditional (ifTrue condition ifFalse : Expr)

inductive Token where
  | name (text : String)
  | number (value : Nat)
  | dotted (name : String)
  | openCall | closeCall | openIndex | closeIndex | comma
  | sign (op : UnaryOp)
  | not
  | binary (op : BinaryOp)
  | compare (op : CompareOp)
  | ifWord | elseWord
deriving DecidableEq

/-- The last comparison is written like the one before it with a negation behind it. -/
def CompareOp.tokens : CompareOp → List Token
  | isNot => [.compare .is, .not]
  | op => [.compare op]

def UnaryOp.token : UnaryOp → Token
  | not => .not
  | op => .sign op

namespace Expr

mutual

def tokens : Expr → List Token
  | .name text => [.name text]
  | .int value => [.number value]
  | .member base part => base.tokens ++ [.dotted part]
  | .call callee args => callee.tokens ++ .openCall :: (argTokens args ++ [.closeCall])
  | .index base key => base.tokens ++ .openIndex :: (key.tokens ++ [.closeIndex])
  | .unary op operand => op.token :: operand.tokens
  | .binary op left right => left.tokens ++ .binary op :: right.tokens
  | .comparison first rest => first.tokens ++ restTokens rest
  | .conditional ifTrue condition ifFalse =>
    ifTrue.tokens ++ .ifWord :: (condition.tokens ++ .elseWord :: ifFalse.tokens)

def argTokens : List Expr → List Token
  | [] => []
  | [a] => a.tokens
  | a :: b :: rest => a.tokens ++ .comma :: argTokens (b :: rest)

def restTokens : List (CompareOp × Expr) → List Token
  | [] => []
  | (op, e) :: rest => op.tokens ++ (e.tokens ++ restTokens rest)

end

end Expr

namespace BinaryOp

/-- The larger, the tighter an operator binds; nought for what is no operator. -/
def level : BinaryOp → Nat
  | or => 2
  | and => 3
  | bitOr => 6
  | bitXor => 7
  | bitAnd => 8
  | shiftLeft | shiftRight => 9
  | add | sub => 10
  | mul | div | floorDiv | mod | matMul => 11
  | pow => 13
  | other _ => 0

/-- How tight the left operand has to bind. -/
def leftNeed : BinaryOp → Nat
  | or => 3
  | and => 4
  | pow => 14
  | op => op.level

/-- How tight the right operand has to bind. Of equal operators in a row `and`, `or` and powers are
grouped from the right, the others from the left; an exponent may have a sign. -/
def rightNeed : BinaryOp → Nat
  | or => 2
  | and => 3
  | pow => 12
  | op => op.level + 1

end BinaryOp

def UnaryOp.level : UnaryOp → Nat
  | not => 4
  | _ => 12

def Token.level : Token → Nat
  | dotted _ | openCall | openIndex => 14
  | binary op => op.level
  | compare _ => 6
  | ifWord => 1
  | _ => 0

def headLevel : List Token → Nat
  | [] => 0
  | t :: _ => t.level

namespace Expr

def level : Expr → Nat
  | unary op _ => op.level
  | binary op _ _ => op.level
  | comparison _ _ => 5
  | conditional _ _ _ => 1
  | _ => 14

/-- How tight at most a token may bind that stands behind an expression, lest it take the last
operand of the expression for its own. -/
def bound : Expr → Nat
  | unary op _ => op.level - 1
  | binary op _ _ => op.rightNeed - 1
  | comparison _ _ => 5
  | conditional _ _ _ => 0
  | _ => 14

/-- No operand needs parentheses. -/
inductive Fits : Expr → Prop where
  | name {text : String} : Fits (name text)
  | int {value : Nat} : Fits (int value)
  | member {base : Expr} {part : String} : base.Fits → base.level = 14 → Fits (member base part)
  | call {callee : Expr} {args : List Expr} : callee.Fits → callee.level = 14 →
      (∀ a ∈ args, Fits a) → Fits (call callee args)
  | index {base key : Expr} : base.Fits → base.level = 14 → key.Fits → Fits (index base key)
  | unary {op : UnaryOp} {operand : Expr} : operand.Fits → op.level ≤ operand.level →
      Fits (unary op operand)
  | binary {op : BinaryOp} {left right : Expr} : 0 < op.level → left.Fits → right.Fits →
      op.leftNeed ≤ left.level → op.rightNeed ≤ right.level → Fits (binary op left right)
  | comparison {first : Expr} {rest : List (CompareOp × Expr)} : first.Fits → 6 ≤ first.level →
      rest ≠ [] → (∀ p ∈ rest, Fits p.2) → (∀ p ∈ rest, 6 ≤ p.2.level) →
      Fits (comparison first rest)
  | conditional {ifTrue condition ifFalse : Expr} : ifTrue.Fits → condition.Fits → ifFalse.Fits →
      2 ≤ ifTrue.level → Fits (conditional ifTrue condition ifFalse)

end Expr

/-- What waits for an operand: an operator with its left operand, a call or an index that is still
open, or a conditional expression whose condition or last branch is still to come. -/
inductive Frame where
  | unary (op : UnaryOp)
  | binary (left : Expr) (op : BinaryOp)
  | comparison (first : Expr) (rest : List (CompareOp × Expr)) (op : CompareOp)
  | call (callee : Expr) (args : List Expr)
  | index (base : Expr)
  | condition (ifTrue : Expr)
  | ifFalse (ifTrue condition : Expr)

namespace Frame

/-- How tight the operand has to bind that a frame waits for. What is still open takes any. -/
def need : Frame → Nat
  | unary op => op.level
  | binary _ op => op.rightNeed
  | comparison _ _ _ => 6
  | ifFalse _ _ => 1
  | _ => 0

def close : Frame → Expr → Expr
  | unary op, x => .unary op x
  | binary left op, x => .binary op left x
  | comparison first rest op, x => .comparison first (rest ++ [(op, x)])
  | ifFalse yes test, x => .conditional yes test x
  | _, x => x

end Frame

def needed : List Frame → Nat
  | [] => 0
  | f :: _ => f.need

/-- The frames that wait, the innermost first, and the operand that has been read, if any. -/
structure Reader where
  frames : List Frame
  operand : Option Expr

namespace Reader

/-- Closes the frames that bind tighter than what follows. -/
def settle (level : Nat) : List Frame → Expr → List Frame × Expr
  | [], x => ([], x)
  | f :: fs, x => if level < f.need then settle level fs (f.close x) else (f :: fs, x)

def start (fs : List Frame) : Token → Option Reader
  | .name text => some ⟨fs, some (.name text)⟩
  | .number value => some ⟨fs, some (.int value)⟩
  | .sign op => some ⟨.unary op :: fs, none⟩
  | .not =>
    match fs with
    | .comparison first rest .is :: fs => some ⟨.comparison first rest .isNot :: fs, none⟩
    | _ => some ⟨.unary .not :: fs, none⟩
  | .closeCall =>
    match fs with
    | .call callee [] :: fs => some ⟨fs, some (.call callee [])⟩
    | _ => none
  | _ => none

/-- Goes on with a comparison, which the innermost frame may have begun. -/
def compared (fs : List Frame) (x : Expr) (op : CompareOp) : List Frame :=
  match fs with
  | .comparison first rest op' :: fs => .comparison first (rest ++ [(op', x)]) op :: fs
  | _ => .comparison x [] op :: fs

def goOn (fs : List Frame) (x : Expr) : Token → Option Reader
  | .dotted part => some ⟨fs, some (.member x part)⟩
  | .openCall => some ⟨.call x [] :: fs, none⟩
  | .openIndex => some ⟨.index x :: fs, none⟩
  | .binary op => some ⟨.binary x op :: fs, none⟩
  | .compare op => some ⟨compared fs x op, none⟩
  | .ifWord => some ⟨.condition x :: fs, none⟩
  | .elseWord =>
    match fs with
    | .condition ifTrue :: fs => some ⟨.ifFalse ifTrue x :: fs, none⟩
    | _ => none
  | .comma =>
    match fs with
    | .call callee args :: fs => some ⟨.call callee (args ++ [x]) :: fs, none⟩
    | _ => none
  | .closeCall =>
    match fs with
    | .call callee args :: fs => some ⟨fs, some (.call callee (args ++ [x]))⟩
    | _ => none
  | .closeIndex =>
    match fs with
    | .index base :: fs => some ⟨fs, some (.index base x)⟩
    | _ => none
  | _ => none

def step (r : Reader) (t : Token) : Option Reader :=
  match r.operand with
  | none => start r.frames t
  | some x => goOn (settle t.level r.frames x).1 (settle t.level r.frames x).2 t

def read (r : Reader) : List Token → Option Expr
  | [] =>
    match r.operand with
    | none => none
    | some x =>
      match settle 0 r.frames x with
      | ([], e) => some e
      | _ => none
  | t :: ts => (r.step t).bind fun r' => r'.read ts

section

variable {fs : List Frame} {f : Frame} {x : Expr} {t : Token} {ts : List Token}

/-- Frames that need no more than what follows stay open. -/
theorem settle_of_le {level : Nat} (h : needed fs ≤ level) : settle level fs x = (fs, x) := by
  cases fs with
  | nil => rfl
  | cons f fs =>
    have waits : ¬ level < f.need := Nat.not_lt.2 h
    rw [settle, if_neg waits]

theorem read_start : read ⟨fs, none⟩ (t :: ts) = (start fs t).bind fun r => r.read ts := rfl

theorem read_goOn (h : needed fs ≤ t.level) :
    read ⟨fs, some x⟩ (t :: ts) = (goOn fs x t).bind fun r => r.read ts := by
  rw [read, step]
  dsimp only
  rw [settle_of_le h]

/-- A frame that binds tighter than what follows is as good as closed. -/
theorem read_close (h : headLevel ts < f.need) :
    read ⟨f :: fs, some x⟩ ts = read ⟨fs, some (f.close x)⟩ ts := by
  have settled : settle (headLevel ts) (f :: fs) x = settle (headLevel ts) fs (f.close x) := by
    rw [settle, if_pos h]
  cases ts with
  | nil =>
    unfold read
    dsimp only
    rw [show (0 : Nat) = headLevel [] from rfl, settled]
  | cons t ts =>
    unfold read step
    dsimp only
    rw [show t.level = headLevel (t :: ts) from rfl, settled]

theorem compared_eq (fs : List Frame) (x : Expr) :
    (∃ first rest more, ∀ op, compared fs x op = .comparison first rest op :: more)
      ∧ (needed fs ≤ 5 → ∀ op, compared fs x op = .comparison x [] op :: fs) := by
  unfold compared
  split
  · exact ⟨⟨_, _, _, fun _ => rfl⟩, fun h => absurd h (by simp [needed, Frame.need])⟩
  · exact ⟨⟨_, _, _, fun _ => rfl⟩, fun _ _ => rfl⟩

theorem read_compare (h : needed fs ≤ 6) (op : CompareOp) :
    read ⟨fs, some x⟩ (op.tokens ++ ts) = read ⟨compared fs x op, none⟩ ts := by
  have single (op : CompareOp) (ts : List Token) :
      read ⟨fs, some x⟩ (.compare op :: ts) = read ⟨compared fs x op, none⟩ ts := read_goOn h
  cases op
  case isNot =>
    obtain ⟨first, rest, more, same⟩ := (compared_eq fs x).1
    refine (single .is (.not :: ts)).trans ?_
    rw [same, same]
    rfl
  all_goals exact single _ ts

end

end Reader

namespace Expr

open Reader

variable {e : Expr} {k : Nat}

/-- What binds looser than an expression may stand behind it, but for powers. -/
theorem le_bound_succ (hk : k ≤ e.level) (small : k ≤ 12) : k ≤ e.bound + 1 := by
  cases e
  case binary op _ _ =>
    simp only [level, bound] at hk ⊢
    cases op <;> simp only [BinaryOp.level, BinaryOp.rightNeed] at hk ⊢ <;> omega
  all_goals
    simp only [level, bound] at hk ⊢
    omega

/-- Between comparisons and products, operators in a row are grouped from the left. -/
theorem le_bound (hk : k ≤ e.level) (large : 6 ≤ k) (small : k ≤ 11) : k ≤ e.bound := by
  cases e
  case unary op _ =>
    simp only [level, bound] at hk ⊢
    cases op <;> simp only [UnaryOp.level] at hk ⊢ <;> omega
  case binary op _ _ =>
    simp only [level, bound] at hk ⊢
    cases op <;> simp only [BinaryOp.level, BinaryOp.rightNeed] at hk ⊢ <;> omega
  all_goals
    simp only [level, bound] at hk ⊢
    omega

theorem bound_of_le_level (h : 14 ≤ e.level) : e.bound = 14 := by
  cases e
  case unary op _ => cases op <;> simp [level, UnaryOp.level] at h
  case binary op _ _ => cases op <;> simp [level, BinaryOp.level] at h
  case comparison => simp [level] at h
  case conditional => simp [level] at h
  all_goals rfl

/-- An operator may stand behind its left operand. -/
theorem level_le_bound_of_leftNeed {op : BinaryOp} (h : op.leftNeed ≤ e.level) :
    op.level ≤ e.bound := by
  cases op
  case or => exact Nat.le_of_succ_le_succ (le_bound_succ h (by decide))
  case and => exact Nat.le_of_succ_le_succ (le_bound_succ h (by decide))
  case pow =>
    rw [bound_of_le_level h]
    decide
  case other => exact Nat.zero_le _
  all_goals exact le_bound h (by decide) (by decide)

theorem level_le_leftNeed (op : BinaryOp) : op.level ≤ op.leftNeed := by
  cases op <;> simp [BinaryOp.leftNeed, BinaryOp.level]

theorem Fits.level_pos (h : e.Fits) : 0 < e.level := by
  cases h with
  | @unary op _ _ _ => cases op <;> simp [level, UnaryOp.level]
  | binary known _ _ _ _ => exact known
  | _ => simp [level]

theorem rightNeed_le (op : BinaryOp) : op.rightNeed ≤ 12 := by
  cases op <;> simp [BinaryOp.rightNeed, BinaryOp.level]

/-- The reader takes the tokens of an expression for that expression, where it may stand. -/
def Reads (e : Expr) : Prop :=
  ∀ fs rest, needed fs ≤ e.level → headLevel rest ≤ e.bound →
    read ⟨fs, none⟩ (e.tokens ++ rest) = read ⟨fs, some e⟩ rest

theorem read_args {callee : Expr} {args : List Expr} (each : ∀ a ∈ args, a.Reads)
    (given : args ≠ []) (done : List Expr) (fs : List Frame) (rest : List Token) :
    read ⟨.call callee done :: fs, none⟩ (argTokens args ++ .closeCall :: rest) =
      read ⟨fs, some (.call callee (done ++ args))⟩ rest := by
  induction args generalizing done with
  | nil => exact absurd rfl given
  | cons a args ih =>
    have first (ts : List Token) (h : headLevel ts = 0) :
        read ⟨.call callee done :: fs, none⟩ (a.tokens ++ ts) =
          read ⟨.call callee done :: fs, some a⟩ ts :=
      each a List.mem_cons_self _ ts (Nat.zero_le _) (h ▸ Nat.zero_le _)
    have waits : needed (.call callee done :: fs) ≤ 0 := Nat.le_refl 0
    cases args with
    | nil =>
      rw [argTokens, first _ rfl]
      exact read_goOn waits
    | cons b args =>
      rw [argTokens, List.append_assoc, List.cons_append, first _ rfl]
      refine (read_goOn waits).trans ?_
      refine (ih (fun c hc => each c (List.mem_cons_of_mem _ hc)) (by simp) (done ++ [a])).trans ?_
      rw [List.append_assoc, List.singleton_append]

theorem headLevel_restTokens (rest : List (CompareOp × Expr)) {after : List Token}
    (h : headLevel after ≤ 5) : headLevel (restTokens rest ++ after) ≤ 6 := by
  cases rest with
  | nil => exact Nat.le_trans h (by decide)
  | cons p rest =>
    obtain ⟨op, y⟩ := p
    cases op <;> exact Nat.le_refl 6

/-- The comparisons that follow a first one. -/
theorem read_restTokens {rest : List (CompareOp × Expr)} (each : ∀ p ∈ rest, p.2.Reads)
    (tight : ∀ p ∈ rest, 6 ≤ p.2.level) {after : List Token} (h : headLevel after ≤ 5)
    (first x : Expr) (done : List (CompareOp × Expr)) (op : CompareOp) (fs : List Frame) :
    read ⟨.comparison first done op :: fs, some x⟩ (restTokens rest ++ after) =
      read ⟨fs, some (.comparison first (done ++ (op, x) :: rest))⟩ after := by
  induction rest generalizing x done op with
  | nil => exact read_close (Nat.lt_succ_of_le h)
  | cons p rest ih =>
    obtain ⟨op', y⟩ := p
    have holds : 6 ≤ y.level := tight (op', y) List.mem_cons_self
    have follows : headLevel (restTokens rest ++ after) ≤ y.bound :=
      Nat.le_trans (headLevel_restTokens rest h) (le_bound holds (by decide) (by decide))
    have operand := each (op', y) List.mem_cons_self
      (.comparison first (done ++ [(op, x)]) op' :: fs) (restTokens rest ++ after) holds follows
    have waits : needed (.comparison first done op :: fs) ≤ 6 := Nat.le_refl 6
    rw [restTokens, List.append_assoc, List.append_assoc, read_compare waits]
    refine operand.trans ?_
    refine (ih (fun q hq => each q (List.mem_cons_of_mem _ hq))
      (fun q hq => tight q (List.mem_cons_of_mem _ hq)) y (done ++ [(op, x)]) op').trans ?_
    rw [List.append_assoc, List.singleton_append]

/-- What is opened or dotted behind an expression that nothing can tear apart. -/
theorem Reads.before (h : e.Reads) (tight : e.level = 14) {fs : List Frame} (need : needed fs ≤ 14)
    {t : Token} (ht : t.level = 14) (ts : List Token) :
    read ⟨fs, none⟩ (e.tokens ++ t :: ts) = (goOn fs e t).bind fun r => r.read ts := by
  have follows : headLevel (t :: ts) ≤ e.bound := by
    rw [bound_of_le_level (Nat.le_of_eq tight.symm)]
    exact Nat.le_of_eq ht
  rw [h fs (t :: ts) (tight ▸ need) follows]
  exact read_goOn (ht ▸ need)

theorem start_unary {op : UnaryOp} {fs : List Frame} (h : needed fs ≤ op.level) :
    start fs op.token = some ⟨.unary op :: fs, none⟩ := by
  cases op
  case not =>
    rw [UnaryOp.token, start]
    rintro first rest more rfl
    exact absurd h (by simp [needed, Frame.need, UnaryOp.level])
  all_goals rfl

/-- By induction over the expression. What follows closes the last operand, and an operator finds
its left operand settled. -/
theorem Fits.reads (h : e.Fits) : e.Reads := by
  induction h with
  | name => exact fun fs rest _ _ => rfl
  | int => exact fun fs rest _ _ => rfl
  | @member base part _ tight ih =>
    intro fs rest need _
    rw [tokens, List.append_assoc]
    exact ih.before tight need rfl rest
  | @call callee args _ tight _ ih ihArgs =>
    intro fs rest need _
    rw [tokens, List.append_assoc, List.cons_append, List.append_assoc]
    refine (ih.before tight need rfl _).trans ?_
    by_cases none : args = []
    · subst none
      rfl
    · exact read_args ihArgs none [] fs rest
  | @index base key _ tight _ ih ihKey =>
    intro fs rest need _
    have waits : needed (.index base :: fs) ≤ 0 := Nat.le_refl 0
    rw [tokens, List.append_assoc, List.cons_append, List.append_assoc]
    refine (ih.before tight need rfl _).trans ?_
    refine (ihKey (.index base :: fs) _ (Nat.zero_le _) (Nat.zero_le _)).trans ?_
    exact read_goOn waits
  | @unary op operand _ tight ih =>
    intro fs rest need follows
    have small : op.level ≤ 12 := by cases op <;> simp [UnaryOp.level]
    have positive : 0 < op.level := by cases op <;> simp [UnaryOp.level]
    have closes : headLevel rest < op.level := Nat.lt_of_le_pred positive follows
    have behind : headLevel rest ≤ operand.bound :=
      Nat.le_of_lt_succ (Nat.lt_of_lt_of_le closes (le_bound_succ tight small))
    rw [tokens, List.cons_append, read_start, start_unary need]
    refine (ih (.unary op :: fs) rest tight behind).trans ?_
    exact read_close closes
  | @binary op left right known _ _ tightLeft tightRight ihLeft ihRight =>
    intro fs rest need follows
    have positive : 0 < op.rightNeed := by cases op <;> simp [BinaryOp.rightNeed]
    have closes : headLevel rest < op.rightNeed := Nat.lt_of_le_pred positive follows
    have behind : headLevel rest ≤ right.bound :=
      Nat.le_of_lt_succ (Nat.lt_of_lt_of_le closes (le_bound_succ tightRight (rightNeed_le op)))
    have needLeft : needed fs ≤ left.level :=
      Nat.le_trans need (Nat.le_trans (level_le_leftNeed op) tightLeft)
    rw [tokens, List.append_assoc, List.cons_append]
    rw [ihLeft fs (.binary op :: (right.tokens ++ rest)) needLeft
      (level_le_bound_of_leftNeed tightLeft)]
    refine (read_goOn need).trans ?_
    refine (ihRight (.binary left op :: fs) rest tightRight behind).trans ?_
    exact read_close closes
  | @comparison first rest _ tight given _ tightRest ih ihRest =>
    intro fs after need follows
    obtain ⟨⟨op, y⟩, rest, rfl⟩ := List.exists_cons_of_ne_nil given
    have need : needed fs ≤ 5 := need
    have tightSecond : 6 ≤ y.level := tightRest (op, y) List.mem_cons_self
    have behindFirst := Nat.le_trans (headLevel_restTokens ((op, y) :: rest) follows)
      (le_bound tight (by decide) (by decide))
    have behindSecond := Nat.le_trans (headLevel_restTokens rest follows)
      (le_bound tightSecond (by decide) (by decide))
    have second := ihRest (op, y) List.mem_cons_self (.comparison first [] op :: fs)
      (restTokens rest ++ after) tightSecond behindSecond
    rw [tokens, List.append_assoc, ih fs _ (Nat.le_trans need (Nat.le_trans (by decide) tight))
      behindFirst, restTokens, List.append_assoc, List.append_assoc,
      read_compare (Nat.le_trans need (by decide)), (compared_eq fs first).2 need]
    refine second.trans ?_
    exact read_restTokens (fun q hq => ihRest q (List.mem_cons_of_mem _ hq))
      (fun q hq => tightRest q (List.mem_cons_of_mem _ hq)) follows first y [] op fs
  | @conditional ifTrue condition ifFalse _ _ fitsFalse tight ihTrue ihCondition ihFalse =>
    intro fs rest need follows
    have need : needed fs ≤ 1 := need
    have behindTrue : 1 ≤ ifTrue.bound := Nat.le_of_succ_le_succ (le_bound_succ tight (by decide))
    have first := ihTrue fs (.ifWord :: (condition.tokens ++ .elseWord :: (ifFalse.tokens ++ rest)))
      (Nat.le_trans need (Nat.le_trans (by decide) tight)) behindTrue
    have waits : needed (.condition ifTrue :: fs) ≤ 0 := Nat.le_refl 0
    have last : headLevel rest ≤ 0 := follows
    rw [tokens, List.append_assoc, List.cons_append, List.append_assoc, List.cons_append]
    refine first.trans ?_
    refine (read_goOn need).trans ?_
    refine (ihCondition (.condition ifTrue :: fs) _ (Nat.zero_le _) (Nat.zero_le _)).trans ?_
    refine (read_goOn waits).trans ?_
    refine (ihFalse (.ifFalse ifTrue condition :: fs) rest fitsFalse.level_pos
      (Nat.le_trans last (Nat.zero_le _))).trans ?_
    exact read_close (Nat.lt_succ_of_le last)

/-- An expression whose operands need no parentheses is read back from its tokens. -/
theorem Fits.read_tokens (h : e.Fits) : read ⟨[], none⟩ e.tokens = some e := by
  have all := h.reads [] [] (Nat.zero_le _) (Nat.zero_le _)
  rw [List.append_nil] at all
  exact all

theorem Fits.eq_of_tokens {d : Expr} (hd : d.Fits) (he : e.Fits) (same : d.tokens = e.tokens) :
    d = e := by
  have both := hd.read_tokens
  rw [same, he.read_tokens] at both
  exact (Option.some.inj both).symm

end Expr

end IdiomLint
