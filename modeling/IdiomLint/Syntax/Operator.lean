/-! Operators of the checked language and the symbols that spell them. A tree may hold a symbol
that no operator has; `other` keeps it. -/
namespace IdiomLint

/-- Operators between two values. `and` and `or` are the two that may skip their right operand. -/
inductive BinaryOp where
  | add | sub | mul | div | floorDiv | mod | matMul | pow
  | bitAnd | bitOr | bitXor | shiftLeft | shiftRight
  | and | or
  | other (symbol : String)
deriving DecidableEq, Inhabited

namespace BinaryOp

def symbol : BinaryOp → String
  | add => "+" | sub => "-" | mul => "*" | div => "/" | floorDiv => "//" | mod => "%"
  | matMul => "@" | pow => "**" | bitAnd => "&" | bitOr => "|" | bitXor => "^"
  | shiftLeft => "<<" | shiftRight => ">>" | and => "and" | or => "or"
  | other s => s

def known : List BinaryOp :=
  [add, sub, mul, div, floorDiv, mod, matMul, pow, bitAnd, bitOr, bitXor, shiftLeft, shiftRight,
    and, or]

def ofSymbol (s : String) : BinaryOp := (known.find? (·.symbol == s)).getD (.other s)

theorem symbol_ofSymbol (s : String) : (ofSymbol s).symbol = s := by
  unfold ofSymbol
  cases h : known.find? (·.symbol == s) with
  | none => rfl
  | some op => simpa using List.find?_some h

end BinaryOp

inductive UnaryOp where
  | neg | pos | invert | not
  | other (symbol : String)
deriving DecidableEq, Inhabited

namespace UnaryOp

def symbol : UnaryOp → String
  | neg => "-" | pos => "+" | invert => "~" | not => "not" | other s => s

def known : List UnaryOp := [neg, pos, invert, not]

def ofSymbol (s : String) : UnaryOp := (known.find? (·.symbol == s)).getD (.other s)

end UnaryOp

inductive CompareOp where
  | eq | ne | lt | le | gt | ge | isIn | notIn | is | isNot
  | other (symbol : String)
deriving DecidableEq, Inhabited

namespace CompareOp

def symbol : CompareOp → String
  | eq => "==" | ne => "!=" | lt => "<" | le => "<=" | gt => ">" | ge => ">="
  | isIn => "in" | notIn => "not in" | is => "is" | isNot => "is not" | other s => s

def known : List CompareOp := [eq, ne, lt, le, gt, ge, isIn, notIn, is, isNot]

def ofSymbol (s : String) : CompareOp := (known.find? (·.symbol == s)).getD (.other s)

end CompareOp

/-- How an argument is passed, or a parameter declared: by position, by position with a default,
gathering the remaining positions, by name, gathering the remaining names, by name with a
default. -/
inductive ArgKind where
  | pos | opt | star | named | starStar | namedOpt
deriving DecidableEq, Inhabited

/-- Where a name is bound. -/
inductive Level where
  | inFunction | inModule | inClass
deriving DecidableEq, Inhabited

end IdiomLint
