import IdiomLint.Syntax.Tree

/-! What a check reports: a place in a file and a message. -/
namespace IdiomLint

structure Finding where
  line : Int
  column : Int
  endLine : Option Int
  endColumn : Option Int
  message : String
deriving DecidableEq, Inhabited

namespace Finding

/-- A finding that covers a span. -/
def ofSpan (s : Span) (message : String) : Finding :=
  ⟨s.line, s.column, s.endLine, s.endColumn, message⟩

/-- A finding that covers a node. -/
def ofNode (n : Node) (message : String) : Finding := ofSpan n.span message

/-- A finding of which only the start is known. -/
def startingAt (line column : Int) (message : String) : Finding :=
  ⟨line, column, none, none, message⟩

/-- The usual wording of a suggestion. -/
def replacement (old new : String) : String := "Replace `" ++ old ++ "` with `" ++ new ++ "`"

/-- A suggestion for a node. -/
def replace (n : Node) (old new : String) : Finding := ofNode n (replacement old new)

end Finding

end IdiomLint
