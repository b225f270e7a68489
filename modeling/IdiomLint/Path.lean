import IdiomLint.Text.Search

/-! File paths by their components. Repeated slashes and single dots mean nothing; two slashes at
the very start are a root of their own. -/
namespace IdiomLint

inductive Root where
  | relative | slash | doubleSlash
deriving DecidableEq, Inhabited

structure Path where
  root : Root
  parts : List String
deriving DecidableEq, Inhabited

namespace Path

def empty : Path := ⟨.relative, []⟩

def ofText (s : String) : Path :=
  let root := match s.toList with
    | '/' :: '/' :: '/' :: _ => Root.slash
    | '/' :: '/' :: _ => .doubleSlash
    | '/' :: _ => .slash
    | _ => .relative
  ⟨root, (Text.split '/' s).filter fun p => p != "" && p != "."⟩

def rootText : Root → String
  | .relative => ""
  | .slash => "/"
  | .doubleSlash => "//"

def toText (p : Path) : String :=
  let t := rootText p.root ++ "/".intercalate p.parts
  if t == "" then "." else t

def parent (p : Path) : Path := ⟨p.root, p.parts.dropLast⟩

/-- One path below another; a path with a root stands alone. -/
def join (base p : Path) : Path :=
  match p.root with
  | .relative => ⟨base.root, base.parts ++ p.parts⟩
  | _ => p

/-- Symbolic links by their components from the root, each with the place that it leads to in the
end. A link that leads in a circle leads nowhere and is none of them. -/
abbrev Links := List (List String × List String)

/-- One component further: `..` goes up, but not above the root, and any other name down, or to
where the link of that name leads. -/
def step (links : Links) (place : List String) (name : String) : List String :=
  if name == ".." then place.dropLast
  else (links.lookup (place ++ [name])).getD (place ++ [name])

/-- Components without `..`, which goes up from what came before. -/
def collapse (parts : List String) : List String := parts.foldl (step []) []

/-- The path from the root, seen from a directory. Both roots are the same place. -/
def resolve (links : Links) (cwd p : Path) : Path :=
  ⟨.slash, p.parts.foldl (step links) (if p.root = .relative then cwd.parts else [])⟩

/-- Whether a path holds a null character, so that nothing can have it. -/
def hasNull (p : Path) : Bool := p.parts.any fun part => part.toList.contains '\x00'

def isBelow (p base : Path) : Bool := p.root == base.root && base.parts.isPrefixOf p.parts

/-- What remains of a path below another. -/
def relativeTo? (p base : Path) : Option Path :=
  if p.isBelow base then some ⟨.relative, p.parts.drop base.parts.length⟩ else none

/-- How many components two lists start with in common. -/
def commonLength : List String → List String → Nat
  | a :: as, b :: bs => if a == b then commonLength as bs + 1 else 0
  | _, _ => 0

/-- The way from one directory to a place, both given from the root. -/
def wayFrom (base p : Path) : Path :=
  let from_ := collapse base.parts
  let target := collapse p.parts
  let shared := commonLength from_ target
  ⟨.relative, List.replicate (from_.length - shared) ".." ++ target.drop shared⟩

def name (p : Path) : String := p.parts.getLastD ""

/-- The last dot of the name and what follows it; a dot at either end of the name does not
count. -/
def suffix (p : Path) : String :=
  let tail := p.name.toList.reverse.takeWhile (· != '.')
  let before := p.name.toList.length - tail.length
  if tail.isEmpty || before ≤ 1 then "" else String.ofList ('.' :: tail.reverse)

/-- Why a path is none. -/
inductive Flaw where
  | nullCharacter
deriving DecidableEq

/-- The directories from a path upwards that lie below the working directory, the path first. -/
def foldersBelow (links : Links) (cwd p : Path) : Except Flaw (List Path) :=
  if p.hasNull then .error .nullCharacter
  else
    let q := cwd.resolve links p
    .ok <|
      if q.isBelow cwd then
        q :: ((List.range (q.parts.length - cwd.parts.length - 1)).map fun i =>
          ⟨q.root, q.parts.take (q.parts.length - 1 - i)⟩)
      else []

end Path

end IdiomLint
