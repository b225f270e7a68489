import IdiomLint.Catalogue
import IdiomLint.Catalogue.Examples

/-! Modules that can be loaded by name, alone or with the package they are in. Installed plugins
name further ones. -/
namespace IdiomLint

/-- What a module holds: nothing that is run, a check, or a check function that is declared wrongly
at the given line. -/
inductive Content where
  | nothing
  | check (check : Check)
  | misdeclared (kind : Kind) (location : String) (line : Nat) (signature : Signature)

structure CheckModule where
  /-- The components of its name. -/
  path : List String
  content : Content

inductive LoadError where
  | unknownModule (name : String)
  | emptyName
  /-- A name that starts at the package it is used in, and there is none. -/
  | relativeName (name : String)
  | notText
  | misdeclared (location : String) (line : Nat) (error : SignatureError)
deriving DecidableEq

def LoadError.message : LoadError → String
  | unknownModule name => "No module named " ++ Text.quoted name
  | emptyName => "Empty module name"
  | relativeName name =>
    "the 'package' argument is required to perform a relative import for " ++ Text.quoted name
  | notText => ""
  | misdeclared location line e => location ++ ":" ++ toString line ++ ": " ++ e.message

/-- Whether a run reports the error; other errors end it. -/
def LoadError.isReported : LoadError → Bool
  | relativeName _ => true
  | misdeclared .. => true
  | _ => false

/-- The components of the name of the module that a file holds. -/
def moduleOfFile (location : String) : List String :=
  Text.split '/' (String.ofList (location.toList.take (location.length - ".py".length)))

def CheckModule.ofCheck (c : Check) : CheckModule := ⟨moduleOfFile c.location, .check c⟩

/-- What a name can stand for. -/
inductive Loadable where
  | module (m : CheckModule)
  | package (path : List String)

/-- What is loaded: modules in the order in which they were met, and packages that were walked
through. -/
structure Loaded where
  modules : List CheckModule := []
  packages : List (List String) := []

namespace Loaded

/-- Modules are told apart by their names. -/
def has (l : Loaded) (m : CheckModule) : Bool := l.modules.any fun n => n.path == m.path

def add (l : Loaded) (m : CheckModule) : Loaded :=
  if l.has m then l else { l with modules := l.modules ++ [m] }

/-- A package is walked through once. The walk may meet modules that are loaded already, alone or
with another package. -/
def load (walk : List String → List CheckModule) (l : Loaded) : Loadable → Loaded
  | .module m => l.add m
  | .package path =>
    if l.packages.contains path then l
    else { (walk path).foldl add l with packages := path :: l.packages }

end Loaded

/-- What can be loaded. -/
structure Library where
  /-- What a name with these components stands for. -/
  find? : List String → Option Loadable
  /-- The modules in a package and in the packages it holds, in the order of a walk through it. -/
  walk : List String → List CheckModule
  /-- The names that installed plugins give. -/
  plugins : List String

namespace Library

def named (lib : Library) (value : Toml.Value) : Except LoadError Loadable :=
  match value with
  | .string name =>
    if name.isEmpty then .error .emptyName
    else if name.toList.head? == some '.' then .error (.relativeName name)
    else
      match lib.find? (Text.split '.' name) with
      | some found => .ok found
      | none => .error (.unknownModule name)
  | _ => .error .notText

/-- The package of the checks that come with the program. -/
def checksPath : List String := ["refurb", "checks"]

/-- The names of a run: those that are given, then those of the plugins. -/
def allNames (lib : Library) (names : List Toml.Value) : List Toml.Value :=
  names ++ lib.plugins.map .string

/-- The modules of a run: those that come with the program, then those that are named. All names
are looked up before anything is loaded. -/
def load (lib : Library) (names : List Toml.Value) : Except LoadError (List CheckModule) := do
  let found ← (lib.allNames names).mapM lib.named
  return ((.package checksPath :: found).foldl (Loaded.load lib.walk) {}).modules

/-- The modules that come with the program and hold checks. -/
def builtin : List CheckModule := Catalogue.builtin.map CheckModule.ofCheck

/-- Modules of the program without checks. They can be loaded, and nothing comes of it. -/
def plain : List CheckModule :=
  ["refurb.__main__", "refurb.checks.common", "refurb.checks.pathlib.util", "refurb.error",
    "refurb.explain", "refurb.gen", "refurb.loader", "refurb.main", "refurb.settings",
    "refurb.types", "refurb.visitor.mapping", "refurb.visitor.traverser",
    "refurb.visitor.visitor"].map fun name => ⟨Text.split '.' name, .nothing⟩

def examples : List CheckModule :=
  Catalogue.Examples.all.map CheckModule.ofCheck ++
    [⟨moduleOfFile Catalogue.Examples.misdeclaredLocation,
      .misdeclared Catalogue.Examples.misdeclaredKind Catalogue.Examples.misdeclaredLocation
        Catalogue.Examples.misdeclaredLine Catalogue.Examples.misdeclared⟩]

/-- A package that is not marked as one. It can be loaded, but a walk through the package around it
does not go on into it. -/
def unmarked : List String := ["test", "invalid_checks"]

/-- Whether a walk through a package meets a module. -/
def meets (path : List String) (m : CheckModule) : Bool :=
  path.isPrefixOf m.path
    && (path == unmarked || !path.isPrefixOf unmarked || !unmarked.isPrefixOf m.path)

/-- The library of modules in packages that hold one at least. -/
def ofModules (modules : List CheckModule) (plugins : List String) : Library where
  find? path := match modules.find? fun m => m.path == path with
    | some m => some (.module m)
    | none => if modules.any fun m => path.isPrefixOf m.path then some (.package path) else none
  walk path := modules.filter (meets path)
  plugins

/-- Everything that can be loaded by name. Where in a walk a module without checks is met makes no
difference, so they follow those with checks. -/
def standard : Library := ofModules (builtin ++ plain ++ examples) []

end Library

end IdiomLint
