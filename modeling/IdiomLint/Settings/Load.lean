import IdiomLint.Files
import IdiomLint.Settings.CommandLine
import IdiomLint.Settings.Config

/-! The settings of a run: those of the configuration file, then those of the command line. -/
namespace IdiomLint.Settings

def defaultConfigFile : String := "pyproject.toml"

/-- The configuration file the arguments name; an empty name names none. -/
def namedConfigFile (s : Settings) : Option String := s.configFile.filter fun f => !f.isEmpty

/-- The settings of the configuration file. Only the file that is read by default may be
missing. -/
def fromFile (t : Terminal) (fs : Files) (arguments : Settings)
    (room : Nat := Toml.standardRoom) : Except SettingsError Settings :=
  let path := Path.ofText (arguments.namedConfigFile.getD defaultConfigFile)
  match fs.read path with
  | .ok text => ofConfigText t text room
  | .error .isDirectory => .error (.directoryConfig path.toText)
  | .error .throughFile => .error .throughFile
  | .error .nullCharacter => .error .nullCharacter
  | .error .tooLong => .error .tooLong
  | .error .denied => .error .denied
  | .error .missing =>
    if arguments.namedConfigFile.isSome then .error (.missingConfig path.toText)
    else .ok (initial t)

def ofRun (t : Terminal) (fs : Files) (args : List String) (room : Nat := Toml.standardRoom) :
    Except SettingsError Settings := do
  let arguments ← ofArguments t args
  let config ← fromFile t fs arguments room
  merge t config arguments

end IdiomLint.Settings
