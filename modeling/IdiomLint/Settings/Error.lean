import IdiomLint.Toml.Error

/-! Why settings are refused. -/
namespace IdiomLint

inductive SettingsError where
  | allAndNone
  | badCode (text : String)
  | badVersion
  | badNumber (error : Text.NumberError)
  | badFormat (text : String)
  | badSort (text : String)
  | extraAmendFields
  | malformedAmend
  | wrongType (field kind : String)
  | amendNotList
  | unknownFields (names : List String)
  | missingArgument (option : String)
  | unsupportedOption (option : String)
  | emptyArgument
  | unexpectedValue (first : String)
  | directoryConfig (path : String)
  | missingConfig (path : String)
  /-- A part of the path of the configuration is no directory. -/
  | throughFile
  | nullCharacter
  /-- The path of the configuration is longer than any file's. -/
  | tooLong
  /-- The system gives no access to the configuration. -/
  | denied
  /-- The text of the configuration is no TOML. -/
  | malformedConfig (message : String)
  /-- The values of the configuration are nested too deeply. -/
  | tooDeep
  /-- A table was asked for a member and is a plain value. -/
  | noTable
  /-- A table was asked for a member and is a list. -/
  | listAsTable
deriving DecidableEq

namespace SettingsError

def message : SettingsError → String
  | allAndNone => "refurb: \"enable all\" and \"disable all\" can't be used at the same time"
  | badCode t => s!"refurb: \"{t}\" must be in form FURB123 or 123"
  | badVersion => "refurb: version must be in form `x.y`"
  | badNumber e => e.message
  | badFormat t => s!"refurb: \"{t}\" is not a valid format"
  | badSort t => s!"refurb: cannot sort by \"{t}\""
  | extraAmendFields => "refurb: only \"path\" and \"ignore\" fields are supported"
  | malformedAmend => "refurb: \"path\" or \"ignore\" fields are missing or malformed"
  | wrongType f k => s!"refurb: \"{f}\" must be a {k}"
  | amendNotList => "refurb: \"amend\" field(s) must be a TOML table"
  | unknownFields names => "refurb: unknown field(s): " ++ ", ".intercalate names
  | missingArgument o => s!"refurb: missing argument after \"{o}\""
  | unsupportedOption o => s!"refurb: unsupported option \"{o}\""
  | emptyArgument => "refurb: argument cannot be empty"
  | unexpectedValue a => s!"refurb: unexpected value before/after `{a}`"
  | directoryConfig p => s!"refurb: \"{p}\" is a directory"
  | missingConfig p => s!"refurb: \"{p}\" was not found"
  | throughFile => ""
  | nullCharacter => "embedded null byte"
  | tooLong => ""
  | denied => ""
  | malformedConfig m => m
  | tooDeep => ""
  | noTable => ""
  | listAsTable => ""

/-- Whether the program reports the error in its own words; it has none for a path through a file,
for a path that is too long, for a file that it has no access to, for values that are nested too
deeply and for a table that is of another kind. -/
def isReported : SettingsError → Bool
  | throughFile => false
  | tooLong => false
  | denied => false
  | tooDeep => false
  | noTable => false
  | listAsTable => false
  | _ => true

def ofRefusal : Toml.Refusal → SettingsError
  | .malformed message => malformedConfig message
  | .badNumber e => badNumber e
  | .tooDeep => tooDeep

end SettingsError

end IdiomLint
