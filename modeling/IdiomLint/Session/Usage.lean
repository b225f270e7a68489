/-! The help text and the versions. -/
namespace IdiomLint

def usageLines : List String :=
  [
    "usage: refurb [--ignore err] [--load path] [--debug] [--quiet] [--enable err]",
    "              [--disable err] [--enable-all] [--disable-all]",
    "              [--config-file path] [--python-version version] [--verbose | -v]",
    "              [--format format] [--sort sort] [--timing-stats file]",
    "              SRC [SRCS...] [-- MYPY_ARGS]",
    "       refurb [--help | -h]",
    "       refurb [--version]",
    "       refurb --explain err",
    "       refurb gen",
    "",
    "Command Line Options:",
    "",
    "--help, -h            This help menu.",
    "--version             Print version information.",
    "--ignore err          Ignore an error. Can be repeated.",
    "--load module         Add a module to the list of paths to be searched when "
      ++ "looking for checks. Can be repeated.",
    "--debug               Print the AST representation of all files that where checked.",
    "--quiet               Suppress default \"--explain\" suggestion when an error occurs.",
    "--enable err          Load a check which is disabled by default.",
    "--disable err         Disable loading a check which is enabled by default.",
    "--config-file file    Load \"file\" instead of the default config file.",
    "--explain err         Print the explanation/documentation from a given error code.",
    "--disable-all         Disable all checks by default.",
    "--enable-all          Enable all checks by default.",
    "--python-version x.y  Version of the Python code being checked.",
    "--verbose             Increase verbosity.",
    "--format format       Output errors in specified format. Can be \"text\" or \"github\".",
    "--sort sort           Sort errors by sort. Can be \"filename\" or \"error\".",
    "--timing-stats file   Export timing information (as JSON) to file.",
    "",
    "Positional Args:",
    "",
    "SRC                   A list of files or folders to check.",
    "MYPY_ARGS             Extra args to be passed directly to Mypy.",
    "",
    "",
    "Subcommands:",
    "",
    "gen              Generate boilerplate code for a new check. Useful for developers.",
    ""
  ]

def usage : String := "\n".intercalate usageLines

def programVersion : String := "2.0.0"

def typeCheckerVersion : String := "1.10.0"

def versions : String := "Refurb: v" ++ programVersion ++ "\nMypy: v" ++ typeCheckerVersion

end IdiomLint
