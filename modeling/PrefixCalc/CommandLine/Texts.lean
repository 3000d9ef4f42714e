/-
# Fixed texts

What the program prints whatever it is asked to evaluate: its help text, its version,
the banner and prompt of a conversation, and the report on a file that cannot be read.
-/

namespace PrefixCalc

namespace CommandLine

/-- The name under which the program introduces itself. -/
def programName : String := "rlisp"

/-- The version of the program. -/
def programVersion : String := "0.1.0"

/-- The answer to a request for the version. -/
def versionText : String := programName ++ " " ++ programVersion ++ "\n"

/-- What a conversation starts with. -/
def banner : String :=
  programName ++ " Version " ++ programVersion ++ "\nPress Ctrl+C to Exit\n\n"

/-- What invites the user to type a line. -/
def prompt : String := programName ++ "> "

/-- What is reported if a file cannot be read or is not a text. -/
def unreadableText (path : String) : String :=
  "Failed to read the input file '" ++ path ++ "'. Perhaps this file does not exist?"

/-- The lines of the help text. -/
def helpLines : List String :=
  ["A small prefix-notation integer calculator: s-expressions in, numbers out",
    "",
    "Usage: rlisp [OPTIONS] [CONTENTS]",
    "",
    "Arguments:",
    "  [CONTENTS]  An expression to evaluate, or a file path with `--file`. Without it, rlisp starts an interactive prompt",
    "",
    "Options:",
    "  -f, --file                   Tells rlisp to treat the argument as a file and evaluate each of its lines",
    "  -t, --tree                   Also print the syntax tree and the value tree of every input",
    "      --max-depth <MAX_DEPTH>  Deepest permitted nesting of parentheses, at most 1024 [default: 256]",
    "  -h, --help                   Print help",
    "  -V, --version                Print version"]

/-- The answer to a request for help. -/
def helpText : String := String.join (helpLines.map fun line => line ++ "\n")

end CommandLine

end PrefixCalc
