import LetterGrammar.Text.Plain

/-! What the command line can say: the options of a run, the ways a request for
one can be refused, and the texts shown instead of a run. -/

namespace LetterGrammar.Command

structure Options where
  file : String
  start : Option Char
  /-- Words to check; without any, they are read line by line. -/
  inputs : List String
  quiet : Bool
  verbose : Bool
deriving DecidableEq

/-- Options that stand alone. -/
inductive Flag where
  | quiet
  | verbose
  | help
  | version
deriving DecidableEq

/-- Options that take a value. -/
inductive Setting where
  | start
  | input
deriving DecidableEq

def Flag.text : Flag → String
  | quiet => "--quiet"
  | verbose => "--verbose"
  | help => "--help"
  | version => "--version"

def Setting.text : Setting → String
  | start => "--start <SYMBOL>"
  | input => "--input <STRING>"

def fileText : String := "<FILE>"

inductive UsageError where
  | missingFile
  | unexpectedArgument (argument : String)
  /-- A flag was given a value. -/
  | unexpectedValue (value : String) (flag : Flag)
  | missingValue (option : String)
  /-- An option that may be given once was given again. -/
  | repeated (option : String)
  | emptySymbol
  | longSymbol (value : String)
deriving DecidableEq

namespace UsageError

/-- The message in the styles of a terminal. -/
def styled : UsageError → String
  | missingFile => told "the following required arguments were not provided:"
  | unexpectedArgument a => told ("unexpected argument '" ++ wrong a ++ "' found")
  | unexpectedValue v f =>
    told ("unexpected value '" ++ wrong v ++ "' for '" ++ literal f.text
      ++ "' found; no more were expected")
  | missingValue o => told ("a value is required for '" ++ wrong o ++ "' but none was supplied")
  | repeated o => told ("the argument '" ++ wrong o ++ "' cannot be used multiple times")
  | emptySymbol => badSymbol "" "cannot parse char from empty string"
  | longSymbol v => badSymbol v "too many characters in string"
where
  told (s : String) : String := "\x1b[1m\x1b[31merror:\x1b[0m " ++ s
  wrong (s : String) : String := "\x1b[33m" ++ s ++ "\x1b[0m"
  literal (s : String) : String := "\x1b[1m" ++ s ++ "\x1b[0m"
  badSymbol (v reason : String) : String :=
    told ("invalid value '" ++ wrong v ++ "' for '" ++ literal Setting.start.text ++ "': " ++ reason)

/-- The message as a text of its own. A value from the command line may bring
line ends, and then only the first line tells it. -/
def text (e : UsageError) : String := Text.firstLine (Text.plain e.styled)

/-- The message as the end of a run writes it. -/
def written (e : UsageError) : String := Text.piped e.styled

end UsageError

/-- Why a command line asks for no run. -/
inductive Stop where
  | help
  | version
  | usage (error : UsageError)
deriving DecidableEq

def versionText : String := "pushdown 0.1.0\n"

def helpText : String :=
  "Usage: pushdown [OPTIONS] <FILE>\n\n"
    ++ "Arguments:\n"
    ++ "  <FILE>  File containing the grammar, one `S>alt|alt` rule per line\n\n"
    ++ "Options:\n"
    ++ "  -s, --start <SYMBOL>  Start symbol (default: nonterminal of the first rule)\n"
    ++ "  -i, --input <STRING>  Check this string instead of reading from stdin (repeatable)\n"
    ++ "  -q, --quiet           Don't print the alphabets and transition table\n"
    ++ "  -v, --verbose         Report search statistics for every check on stderr\n"
    ++ "  -h, --help            Print help\n"
    ++ "  -V, --version         Print version\n"

end LetterGrammar.Command
