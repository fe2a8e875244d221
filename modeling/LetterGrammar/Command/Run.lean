import LetterGrammar.Command.Arguments
import LetterGrammar.Search.Recognizer
import LetterGrammar.Source.Reading
import LetterGrammar.Text.Characters

/-! What a run does, as a function of what it reads. Words come from the options
or, where these give none, line by line from the standard input. Each is checked
and reported on. A run has no report where a check finds no verdict within the
given depth. -/

namespace LetterGrammar.Command

/-- What has been written to the two output streams. -/
structure Output where
  out : String
  err : String
deriving DecidableEq

namespace Output

def empty : Output := ⟨"", ""⟩

def append (a b : Output) : Output := ⟨a.out ++ b.out, a.err ++ b.err⟩

instance : Append Output := ⟨append⟩

end Output

/-- A run that has come to its end. -/
structure Report where
  output : Output
  exitCode : Nat
deriving DecidableEq

/-- Puts what was written before in front. -/
def Report.after (o : Report) (before : Output) : Report := ⟨before ++ o.output, o.exitCode⟩

def verdictText : Verdict → String
  | .accepted chain => "Valid string\n\nConfiguration chain:\n" ++ chain.text ++ "\n"
  | .rejected => "Invalid string\n"

/-- Checks one word and reports on it. -/
def check (r : Recognizer) (verbose : Bool) (depth : Nat) (input : String) : Option Output := do
  let (verdict, tally) ← r.searchWithin depth (Word.ofString input)
  return ⟨verdictText verdict,
    if verbose then Text.quoted input ++ ": " ++ tally.text ++ "\n" else ""⟩

def checkAll (r : Recognizer) (verbose : Bool) (depth : Nat) : List String → Option Output
  | [] => some .empty
  | w :: ws => do return (← check r verbose depth w) ++ (← checkAll r verbose depth ws)

def prompt : String := "Enter a string: "

/-- What follows the prompt for one line: a report and the wish for more, or
the end of the run at a line that is no text. -/
def answer (r : Recognizer) (verbose : Bool) (depth : Nat) (line : List UInt8) :
    Option (Except Report Output) :=
  match Text.decode? line with
  | none => some (.error ⟨⟨"", ReadError.notUnicode.text ++ "\n"⟩, 1⟩)
  | some w => (check r verbose depth w).map fun o => .ok (o ++ ⟨"\n", ""⟩)

/-- The end of the run where no line follows the prompt. -/
def farewell : Report := ⟨⟨"\n", ""⟩, 0⟩

/-- Asks for one line after the other. -/
def converse (r : Recognizer) (verbose : Bool) (depth : Nat) : List (List UInt8) → Option Report
  | [] => some (farewell.after ⟨prompt, ""⟩)
  | line :: rest => do
    match ← answer r verbose depth line with
    | .error ended => return ended.after ⟨prompt, ""⟩
    | .ok o => return (← converse r verbose depth rest).after (⟨prompt, ""⟩ ++ o)

/-- The table, unless the run is to be quiet. -/
def preamble (o : Options) (t : Table) : Output := ⟨if o.quiet then "" else t.text ++ "\n", ""⟩

def recognizer (o : Options) (t : Table) : Recognizer :=
  match o.start with
  | none => .ofTable t
  | some c => (Recognizer.ofTable t).withStart (.letter c)

/-- A grammar that cannot be read ends the run. -/
def unreadable (e : SourceError) : Report := ⟨⟨"", e.text ++ "\n"⟩, 1⟩

def run (depth : Nat) (o : Options) (source : Opened) (stdin : List UInt8) : Option Report :=
  match Grammar.ofOpened o.file source with
  | .error e => some (unreadable e)
  | .ok g =>
    let table := g.compile
    let r := recognizer o table
    let report :=
      if o.inputs.isEmpty then converse r o.verbose depth (Text.lines stdin)
      else (checkAll r o.verbose depth o.inputs).map fun out => ⟨out, 0⟩
    report.map (·.after (preamble o table))

/-- What is shown instead of a run. -/
def stopped : Stop → Report
  | .help => ⟨⟨helpText, ""⟩, 0⟩
  | .version => ⟨⟨versionText, ""⟩, 0⟩
  | .usage e => ⟨⟨"", e.written ++ "\n"⟩, 2⟩

def runArguments (depth : Nat) (args : List String) (source : String → Opened)
    (stdin : List UInt8) : Option Report :=
  match Options.ofArguments args with
  | .error s => some (stopped s)
  | .ok o => run depth o (source o.file) stdin

end LetterGrammar.Command
