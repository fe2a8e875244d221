import LetterGrammar.Command.Run

/-! The program. Everything it decides is decided elsewhere; here files are
opened, standard input is read up to one line end at a time, and reports are
written as soon as they are there. -/

namespace LetterGrammar.Main

open Command

def readError (e : IO.Error) : ReadError :=
  let told (fault : ReadFault) (code : UInt32) (details : String) : ReadError :=
    ⟨fault, details ++ " (os error " ++ toString code.toNat ++ ")"⟩
  match e with
  | .noFileOrDirectory _ code details => told .notFound code details
  | .permissionDenied _ code details => told .permissionDenied code details
  | .inappropriateType _ code details =>
    told (if code = 20 then .notADirectory else .isADirectory) code details
  | e => ⟨.other, toString e⟩

def openSource (path : String) : IO Opened := do
  match ← (IO.FS.Handle.mk path .read).toBaseIO with
  | .error e => return .refused (readError e)
  | .ok handle =>
    match ← handle.readBinToEnd.toBaseIO with
    | .error e => return .unreadable (readError e)
    | .ok content => return .bytes content.data.toList

def write (o : Output) : IO Unit := do
  let out ← IO.getStdout
  let err ← IO.getStderr
  out.putStr o.out
  out.flush
  err.putStr o.err
  err.flush

def finish (r : Report) : IO UInt32 := do
  write r.output
  return r.exitCode.toUInt32

/-- The bytes up to and with the next newline, or up to the end of input. -/
partial def readPiece (stdin : IO.FS.Stream) (newestFirst : List UInt8) : IO (List UInt8) := do
  match (← stdin.read 1).data.toList with
  | [] => return newestFirst.reverse
  | b :: _ =>
    if b = Text.newline then return (b :: newestFirst).reverse
    else readPiece stdin (b :: newestFirst)

def undecided : IO UInt32 := throw (IO.userError "the search does not end")

partial def converse (r : Recognizer) (verbose : Bool) : IO UInt32 := do
  write ⟨prompt, ""⟩
  match Text.lines (← readPiece (← IO.getStdin) []) with
  | [] => finish farewell
  | line :: _ =>
    match answer r verbose Recognizer.depthLimit line with
    | none => undecided
    | some (.error ended) => finish ended
    | some (.ok o) =>
      write o
      converse r verbose

def checkEach (r : Recognizer) (verbose : Bool) : List String → IO UInt32
  | [] => return 0
  | w :: ws => do
    match check r verbose Recognizer.depthLimit w with
    | none => undecided
    | some o =>
      write o
      checkEach r verbose ws

def runOptions (o : Options) : IO UInt32 := do
  match Grammar.ofOpened o.file (← openSource o.file) with
  | .error e => finish (unreadable e)
  | .ok g =>
    let table := g.compile
    let r := recognizer o table
    write (preamble o table)
    if o.inputs.isEmpty then converse r o.verbose else checkEach r o.verbose o.inputs

end LetterGrammar.Main

def main (args : List String) : IO UInt32 :=
  match LetterGrammar.Command.Options.ofArguments args with
  | .error s => LetterGrammar.Main.finish (LetterGrammar.Command.stopped s)
  | .ok o => LetterGrammar.Main.runOptions o
