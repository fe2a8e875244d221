import LetterGrammar.Command.Options

/-! Reading a command line. Arguments are taken in order. A value is held back
until the next argument that counts as an option or a file, and only then
looked at, so of two mistakes the one that is looked at first is told. An
argument nobody knows is told at once. -/

namespace LetterGrammar.Command

/-- A value that has not been looked at yet. -/
inductive Held where
  /-- An option whose value may come next. -/
  | awaiting (s : Setting)
  | value (s : Setting) (v : String)
  | file (v : String)

structure Reader where
  file : Option String
  start : Option Char
  inputs : List String
  quiet : Bool
  verbose : Bool
  held : Option Held
  /-- A file has been named, whether or not it has been looked at. -/
  fileNamed : Bool
  /-- All further arguments are files, whatever they begin with. -/
  filesOnly : Bool

namespace Reader

def fresh : Reader := ⟨none, none, [], false, false, none, false, false⟩

/-- Takes the value of an option. -/
def set (r : Reader) : Setting → String → Except Stop Reader
  | .input, v => .ok { r with inputs := r.inputs ++ [v] }
  | .start, v =>
    if r.start.isSome then .error (.usage (.repeated Setting.start.text))
    else match v.toList with
      | [c] => .ok { r with start := some c }
      | [] => .error (.usage .emptySymbol)
      | _ => .error (.usage (.longSymbol v))

/-- Looks at what is held back. -/
def settle (r : Reader) : Except Stop Reader :=
  let free := { r with held := none }
  match r.held with
  | none => .ok r
  | some (.awaiting s) => .error (.usage (.missingValue s.text))
  | some (.value s v) => free.set s v
  | some (.file v) =>
    if v.isEmpty then .error (.usage (.missingValue fileText))
    else .ok { free with file := some v }

def raise (r : Reader) (f : Flag) : Except Stop Reader := do
  let r ← r.settle
  match f with
  | .help => .error .help
  | .version => .error .version
  | .quiet =>
    if r.quiet then .error (.usage (.repeated f.text)) else .ok { r with quiet := true }
  | .verbose =>
    if r.verbose then .error (.usage (.repeated f.text)) else .ok { r with verbose := true }

/-- An option whose value hangs on to it is settled at once. -/
def setAttached (r : Reader) (s : Setting) (v : String) : Except Stop Reader := do
  (← r.settle).set s v

def await (r : Reader) (s : Setting) : Except Stop Reader := do
  return { (← r.settle) with held := some (.awaiting s) }

/-- Only one file can be named. -/
def name (r : Reader) (v : String) : Except Stop Reader :=
  if r.fileNamed then .error (.usage (.unexpectedArgument v))
  else do return { (← r.settle) with held := some (.file v), fileNamed := true }

/-- Letters after one dash: flags, and at most one option with its value. -/
def cluster (r : Reader) : List Char → Except Stop Reader
  | [] => .ok r
  | 'q' :: rest => do (← r.raise .quiet).cluster rest
  | 'v' :: rest => do (← r.raise .verbose).cluster rest
  | 'h' :: _ => r.raise .help
  | 'V' :: _ => r.raise .version
  | 's' :: rest => settingAt .start rest
  | 'i' :: rest => settingAt .input rest
  | c :: _ => .error (.usage (.unexpectedArgument (String.ofList ['-', c])))
where
  settingAt (s : Setting) : List Char → Except Stop Reader
    | [] => r.await s
    | '=' :: v => r.setAttached s (String.ofList v)
    | v => r.setAttached s (String.ofList v)

/-- A name after two dashes, and what followed the first `=` if there was one. -/
def long (r : Reader) (name : String) (attached : Option String) : Except Stop Reader :=
  let setting (s : Setting) := match attached with
    | some v => r.setAttached s v
    | none => r.await s
  let flag (f : Flag) := match attached with
    | some v => .error (.usage (.unexpectedValue v f))
    | none => r.raise f
  if name = "start" then setting .start
  else if name = "input" then setting .input
  else if name = "quiet" then flag .quiet
  else if name = "verbose" then flag .verbose
  else if name = "help" then flag .help
  else if name = "version" then flag .version
  else .error (.usage (.unexpectedArgument ("--" ++ name)))

def plainArgument (r : Reader) (v : String) : Except Stop Reader :=
  match r.held with
  | some (.awaiting s) => .ok { r with held := some (.value s v) }
  | _ => r.name v

def argument (r : Reader) (v : String) : Except Stop Reader :=
  if r.filesOnly then r.name v
  else match v.toList with
    | ['-', '-'] => .ok { r with filesOnly := true }
    | '-' :: '-' :: body =>
      let attached := (body.dropWhile (· != '=')).tail?
      r.long (String.ofList (body.takeWhile (· != '='))) (attached.map String.ofList)
    | '-' :: c :: rest => r.cluster (c :: rest)
    | _ => r.plainArgument v

def finish (r : Reader) : Except Stop Options := do
  let r ← r.settle
  match r.file with
  | none => .error (.usage .missingFile)
  | some file => .ok ⟨file, r.start, r.inputs, r.quiet, r.verbose⟩

end Reader

def Options.ofArguments (args : List String) : Except Stop Options := do
  (← args.foldlM Reader.argument Reader.fresh).finish

end LetterGrammar.Command
