import LetterGrammar.Source.RuleLine

/-! What can go wrong with the source of a grammar, where it went wrong, and
how that is told. The place is a line of a file, and the name of the file counts
as a path. -/

namespace LetterGrammar

/-- The kinds of failure of a file or a stream. -/
inductive ReadFault where
  | notFound
  | permissionDenied
  | notADirectory
  | isADirectory
  | invalidData
  | unexpectedEnd
  | other
deriving DecidableEq

def ReadFault.text : ReadFault → String
  | notFound => "entity not found"
  | permissionDenied => "permission denied"
  | notADirectory => "not a directory"
  | isADirectory => "is a directory"
  | invalidData => "invalid data"
  | unexpectedEnd => "unexpected end of file"
  | other => "other error"

structure ReadError where
  fault : ReadFault
  text : String

namespace ReadError

/-- Told by its kind alone. -/
def ofFault (f : ReadFault) : ReadError := ⟨f, f.text⟩

def noSuchFile : ReadError := ⟨.notFound, "No such file or directory (os error 2)"⟩

def notADirectory : ReadError := ⟨.notADirectory, "Not a directory (os error 20)"⟩

def isADirectory : ReadError := ⟨.isADirectory, "Is a directory (os error 21)"⟩

def notUnicode : ReadError := ⟨.invalidData, "stream did not contain valid UTF-8"⟩

/-- Two failures count as the same when they are of one kind. -/
def same (a b : ReadError) : Bool := a.fault == b.fault

end ReadError

inductive Cause where
  | malformedRule (defect : RuleDefect)
  | unreadableSource (error : ReadError)

namespace Cause

def text : Cause → String
  | malformedRule d => "Malformed rule: " ++ d.text
  | unreadableSource e => "Could not read grammar: " ++ e.text

def same : Cause → Cause → Bool
  | malformedRule a, malformedRule b => a == b
  | unreadableSource a, unreadableSource b => a.same b
  | _, _ => false

end Cause

namespace Path

inductive Part where
  | root
  /-- A `.` that a relative path begins with. -/
  | here
  | parent
  | name (s : List Char)
deriving DecidableEq

/-- What stands between slashes; a path that begins with one has an empty
first piece. -/
def pieces (path : String) : List (List Char) := path.toList.splitOn '/'

/-- The part that a piece adds, unless it adds none. -/
def part? (piece : List Char) : Option Part :=
  if piece = [] ∨ piece = ['.'] then none
  else if piece = ['.', '.'] then some .parent
  else some (.name piece)

/-- Two names that differ only in repeated or trailing slashes, or in a `.` after
the beginning, have the same parts. -/
def parts (path : String) : List Part :=
  let first : List Part :=
    if path.toList.head? = some '/' then [.root]
    else if (pieces path).head? = some ['.'] then [.here]
    else []
  first ++ (pieces path).filterMap part?

def same (a b : String) : Bool := parts a == parts b

theorem same_iff {a b : String} : same a b = true ↔ parts a = parts b := by simp [same]

end Path

structure Location where
  file : String
  /-- Counted from 1; 0 stands for the source as a whole. -/
  line : Nat

namespace Location

def whole (file : String) : Location := ⟨file, 0⟩

def text (l : Location) : String :=
  if l.line = 0 then l.file else l.file ++ ":" ++ toString l.line

def same (a b : Location) : Bool := Path.same a.file b.file && a.line == b.line

end Location

structure SourceError where
  location : Location
  cause : Cause

namespace SourceError

/-- The location stands out in red, as terminals show it. -/
def text (e : SourceError) : String :=
  "\x1b[31;49;1m[" ++ e.location.text ++ "]\x1b[39;49;1m  " ++ e.cause.text ++ "\x1b[0m"

def same (a b : SourceError) : Bool := a.location.same b.location && a.cause.same b.cause

end SourceError

end LetterGrammar
