import LetterGrammar.Source.Reading

/-! Files kept in memory, around the folder that relative paths start from.
Opening one follows a path piece by piece: each piece needs a folder to stand
in, an empty piece and `.` stay where they are, and `..` goes up. -/

namespace LetterGrammar

inductive Entry where
  | file (content : List UInt8)
  | folder
deriving DecidableEq

namespace Folder

/-- Where something is, the innermost piece first. Below the starting folder
these are names alone; further out, `..` for each step up; an absolute place
ends in an empty piece. -/
abbrev Place := List (List Char)

def parent : List Char := ['.', '.']

/-- The place that a path starts from. -/
def origin (path : String) : Place := if path.toList.head? = some '/' then [[]] else []

/-- One step up. Above the outermost folder of all there is only itself. -/
def up : Place → Place
  | [] => [parent]
  | [] :: above => [] :: above
  | piece :: above => if piece = parent then parent :: piece :: above else above

/-- Follows one piece of a path, whatever there is. -/
def step (place : Place) (piece : List Char) : Place :=
  if piece = [] ∨ piece = ['.'] then place
  else if piece = parent then up place
  else piece :: place

/-- The steps of a path, each with the place that it leads to. -/
def stations (place : Place) : List (List Char) → List Place
  | [] => []
  | piece :: rest => step place piece :: stations (step place piece) rest

/-- All of the place's outer pieces are steps up, or it is the outermost. -/
def isOutside (place : Place) : Bool := place.all fun piece => piece == parent || piece.isEmpty

end Folder

/-- Entries at their places. Later ones come first, and hide earlier ones. -/
structure Folder where
  entries : List (Folder.Place × Entry)

namespace Folder

def empty : Folder := ⟨[]⟩

def find? (f : Folder) (place : Place) : Option Entry :=
  if isOutside place then some .folder else f.entries.lookup place

/-- Makes a folder of a place where nothing is. -/
def ensure (f : Folder) (place : Place) : Folder :=
  match f.find? place with
  | some _ => f
  | none => ⟨(place, .folder) :: f.entries⟩

/-- Puts an entry at the end of a path, with all folders on the way. -/
def add (f : Folder) (path : String) (e : Entry) : Folder :=
  let way := stations (origin path) (Path.pieces path)
  let prepared := way.dropLast.foldl ensure f
  match e with
  | .folder => way.foldl ensure f
  | .file _ => ⟨(way.getLast?.getD [], e) :: prepared.entries⟩

/-- Follows a path from a place and what is there. -/
def follow (f : Folder) (place : Place) (e : Entry) :
    List (List Char) → Except ReadError Entry
  | [] => .ok e
  | piece :: rest =>
    match e with
    | .file _ => .error .notADirectory
    | .folder =>
      match f.find? (step place piece) with
      | none => .error .noSuchFile
      | some next => follow f (step place piece) next rest

/-- An empty path leads nowhere. Folders can be opened, but not read. -/
def openFile (f : Folder) (path : String) : Opened :=
  if path.isEmpty then .refused .noSuchFile
  else match f.follow (origin path) .folder (Path.pieces path) with
    | .error e => .refused e
    | .ok .folder => .unreadable .isADirectory
    | .ok (.file content) => .bytes content

end Folder

end LetterGrammar
