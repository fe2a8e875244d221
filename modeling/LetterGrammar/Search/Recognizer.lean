import LetterGrammar.Machine.Compile
import LetterGrammar.Search.Progress

/-! A recognizer asks of a word whether a table's machine, started on one
symbol, can read all of it and empty its stack. -/

namespace LetterGrammar

inductive Verdict where
  /-- The chain runs from the seed to the accepting configuration. -/
  | accepted (chain : Chain)
  | rejected
deriving DecidableEq

namespace Verdict

def isAccepted : Verdict → Bool
  | accepted _ => true
  | rejected => false

def chain? : Verdict → Option Chain
  | accepted chain => some chain
  | rejected => none

end Verdict

structure Recognizer where
  table : Table
  start : StackSymbol
  /-- Whether configurations that outgrow their input are dropped unseen. -/
  pruning : Bool

namespace Recognizer

def ofTable (t : Table) : Recognizer := ⟨t, t.start, true⟩

def withStart (r : Recognizer) (s : StackSymbol) : Recognizer := { r with start := s }

/-- A search without pruning ends only where no symbol can expand for ever. -/
def withoutPruning (r : Recognizer) : Recognizer := { r with pruning := false }

/-- The verdict on a word and the work it took; `none` where a path would need
more than `depth` steps. -/
def searchWithin (r : Recognizer) (depth : Nat) (input : Word) : Option (Verdict × Tally) :=
  (Progress.extend r.table r.pruning depth (.start (.seed input r.start))).map fun
    | (true, p) => (.accepted p.chain, p.tally)
    | (false, p) => (.rejected, p.tally)

/-- Deeper than any path that fits into a computer's memory. -/
def depthLimit : Nat := 281474976710656

def search (r : Recognizer) (input : Word) : Option (Verdict × Tally) :=
  r.searchWithin depthLimit input

/-- Some depth suffices for a verdict. -/
def Ends (r : Recognizer) (input : Word) : Prop :=
  ∃ depth, (r.searchWithin depth input).isSome

end Recognizer

end LetterGrammar
