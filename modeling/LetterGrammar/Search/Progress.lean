import LetterGrammar.Machine.Configuration

/-! Depth-first search for an accepting run. The search carries the path it is
on and a tally of its work; it extends the path by each choice in turn and
takes the choice back when it leads nowhere. A search need not end, so it is
given a depth, and answers `none` where the path would grow beyond it. -/

namespace LetterGrammar

/-- How much work a search took. -/
structure Tally where
  /-- Choices laid onto the path, pruned ones included. -/
  configurations : Nat
  pruned : Nat
  backtracks : Nat
deriving DecidableEq

namespace Tally

def zero : Tally := ⟨0, 0, 0⟩

def text (t : Tally) : String :=
  toString t.configurations ++ " configurations, " ++ toString t.pruned ++ " pruned, "
    ++ toString t.backtracks ++ " backtracks"

end Tally

structure Progress where
  /-- The newest configuration comes first. -/
  path : List Configuration
  tally : Tally

namespace Progress

def start (c : Configuration) : Progress := ⟨[c], .zero⟩

/-- The path from its first configuration on. -/
def chain (p : Progress) : Chain := p.path.reverse

def push (p : Progress) (c : Configuration) : Progress :=
  ⟨c :: p.path, ⟨p.tally.configurations + 1, p.tally.pruned, p.tally.backtracks⟩⟩

/-- Drops the newest configuration as hopeless. -/
def prune (p : Progress) : Progress :=
  ⟨p.path.tail, ⟨p.tally.configurations, p.tally.pruned + 1, p.tally.backtracks⟩⟩

/-- Drops the newest configuration after all that follows it has failed. -/
def backtrack (p : Progress) : Progress :=
  ⟨p.path.tail, ⟨p.tally.configurations, p.tally.pruned, p.tally.backtracks + 1⟩⟩

/-- Tries choices in order, each with `explore` for what comes after it, until
one reaches acceptance. -/
def tryEach (explore : Progress → Option (Bool × Progress)) (pruning : Bool) (guard : Guard)
    (c : Configuration) : List Outcome → Progress → Option (Bool × Progress)
  | [], p => some (false, p)
  | o :: os, p =>
    let next := c.successor guard o
    let tried := p.push next
    if pruning && next.outgrowsInput then tryEach explore pruning guard c os tried.prune
    else if next.accepting then some (true, tried)
    else match explore tried with
      | none => none
      | some (true, found) => some (true, found)
      | some (false, left) => tryEach explore pruning guard c os left.backtrack

/-- Extends the path to an accepting configuration, by at most `depth` steps. -/
def extend (table : Table) (pruning : Bool) : Nat → Progress → Option (Bool × Progress)
  | 0, _ => none
  | depth + 1, p =>
    match p.path with
    | [] => some (false, p)
    | c :: _ =>
      match table.transition? c with
      | none => some (false, p)
      | some t => tryEach (extend table pruning depth) pruning t.key.guard c t.outcomes p

end Progress

end LetterGrammar
