import LetterGrammar.Machine.Symbol

/-! Transitions of a pushdown machine, and the table of all of them. A key says when
a transition applies; its outcomes are the choices it then offers, in the order they
are tried. Look-up takes the first transition that applies, so the order of the list
is part of the machine's meaning. -/

namespace LetterGrammar

structure Key where
  state : State
  guard : Guard
  top : StackSymbol
deriving DecidableEq

/-- One choice: the popped top gives way to `push`, written bottom first, so
that its last symbol becomes the new top. -/
structure Outcome where
  state : State
  push : List StackSymbol
deriving DecidableEq

structure Transition where
  key : Key
  outcomes : List Outcome
deriving DecidableEq

def Outcome.text (o : Outcome) : String :=
  let pushed := if o.push.isEmpty then "lambda" else StackSymbol.texts o.push
  "(" ++ o.state.text ++ ", " ++ pushed ++ ")"

namespace Transition

def applies (t : Transition) (state : State) (next : Char) (top : StackSymbol) : Bool :=
  t.key.state == state && t.key.top == top && t.key.guard.admits next

theorem applies_iff {t : Transition} {state : State} {next : Char} {top : StackSymbol} :
    t.applies state next top = true ↔
      t.key.state = state ∧ t.key.top = top ∧
        (t.key.guard = .lambda ∨ t.key.guard = .letter next) := by
  simp [applies, Guard.admits_iff, and_assoc]

def text (t : Transition) : String :=
  "f(" ++ t.key.state.text ++ ", " ++ t.key.guard.text ++ ", " ++ t.key.top.text ++ ") = \x7b"
    ++ String.intercalate "; " (t.outcomes.map Outcome.text) ++ "\x7d"

end Transition

structure Table where
  /-- The symbol that a fresh stack holds. -/
  start : StackSymbol
  inputAlphabet : List Char
  nonterminals : List Char
  transitions : List Transition
deriving DecidableEq

namespace Table

/-- Nonterminals, then terminals, each once, then the bottom marker. -/
def stackAlphabet (t : Table) : List StackSymbol :=
  (t.nonterminals ++ t.inputAlphabet).eraseDups.map .letter ++ [.bottom]

def find? (t : Table) (state : State) (next : Char) (top : StackSymbol) : Option Transition :=
  t.transitions.find? (·.applies state next top)

/-- Where in the list `find?` found its answer. -/
def position? (t : Table) (state : State) (next : Char) (top : StackSymbol) : Option Nat :=
  t.transitions.findIdx? (·.applies state next top)

theorem position?_eq_some {t : Table} {state : State} {next : Char} {top : StackSymbol} {i : Nat}
    (h : t.position? state next top = some i) : t.find? state next top = t.transitions[i]? := by
  obtain ⟨hi, hp, hb⟩ := List.findIdx?_eq_some_iff_getElem.mp h
  rw [List.getElem?_eq_getElem hi]
  exact List.find?_eq_some_iff_getElem.mpr ⟨hp, i, hi, rfl, fun j hj => by simpa using hb j hj⟩

/-- Both alphabets and every transition, a line each. -/
def text (t : Table) : String :=
  let braced (items : List String) := "\x7b " ++ String.intercalate ", " items ++ " \x7d"
  "Input alphabet:\nP = " ++ braced (t.inputAlphabet.map Char.toString) ++ "\n\n"
    ++ "Stack alphabet:\nZ = " ++ braced (t.stackAlphabet.map StackSymbol.text) ++ "\n\n"
    ++ "Transitions:\n" ++ String.join (t.transitions.map fun r => r.text ++ "\n")

end Table

end LetterGrammar
