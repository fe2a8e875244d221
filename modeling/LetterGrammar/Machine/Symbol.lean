/-! The alphabet of a pushdown machine: control states, what a transition asks
of the input, and what lies on the stack, each with its written form. -/

namespace LetterGrammar

structure State where
  number : UInt32
deriving DecidableEq

/-- What a transition asks of the next input letter. -/
inductive Guard where
  /-- Nothing is asked and nothing is consumed. -/
  | lambda
  | letter (c : Char)
deriving DecidableEq

inductive StackSymbol where
  /-- The marker that is left when there is no grammar to start from. -/
  | bottom
  | letter (c : Char)
deriving DecidableEq

namespace State

def initial : State := ⟨0⟩

def text (s : State) : String := "s" ++ toString s.number.toNat

end State

namespace Guard

def admits (next : Char) : Guard → Bool
  | lambda => true
  | letter c => c == next

def consumes : Guard → Bool
  | lambda => false
  | letter _ => true

def text : Guard → String
  | lambda => "lambda"
  | letter c => c.toString

theorem admits_iff {g : Guard} {next : Char} :
    g.admits next = true ↔ g = .lambda ∨ g = .letter next := by
  cases g <;> simp [admits]

end Guard

namespace StackSymbol

def letter? : StackSymbol → Option Char
  | bottom => none
  | letter c => some c

def text : StackSymbol → String
  | bottom => "h0"
  | letter c => c.toString

/-- The symbols written side by side. -/
def texts (symbols : List StackSymbol) : String := String.join (symbols.map text)

end StackSymbol

end LetterGrammar
