import LetterGrammar.Grammar
import LetterGrammar.Machine.Table

/-! Snapshots of a running machine, and how one leads to the next. The stack is
kept top first; its written form, like every other stack that is written out,
goes bottom first. -/

namespace LetterGrammar

structure Configuration where
  state : State
  /-- What is still to be read. -/
  input : Word
  /-- The top comes first. -/
  stack : List StackSymbol
deriving DecidableEq

namespace Configuration

def seed (input : Word) (start : StackSymbol) : Configuration := ⟨.initial, input, [start]⟩

def top? (c : Configuration) : Option StackSymbol := c.stack.head?

def bottomFirst (c : Configuration) : List StackSymbol := c.stack.reverse

/-- Takes one choice of a transition: the top is popped, the choice is laid
down, and a guard that consumes takes one letter. -/
def successor (c : Configuration) (guard : Guard) (o : Outcome) : Configuration where
  state := o.state
  input := if guard.consumes then c.input.tail else c.input
  stack := o.push.reverse ++ c.stack.tail

def accepting (c : Configuration) : Bool := c.input.isEmpty && c.stack.isEmpty

/-- The stack is taller than the rest of the input. Where every symbol costs a
letter to get rid of, it cannot become empty in time. -/
def outgrowsInput (c : Configuration) : Bool := decide (c.input.length < c.stack.length)

theorem accepting_iff {c : Configuration} :
    c.accepting = true ↔ c.input = [] ∧ c.stack = [] := by
  simp [accepting]

/-- What pruning keeps can become empty in time. -/
theorem length_le_of_kept {c : Configuration} {pruning : Bool} (pruned : pruning = true)
    (kept : (pruning && c.outgrowsInput) = false) : c.stack.length ≤ c.input.length := by
  rw [pruned, Bool.true_and] at kept
  exact Nat.le_of_not_lt (of_decide_eq_false kept)

theorem bottomFirst_successor {c : Configuration} {guard : Guard} {o : Outcome} :
    (c.successor guard o).bottomFirst = c.bottomFirst.dropLast ++ o.push := by
  cases h : c.stack <;> simp [bottomFirst, successor, h]

def text (c : Configuration) : String :=
  let rest := if c.input.isEmpty then "lambda" else c.input.text
  "(" ++ c.state.text ++ ", " ++ rest ++ ", h0" ++ StackSymbol.texts c.bottomFirst ++ ")"

end Configuration

/-- The transition that applies to a configuration. Nothing applies once the
input or the stack has run out. -/
def Table.transition? (t : Table) (c : Configuration) : Option Transition :=
  match c.input, c.stack with
  | next :: _, top :: _ => t.find? c.state next top
  | _, _ => none

theorem Table.transition?_eq_some {t : Table} {c : Configuration} {r : Transition} :
    t.transition? c = some r ↔
      ∃ next rest top below, c.input = next :: rest ∧ c.stack = top :: below ∧
        t.find? c.state next top = some r := by
  cases hi : c.input <;> cases hs : c.stack <;> simp [transition?, hi, hs]

/-- What a machine may do, apart from the order in which a search tries it. A
move takes any choice of the transition that applies; where pruning is on, it
may not lead to a configuration that outgrows its input. -/
def Table.Moves (t : Table) (pruning : Bool) (c d : Configuration) : Prop :=
  ∃ r, t.transition? c = some r ∧
    ∃ o ∈ r.outcomes, d = c.successor r.key.guard o ∧ (pruning && d.outgrowsInput) = false

theorem Table.not_moves_of_accepting {t : Table} {pruning : Bool} {c d : Configuration}
    (h : c.accepting = true) : ¬ t.Moves pruning c d := by
  rintro ⟨r, hr, _⟩
  obtain ⟨next, rest, _, _, hi, _⟩ := transition?_eq_some.mp hr
  simp [(Configuration.accepting_iff.mp h).1] at hi

/-- A run of configurations, the first one first. -/
abbrev Chain := List Configuration

/-- Every configuration, then the end mark of an emptied machine. -/
def Chain.text (chain : Chain) : String :=
  String.join (chain.map fun c => c.text ++ " ⊢ ") ++ "(" ++ State.initial.text ++ ", lambda, lambda)"

end LetterGrammar
