import LetterGrammar.Grammar
import LetterGrammar.Machine.Table

/-! From a grammar to a machine with one state. A nonterminal on top is
replaced by an alternative without touching the input, a terminal on top is
matched against the input, and the bottom marker is popped. -/

namespace LetterGrammar

/-- A stack is written bottom first, so a word is laid down back to front and
its first letter ends on top. -/
def Word.pushOrder (w : Word) : List StackSymbol := w.reverse.map .letter

namespace Transition

/-- The choices of one rule. -/
def expansion (r : Rule) : Transition where
  key := ⟨.initial, .lambda, .letter r.nonterminal⟩
  outcomes := r.alternatives.map fun w => ⟨.initial, Word.pushOrder w⟩

def terminalMatch (c : Char) : Transition := ⟨⟨.initial, .letter c, .letter c⟩, [⟨.initial, []⟩]⟩

def bottomPop : Transition := ⟨⟨.initial, .lambda, .bottom⟩, [⟨.initial, []⟩]⟩

end Transition

namespace Grammar

/-- The letters that no rule is headed by, each once, in reading order. -/
def terminals (g : Grammar) : List Char :=
  g.letters.eraseDups.filter fun c => !g.nonterminals.contains c

def compile (g : Grammar) : Table where
  start := (g.start?.map .letter).getD .bottom
  inputAlphabet := g.terminals
  nonterminals := g.nonterminals.eraseDups
  transitions :=
    g.rules.map .expansion ++ g.terminals.map .terminalMatch ++ [.bottomPop]

theorem mem_terminals {g : Grammar} {c : Char} :
    c ∈ g.terminals ↔ c ∈ g.letters ∧ c ∉ g.nonterminals := by
  simp [terminals, List.mem_eraseDups]

theorem mem_transitions {g : Grammar} {t : Transition} :
    t ∈ g.compile.transitions ↔
      (∃ r ∈ g.rules, t = .expansion r) ∨ (∃ c ∈ g.terminals, t = .terminalMatch c) ∨
        t = .bottomPop := by
  simp [compile, eq_comm]

end Grammar

end LetterGrammar
