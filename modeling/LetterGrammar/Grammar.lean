/-! Words and grammars over single letters. Every Unicode scalar value is a letter;
the ones that head a rule are the nonterminals, the others stand for themselves. Rules
keep the order in which they were given, and a nonterminal may head several: the
list is data, and which rule counts is for its readers to say. -/

namespace LetterGrammar

abbrev Word := List Char

namespace Word

def ofString (s : String) : Word := s.toList

def text (w : Word) : String := String.ofList w

end Word

structure Rule where
  nonterminal : Char
  alternatives : List Word
deriving DecidableEq

structure Grammar where
  rules : List Rule
deriving DecidableEq

namespace Grammar

/-- The nonterminal of the first rule. -/
def start? (g : Grammar) : Option Char := g.rules.head?.map Rule.nonterminal

/-- One nonterminal per rule, repeats kept. -/
def nonterminals (g : Grammar) : List Char := g.rules.map Rule.nonterminal

/-- Every letter of every alternative, in reading order, repeats kept. -/
def letters (g : Grammar) : List Char := g.rules.flatMap fun r => r.alternatives.flatten

/-- The first rule that `n` heads. -/
def ruleFor? (g : Grammar) (n : Char) : Option Rule :=
  g.rules.find? (·.nonterminal == n)

theorem mem_letters {g : Grammar} {c : Char} :
    c ∈ g.letters ↔ ∃ r ∈ g.rules, ∃ w ∈ r.alternatives, c ∈ w := by
  simp [letters]

theorem nonterminal_of_ruleFor? {g : Grammar} {n : Char} {r : Rule}
    (h : g.ruleFor? n = some r) : r.nonterminal = n := by
  simpa using List.find?_some h

theorem mem_of_ruleFor? {g : Grammar} {n : Char} {r : Rule}
    (h : g.ruleFor? n = some r) : r ∈ g.rules := List.mem_of_find?_eq_some h

theorem ruleFor?_isSome_iff {g : Grammar} {n : Char} :
    (g.ruleFor? n).isSome ↔ n ∈ g.nonterminals := by
  simp [ruleFor?, nonterminals]

theorem mem_nonterminals_of_ruleFor? {g : Grammar} {n : Char} {r : Rule}
    (h : g.ruleFor? n = some r) : n ∈ g.nonterminals :=
  ruleFor?_isSome_iff.mp (Option.isSome_of_eq_some h)

end Grammar

end LetterGrammar
