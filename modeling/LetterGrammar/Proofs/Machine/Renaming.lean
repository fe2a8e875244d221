import Mathlib.Data.List.Basic
import Mathlib.Logic.Equiv.Basic
import LetterGrammar.Proofs.Machine.Forms
import LetterGrammar.Proofs.Search.Correspondence

/-! All letters are treated alike. What is compiled and what is searched depends on
which letters are the same and on nothing else about them: neither on their order
nor on how they are encoded. So an injective renaming of letters passes through
compilation, and a search goes the same way before and after it. -/

namespace LetterGrammar

attribute [ext] Table

variable {s : Char → Char}

def StackSymbol.rename (s : Char → Char) : StackSymbol → StackSymbol
  | bottom => bottom
  | letter c => letter (s c)

def Guard.rename (s : Char → Char) : Guard → Guard
  | lambda => lambda
  | letter c => letter (s c)

def Key.rename (s : Char → Char) (k : Key) : Key := ⟨k.state, k.guard.rename s, k.top.rename s⟩

def Outcome.rename (s : Char → Char) (o : Outcome) : Outcome :=
  ⟨o.state, o.push.map (StackSymbol.rename s)⟩

def Transition.rename (s : Char → Char) (r : Transition) : Transition :=
  ⟨r.key.rename s, r.outcomes.map (Outcome.rename s)⟩

def Table.rename (s : Char → Char) (t : Table) : Table where
  start := t.start.rename s
  inputAlphabet := t.inputAlphabet.map s
  nonterminals := t.nonterminals.map s
  transitions := t.transitions.map (Transition.rename s)

def Rule.rename (s : Char → Char) (r : Rule) : Rule :=
  ⟨s r.nonterminal, r.alternatives.map (List.map s)⟩

def Grammar.rename (s : Char → Char) (g : Grammar) : Grammar := ⟨g.rules.map (Rule.rename s)⟩

def Configuration.rename (s : Char → Char) (c : Configuration) : Configuration :=
  ⟨c.state, c.input.map s, c.stack.map (StackSymbol.rename s)⟩

def Recognizer.rename (s : Char → Char) (r : Recognizer) : Recognizer :=
  ⟨r.table.rename s, r.start.rename s, r.pruning⟩

/-- Repeats of images are images of repeats. -/
theorem eraseDups_map_of_injective (hs : Function.Injective s) (w : Word) :
    (w.map s).eraseDups = w.eraseDups.map s := by
  induction hn : w.length using Nat.strongRecOn generalizing w with
  | ind n ih =>
    cases w with
    | nil => rfl
    | cons c w =>
      have same : ((fun b => !b == s c) ∘ s) = fun b => !b == c := by
        funext b
        simp [hs.eq_iff]
      have shorter : (w.filter fun b => !b == c).length < n := by
        have := List.length_filter_le (fun b => !b == c) w
        rw [← hn, List.length_cons]
        omega
      rw [List.map_cons, List.eraseDups_cons, List.eraseDups_cons, List.filter_map, same,
        ih _ shorter _ rfl, List.map_cons]

theorem StackSymbol.rename_injective (hs : Function.Injective s) :
    Function.Injective (StackSymbol.rename s) := by
  intro a b h
  cases a <;> cases b <;> simp_all [rename, hs.eq_iff]

theorem Guard.admits_rename (hs : Function.Injective s) (g : Guard) (next : Char) :
    (g.rename s).admits (s next) = g.admits next := by
  cases g <;> simp [rename, admits, hs.eq_iff]

theorem Transition.applies_rename (hs : Function.Injective s) (r : Transition) (state : State)
    (next : Char) (top : StackSymbol) :
    (r.rename s).applies state (s next) (top.rename s) = r.applies state next top := by
  have tops : (r.key.top.rename s == top.rename s) = (r.key.top == top) := by
    simp [(StackSymbol.rename_injective hs).eq_iff]
  simp only [applies, rename, Key.rename, tops, Guard.admits_rename hs]

namespace Table

theorem find?_rename (hs : Function.Injective s) (t : Table) (state : State) (next : Char)
    (top : StackSymbol) :
    (t.rename s).find? state (s next) (top.rename s) =
      (t.find? state next top).map (Transition.rename s) := by
  have applies : (fun r : Transition => r.applies state (s next) (top.rename s)) ∘
      Transition.rename s = fun r => r.applies state next top :=
    funext fun r => Transition.applies_rename hs r state next top
  rw [find?, rename, List.find?_map, applies, find?]

theorem transition?_rename (hs : Function.Injective s) (t : Table) (c : Configuration) :
    (t.rename s).transition? (c.rename s) = (t.transition? c).map (Transition.rename s) := by
  obtain ⟨state, input, stack⟩ := c
  cases input <;> cases stack <;>
    simp [transition?, Configuration.rename, find?_rename hs]

end Table

namespace Configuration

theorem successor_rename (c : Configuration) (guard : Guard) (o : Outcome) :
    (c.rename s).successor (guard.rename s) (o.rename s) = (c.successor guard o).rename s := by
  cases guard <;>
    simp [successor, rename, Outcome.rename, Guard.rename, Guard.consumes, List.map_tail]

theorem accepting_rename (c : Configuration) : (c.rename s).accepting = c.accepting := by
  simp [accepting, rename]

theorem outgrowsInput_rename (c : Configuration) :
    (c.rename s).outgrowsInput = c.outgrowsInput := by
  simp [outgrowsInput, rename]

end Configuration

theorem Table.candidates_rename (hs : Function.Injective s) (t : Table) (c : Configuration) :
    (t.rename s).candidates (c.rename s) = (t.candidates c).map (Configuration.rename s) := by
  rw [candidates, candidates, transition?_rename hs]
  cases t.transition? c with
  | none => rfl
  | some r =>
    simp only [Option.map_some, Transition.rename, Key.rename, List.map_map]
    exact List.map_congr_left fun o _ => Configuration.successor_rename c r.key.guard o

theorem Table.stackAlphabet_rename (hs : Function.Injective s) (t : Table) :
    (t.rename s).stackAlphabet = t.stackAlphabet.map (StackSymbol.rename s) := by
  have letters : ((t.rename s).nonterminals ++ (t.rename s).inputAlphabet).eraseDups =
      (t.nonterminals ++ t.inputAlphabet).eraseDups.map s := by
    rw [← eraseDups_map_of_injective hs, List.map_append]
    rfl
  rw [stackAlphabet, letters, stackAlphabet, List.map_append, List.map_map, List.map_map]
  rfl

theorem Table.corresponds_rename (hs : Function.Injective s) (t : Table) :
    t.Corresponds (t.rename s) fun c c' => c.rename s = c' where
  accepting c _ h := h ▸ (Configuration.accepting_rename c).symm
  outgrowsInput c _ h := h ▸ (Configuration.outgrowsInput_rename c).symm
  candidates c c' h := by
    subst h
    rw [candidates_rename hs]
    exact List.forall₂_map_right_iff.mpr (List.forall₂_same.mpr fun _ _ => rfl)

theorem Recognizer.corresponds_rename (hs : Function.Injective s) (r : Recognizer) (w : Word) :
    r.Corresponds (r.rename s) (fun c c' => c.rename s = c') w (w.map s) :=
  ⟨Table.corresponds_rename hs r.table, rfl, rfl⟩

namespace Transition

theorem expansion_rename (r : Rule) : (expansion r).rename s = expansion (r.rename s) := by
  simp [expansion, rename, Rule.rename, Key.rename, Guard.rename, StackSymbol.rename,
    Outcome.rename, Word.pushOrder, Function.comp_def]

theorem terminalMatch_rename (c : Char) : (terminalMatch c).rename s = terminalMatch (s c) := rfl

theorem bottomPop_rename : bottomPop.rename s = bottomPop := rfl

end Transition

namespace Grammar

theorem start?_rename (g : Grammar) : (g.rename s).start? = g.start?.map s := by
  simp [start?, rename, Rule.rename, Function.comp_def]

theorem nonterminals_rename (g : Grammar) :
    (g.rename s).nonterminals = g.nonterminals.map s := by
  simp [nonterminals, rename, Rule.rename]

theorem letters_rename (g : Grammar) : (g.rename s).letters = g.letters.map s := by
  simp [letters, rename, Rule.rename, List.flatMap_map, List.map_flatMap, List.map_flatten]

theorem terminals_rename (hs : Function.Injective s) (g : Grammar) :
    (g.rename s).terminals = g.terminals.map s := by
  have settled : (fun c => !(g.nonterminals.map s).contains c) ∘ s =
      fun c => !g.nonterminals.contains c := by
    funext c
    have mem : s c ∈ g.nonterminals.map s ↔ c ∈ g.nonterminals := List.mem_map_of_injective hs
    rw [← List.contains_iff_mem, ← List.contains_iff_mem, ← Bool.eq_iff_iff] at mem
    rw [Function.comp_apply, mem]
  rw [terminals, letters_rename, nonterminals_rename, eraseDups_map_of_injective hs,
    List.filter_map, settled, terminals]

theorem transitions_rename (hs : Function.Injective s) (g : Grammar) :
    (g.rename s).compile.transitions = g.compile.transitions.map (Transition.rename s) := by
  have expansions : (g.rename s).rules.map Transition.expansion =
      (g.rules.map Transition.expansion).map (Transition.rename s) := by
    rw [rename, List.map_map, List.map_map]
    exact List.map_congr_left fun r _ => (Transition.expansion_rename r).symm
  have readings : (g.terminals.map s).map Transition.terminalMatch =
      (g.terminals.map Transition.terminalMatch).map (Transition.rename s) := by
    rw [List.map_map, List.map_map]
    exact List.map_congr_left fun c _ => (Transition.terminalMatch_rename c).symm
  simp only [compile, expansions, terminals_rename hs, readings, List.map_append, List.map_cons,
    List.map_nil, Transition.bottomPop_rename]

theorem compile_rename (hs : Function.Injective s) (g : Grammar) :
    (g.rename s).compile = g.compile.rename s := by
  have start : (g.rename s).compile.start = g.compile.start.rename s := by
    rw [compile, compile, start?_rename]
    cases g.start? <;> rfl
  have nonterminals : (g.rename s).compile.nonterminals = g.compile.nonterminals.map s := by
    rw [compile, compile, nonterminals_rename, eraseDups_map_of_injective hs]
  exact Table.ext start (terminals_rename hs g) nonterminals (transitions_rename hs g)

/-- Renamed by an injective map, a grammar is compiled to the renamed table, both
alphabets and the order of transitions included. The search of a renamed input on
it ends where the search of the input does, and its answers are the same, tally
included, with every configuration of the chain renamed. -/
theorem answers_rename_iff (hs : Function.Injective s) (g : Grammar) :
    (g.rename s).compile = g.compile.rename s ∧
    (g.rename s).compile.stackAlphabet = g.compile.stackAlphabet.map (StackSymbol.rename s) ∧
    ∀ (start : StackSymbol) (pruning : Bool) (w : Word),
      (((g.rename s).recognizer (start.rename s) pruning).Ends (w.map s) ↔
        (g.recognizer start pruning).Ends w) ∧
      ∀ v' tally, ((g.rename s).recognizer (start.rename s) pruning).Answers (w.map s) v' tally ↔
        ∃ v, (g.recognizer start pruning).Answers w v tally ∧
          v.map (Configuration.rename s) = v' := by
  have table := compile_rename hs g
  refine ⟨table, by rw [table, Table.stackAlphabet_rename hs], fun start pruning w => ?_⟩
  have same : (g.rename s).recognizer (start.rename s) pruning =
      (g.recognizer start pruning).rename s := by
    rw [recognizer, table]
    rfl
  have courses := Recognizer.corresponds_rename hs (g.recognizer start pruning) w
  rw [same]
  exact ⟨courses.ends_iff.symm, fun v' tally => courses.answers_iff fun _ _ h => h⟩

/-- A nonterminal and a letter of two bytes change places. -/
def swapped : Char → Char := Equiv.swap 'S' 'λ'

def streaks : Grammar := ⟨[⟨'S', [['λ', 'S'], ['μ']]⟩]⟩

def streaksChain : Chain :=
  [.ofForm ['λ', 'μ'] ['S'], .ofForm ['λ', 'μ'] ['λ', 'S'], .ofForm ['μ'] ['S'],
   .ofForm ['μ'] ['μ'], .ofForm [] []]

theorem streaks_rename :
    Function.Injective swapped ∧
      (streaks.recognizer (.letter 'S') true).Answers ['λ', 'μ'] (.accepted streaksChain)
        ⟨5, 1, 0⟩ ∧
      ((streaks.rename swapped).recognizer (.letter 'λ') true).Answers ['S', 'μ']
        (.accepted [.ofForm ['S', 'μ'] ['λ'], .ofForm ['S', 'μ'] ['S', 'λ'], .ofForm ['μ'] ['λ'],
          .ofForm ['μ'] ['μ'], .ofForm [] []]) ⟨5, 1, 0⟩ := by
  have hs : Function.Injective swapped := (Equiv.swap 'S' 'λ').injective
  have h : (streaks.recognizer (.letter 'S') true).Answers ['λ', 'μ'] (.accepted streaksChain)
      ⟨5, 1, 0⟩ := ⟨6, rfl⟩
  have answers := ((answers_rename_iff hs streaks).2.2 (.letter 'S') true ['λ', 'μ']).2
  exact ⟨hs, h, (answers _ _).mpr ⟨_, h, rfl⟩⟩

end Grammar

end LetterGrammar
