import Mathlib.Data.List.Chain
import LetterGrammar.Grammar.Derivation
import LetterGrammar.Proofs.Machine.Forms
import LetterGrammar.Proofs.Search.FirstRun

/-! The derivation that an accepted chain shows. What has been read of the word,
followed by what lies on the stack, is a form of the grammar. Reading a letter
moves it from the stack to the part that has been read and leaves the form as it
is; choosing an alternative replaces the leftmost nonterminal, for what has been
read holds terminals only. So the forms of an accepted chain are a leftmost
derivation of the word from the start letter. -/

namespace LetterGrammar

namespace Configuration

/-- What has been read of the word `w` once the input is what is left. -/
def consumed (w : Word) (c : Configuration) : Word := w.take (w.length - c.input.length)

/-- The letters on the stack, the top first. -/
def letters (c : Configuration) : Word := c.stack.filterMap StackSymbol.letter?

/-- What has been read of the word `w`, then the stack from the top on. -/
def form (w : Word) (c : Configuration) : Word := c.consumed w ++ c.letters

/-- A form leaves nothing out: what has been read and the input are the word, and
on the stack are letters only. -/
structure Shows (w : Word) (c : Configuration) : Prop where
  reading : c.consumed w ++ c.input = w
  lettered : c.letters.map .letter = c.stack

theorem consumed_ofForm (read unread form : Word) :
    (ofForm unread form).consumed (read ++ unread) = read := by
  simp [consumed, ofForm]

theorem letters_ofForm (unread form : Word) : (ofForm unread form).letters = form := by
  rw [letters, ofForm, List.filterMap_map]
  exact List.filterMap_some

theorem form_ofForm (read unread form : Word) :
    (ofForm unread form).form (read ++ unread) = read ++ form := by
  rw [Configuration.form, consumed_ofForm, letters_ofForm]

theorem shows_ofForm (read unread form : Word) :
    (ofForm unread form).Shows (read ++ unread) where
  reading := by rw [consumed_ofForm]; rfl
  lettered := by rw [letters_ofForm]; rfl

end Configuration

namespace Grammar

variable {g : Grammar} {pruning : Bool}

/-- How the form changes from one configuration to the next. -/
inductive LeftmostLink (g : Grammar) (w : Word) (c d : Configuration) : Prop where
  /-- A terminal on top is read, and the form stays as it is. -/
  | read (a : Char) (terminal : a ∈ g.terminals) (input : c.input = a :: d.input)
      (stack : c.stack = .letter a :: d.stack) (unchanged : d.form w = c.form w)
  /-- The leftmost nonterminal of the form is replaced, and nothing is read. -/
  | choose (unread : d.input = c.input) (replaced : g.ProducesLeftmost (c.form w) (d.form w))

theorem FormStep.leftmostLink {read unread form unread' form' : Word}
    (settled : ∀ a ∈ read, a ∉ g.nonterminals) (step : g.FormStep unread form unread' form') :
    ∃ read', read ++ unread = read' ++ unread' ∧ (∀ a ∈ read', a ∉ g.nonterminals) ∧
      g.LeftmostLink (read ++ unread) (.ofForm unread form) (.ofForm unread' form') := by
  cases step with
  | @choose _ form w n r _ rule choice =>
    refine ⟨read, rfl, settled, .choose rfl ?_⟩
    rw [Configuration.form_ofForm, Configuration.form_ofForm, ← List.append_assoc]
    exact .replace read form settled rule choice
  | @read _ _ a terminal =>
    have split : read ++ a :: unread' = (read ++ [a]) ++ unread' := by simp
    refine ⟨read ++ [a], split, ?_, .read a terminal rfl rfl ?_⟩
    · intro b hb
      rcases List.mem_append.mp hb with hb | hb
      · exact settled b hb
      · obtain rfl := List.mem_singleton.mp hb
        exact (mem_terminals.mp terminal).2
    · rw [Configuration.form_ofForm, split, Configuration.form_ofForm, List.append_assoc]
      rfl

/-- A run of the machine from a form, after terminals have been read, is the
rest of a leftmost derivation of the word. -/
theorem leftmost_of_run {c : Configuration} {ks : List Nat} {chain : Chain}
    (run : g.compile.Run pruning c ks chain) {w read unread form : Word} (hw : w = read ++ unread)
    (settled : ∀ a ∈ read, a ∉ g.nonterminals) (hc : c = .ofForm unread form) :
    (chain.map (Configuration.form w)).getLast? = some w ∧ (∀ d ∈ chain, d.Shows w) ∧
      chain.IsChain (g.LeftmostLink w) := by
  induction run generalizing read unread form with
  | done accepting =>
    subst hc hw
    obtain ⟨rfl, rfl⟩ := Configuration.accepting_ofForm.mp accepting
    refine ⟨?_, ?_, .singleton _⟩
    · rw [List.map_singleton, List.getLast?_singleton, Configuration.form_ofForm]
    · intro d hd
      obtain rfl := List.mem_singleton.mp hd
      exact Configuration.shows_ofForm read [] []
  | @step c d k ks chain choice _ rest ih =>
    subst hc
    obtain ⟨unread', form', step, rfl⟩ := mem_candidates_ofForm.mp (List.mem_of_getElem? choice)
    obtain ⟨read', split, settled', link⟩ := step.leftmostLink settled
    obtain ⟨last, shows, links⟩ := ih (hw.trans split) settled' rfl
    rw [← hw] at link
    refine ⟨?_, ?_, List.isChain_cons.mpr ⟨?_, links⟩⟩
    · rw [List.map_cons, List.getLast?_cons, last]
      rfl
    · intro e he
      rcases List.mem_cons.mp he with rfl | he
      · exact hw ▸ Configuration.shows_ofForm read unread form
      · exact shows e he
    · intro e he
      obtain rfl := Option.some.inj (rest.head?.symm.trans he)
      exact link

/-- The forms of an accepted chain lead from the start letter to the word. Each
link reads a terminal and leaves the form as it is, or replaces the leftmost
nonterminal of the form by an alternative of its first rule. -/
theorem leftmost_of_accepted {c : Char} {w : Word} {chain : Chain} {tally : Tally}
    (h : (g.recognizer (.letter c) pruning).Answers w (.accepted chain) tally) :
    (chain.map (Configuration.form w)).head? = some [c] ∧
      (chain.map (Configuration.form w)).getLast? = some w ∧
      (∀ d ∈ chain, d.Shows w) ∧ chain.IsChain (g.LeftmostLink w) := by
  obtain ⟨ks, first⟩ := h.firstRun
  have run : g.compile.Run pruning (.ofForm w [c]) ks chain := first.run
  have begins : (chain.map (Configuration.form w)).head? = some [c] := by
    rw [List.head?_map, run.head?]
    exact congrArg some (Configuration.form_ofForm [] w [c])
  have unread : ∀ a ∈ ([] : Word), a ∉ g.nonterminals := by simp
  exact ⟨begins, leftmost_of_run run (List.nil_append w).symm unread rfl⟩

/-- A nonterminal that stands for nothing where it is last tried. -/
def vanishing : Grammar := ⟨[⟨'S', [['A', 'a', 'A', 'b']]⟩, ⟨'A', [['a', 'b'], []]⟩]⟩

def vanishingChain : Chain :=
  [.ofForm ['a', 'b'] ['S'], .ofForm ['a', 'b'] ['A', 'a', 'A', 'b'],
   .ofForm ['a', 'b'] ['a', 'A', 'b'], .ofForm ['b'] ['A', 'b'], .ofForm ['b'] ['b'], .ofForm [] []]

theorem vanishing_leftmost :
    (vanishing.recognizer (.letter 'S') false).Answers ['a', 'b'] (.accepted vanishingChain)
        ⟨9, 0, 4⟩ ∧
      (vanishingChain.map (Configuration.form ['a', 'b'])).head? = some ['S'] ∧
      (vanishingChain.map (Configuration.form ['a', 'b'])).getLast? = some ['a', 'b'] ∧
      (∀ d ∈ vanishingChain, d.Shows ['a', 'b']) ∧
      vanishingChain.IsChain (vanishing.LeftmostLink ['a', 'b']) := by
  have h : (vanishing.recognizer (.letter 'S') false).Answers ['a', 'b']
      (.accepted vanishingChain) ⟨9, 0, 4⟩ := ⟨12, rfl⟩
  exact ⟨h, leftmost_of_accepted h⟩

end Grammar

end LetterGrammar
