import LetterGrammar.Grammar.Derivation
import LetterGrammar.Proofs.Machine.Forms
import LetterGrammar.Proofs.Search.Exhaustive

/-! The language that a recognizer decides. Where no alternative is empty, the
machine of a grammar can accept from a form exactly if the form spells the rest
of the input in terminals, and whether hopeless configurations are cut makes no
difference to that. -/

namespace LetterGrammar.Grammar

variable {g : Grammar} {pruning : Bool}

theorem moves_ofForm {unread form unread' form' : Word}
    (step : g.FormStep unread form unread' form') (fits : form'.length ≤ unread'.length) :
    g.compile.Moves pruning (.ofForm unread form) (.ofForm unread' form') := by
  refine Table.moves_iff_mem_candidates.mpr ⟨mem_candidates_ofForm.mpr ⟨_, _, step, rfl⟩, ?_⟩
  have : (Configuration.ofForm unread' form').outgrowsInput = false :=
    Bool.eq_false_iff.mpr fun h => by
      rw [Configuration.outgrowsInput_ofForm] at h
      omega
  rw [this, Bool.and_false]

theorem spells_of_reaches {c d : Configuration} (reaches : g.compile.Reaches pruning c d)
    (accepting : d.accepting = true) {unread form : Word} (hc : c = .ofForm unread form) :
    (∀ a ∈ unread, a ∈ g.terminals) ∧ g.Spells form unread := by
  induction reaches using Relation.ReflTransGen.head_induction_on generalizing unread form with
  | refl =>
    rw [hc] at accepting
    obtain ⟨rfl, rfl⟩ := Configuration.accepting_ofForm.mp accepting
    exact ⟨by simp, .nil⟩
  | head move _ ih =>
    subst hc
    obtain ⟨hd, _⟩ := Table.moves_iff_mem_candidates.mp move
    obtain ⟨_, _, step, hd⟩ := mem_candidates_ofForm.mp hd
    obtain ⟨known, spells⟩ := ih hd
    cases step with
    | choose _ rule choice => exact ⟨known, .choose rule choice spells⟩
    | read terminal =>
      exact ⟨by simpa using ⟨terminal, known⟩, .letter (mem_terminals.mp terminal).2 spells⟩

theorem canAccept_of_spells (hg : g.Epsilonless) {unread form : Word}
    (spells : g.Spells form unread) (known : ∀ a ∈ unread, a ∈ g.terminals) :
    g.compile.CanAccept pruning (.ofForm unread form) := by
  induction spells with
  | nil => exact Table.canAccept_of_accepting rfl
  | letter _ rest ih =>
    obtain ⟨terminal, known⟩ := List.forall_mem_cons.mp known
    exact (ih known).of_move (moves_ofForm (.read terminal) (rest.length_le hg))
  | choose rule choice rest ih =>
    have more := (Spells.choose rule choice rest).length_le hg
    have unfinished : _ ≠ [] := List.length_pos_iff.mp (Nat.lt_of_lt_of_le (Nat.succ_pos _) more)
    exact (ih known).of_move (moves_ofForm (.choose unfinished rule choice) (rest.length_le hg))

theorem canAccept_ofForm_iff (hg : g.Epsilonless) {unread form : Word} :
    g.compile.CanAccept pruning (.ofForm unread form) ↔
      (∀ a ∈ unread, a ∈ g.terminals) ∧ g.Spells form unread := by
  constructor
  · intro h
    obtain ⟨d, reaches, accepting⟩ := h
    exact spells_of_reaches reaches accepting rfl
  · intro h
    obtain ⟨known, spells⟩ := h
    exact canAccept_of_spells hg spells known

/-- A machine that starts on the bottom marker pops it and is stuck. -/
theorem explores_seed_bottom (g : Grammar) (pruning : Bool) (input : Word) :
    ∃ tally, g.compile.Explores pruning (g.compile.candidates (.seed input .bottom)) none tally := by
  cases input with
  | nil => exact ⟨.zero, .exhausted⟩
  | cons next unread =>
    rw [candidates_seed_bottom]
    have kept : (pruning && (Configuration.ofForm (next :: unread) []).outgrowsInput) = false := by
      simp [Configuration.ofForm, Configuration.outgrowsInput]
    exact ⟨_, .backtrack kept rfl .exhausted .exhausted⟩

theorem ends_from_bottom (g : Grammar) (pruning : Bool) (input : Word) :
    (g.recognizer .bottom pruning).Ends input := by
  obtain ⟨tally, explores⟩ := explores_seed_bottom g pruning input
  exact Recognizer.ends_iff_explores.mpr ⟨none, tally, explores⟩

theorem rejected_from_bottom {input : Word} {v : Verdict} {tally : Tally}
    (h : (g.recognizer .bottom pruning).Answers input v tally) : v = .rejected := by
  obtain ⟨tally', explores⟩ := explores_seed_bottom g pruning input
  have rejects : (g.recognizer .bottom pruning).Answers input .rejected tally' :=
    Recognizer.answers_iff_explores.mpr ⟨none, explores, rfl⟩
  exact (h.unique rejects).1

theorem spells_iff_derives_of_terminals {form word : Word} (known : ∀ a ∈ word, a ∈ g.terminals) :
    g.Spells form word ↔ g.Derives form word := by
  have settled : ∀ a ∈ word, a ∉ g.nonterminals := fun a ha => (mem_terminals.mp (known a ha)).2
  rw [spells_iff_derives, and_iff_right settled]

/-- The recognizer of a grammar without empty alternatives decides the words
over its input alphabet that its start letter derives. From the bottom marker
it rejects every word. -/
theorem isAccepted_iff_derives (hg : g.Epsilonless) (pruning : Bool) (w : Word) :
    (∀ c v tally, (g.recognizer (.letter c) pruning).Answers w v tally →
      (v.isAccepted = true ↔ (∀ a ∈ w, a ∈ g.compile.inputAlphabet) ∧ g.Derives [c] w)) ∧
    (g.recognizer .bottom pruning).Ends w ∧
      ∀ v tally, (g.recognizer .bottom pruning).Answers w v tally → v = .rejected := by
  refine ⟨?_, ends_from_bottom g pruning w, ?_⟩
  · intro c v tally h
    have accepts : v.isAccepted = true ↔ g.compile.CanAccept pruning (.ofForm w [c]) :=
      Recognizer.isAccepted_iff_canAccept h
    rw [accepts, canAccept_ofForm_iff hg]
    exact and_congr_right spells_iff_derives_of_terminals
  · intro v tally h
    exact rejected_from_bottom h

/-- Sums of one letter, with a rule that recurs on its left and a later rule
that takes no part. -/
def sums : Grammar :=
  ⟨[⟨'E', [['E', '+', 'T'], ['T']]⟩, ⟨'T', [['x']]⟩, ⟨'T', [['y']]⟩]⟩

theorem sums_derives :
    sums.Epsilonless ∧
      (∃ v tally, (sums.recognizer (.letter 'E') true).Answers ['x', '+', 'x'] v tally ∧
        v.isAccepted = true) ∧
      sums.Derives ['E'] ['x', '+', 'x'] := by
  have hg : sums.Epsilonless := by unfold Epsilonless; decide
  have h : (sums.recognizer (.letter 'E') true).Answers ['x', '+', 'x'] _ _ := ⟨9, rfl⟩
  exact ⟨hg, ⟨_, _, h, rfl⟩, ((isAccepted_iff_derives hg true _).1 _ _ _ h).mp rfl |>.2⟩

end LetterGrammar.Grammar
