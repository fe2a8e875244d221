import Mathlib.Logic.Relation
import LetterGrammar.Proofs.Search.Exploration

/-! The search misses nothing and invents nothing. On any table a verdict of
acceptance means that moves lead from the seed to an accepting configuration,
and a rejection means that none do. A search ends wherever no infinite run of
moves starts. -/

namespace LetterGrammar

namespace Table

def Reaches (t : Table) (pruning : Bool) : Configuration → Configuration → Prop :=
  Relation.ReflTransGen (t.Moves pruning)

/-- Some run of moves ends in acceptance. -/
def CanAccept (t : Table) (pruning : Bool) (c : Configuration) : Prop :=
  ∃ d, t.Reaches pruning c d ∧ d.accepting = true

theorem canAccept_of_accepting {t : Table} {pruning : Bool} {c : Configuration}
    (h : c.accepting = true) : t.CanAccept pruning c := ⟨c, .refl, h⟩

theorem CanAccept.of_move {t : Table} {pruning : Bool} {c d : Configuration}
    (hd : t.CanAccept pruning d) (move : t.Moves pruning c d) : t.CanAccept pruning c := by
  obtain ⟨e, reaches, he⟩ := hd
  exact ⟨e, .head move reaches, he⟩

/-- An unfinished configuration accepts through one of its candidates. -/
theorem canAccept_iff_candidate {t : Table} {pruning : Bool} {c : Configuration}
    (unfinished : c.accepting = false) :
    t.CanAccept pruning c ↔
      ∃ d ∈ t.candidates c, (pruning && d.outgrowsInput) = false ∧ t.CanAccept pruning d := by
  constructor
  · intro h
    obtain ⟨e, reaches, he⟩ := h
    rcases reaches.cases_head with rfl | ⟨d, move, reaches⟩
    · rw [he] at unfinished; cases unfinished
    · obtain ⟨hd, kept⟩ := moves_iff_mem_candidates.mp move
      exact ⟨d, hd, kept, e, reaches, he⟩
  · intro h
    obtain ⟨d, hd, kept, accepts⟩ := h
    exact accepts.of_move (moves_iff_mem_candidates.mpr ⟨hd, kept⟩)

/-- What an exploration finds is there, and where it finds nothing there is
nothing. -/
theorem Explores.found_iff {t : Table} {pruning : Bool} {ds : List Configuration}
    {found : Option Chain} {tally : Tally} (h : t.Explores pruning ds found tally) :
    found.isSome = true ↔
      ∃ d ∈ ds, (pruning && d.outgrowsInput) = false ∧ t.CanAccept pruning d := by
  induction h with
  | exhausted => simp
  | prune hopeless _ ih =>
    simp only [ih, List.mem_cons, exists_eq_or_imp, hopeless, Bool.true_eq_false, false_and,
      false_or]
  | accept kept accepting =>
    simp only [Option.isSome_some, true_iff]
    exact ⟨_, List.mem_cons_self, kept, canAccept_of_accepting accepting⟩
  | enter kept unfinished _ ih =>
    simp only [Option.isSome_some, true_iff] at ih ⊢
    exact ⟨_, List.mem_cons_self, kept, (canAccept_iff_candidate unfinished).mpr ih⟩
  | backtrack kept unfinished _ _ ihInner ihLater =>
    rw [← canAccept_iff_candidate unfinished] at ihInner
    have stuck : ¬ t.CanAccept pruning _ := fun accepts => by simpa using ihInner.mpr accepts
    simp only [ihLater, List.mem_cons, exists_eq_or_imp, stuck, and_false, false_or]

theorem Explores.found_iff_canAccept {t : Table} {pruning : Bool} {c : Configuration}
    {found : Option Chain} {tally : Tally} (unfinished : c.accepting = false)
    (h : t.Explores pruning (t.candidates c) found tally) :
    found.isSome = true ↔ t.CanAccept pruning c :=
  h.found_iff.trans (canAccept_iff_candidate unfinished).symm

theorem Explores.not_canAccept {t : Table} {pruning : Bool} {c : Configuration} {tally : Tally}
    (unfinished : c.accepting = false) (h : t.Explores pruning (t.candidates c) none tally) :
    ¬ t.CanAccept pruning c := by
  simp [← h.found_iff_canAccept unfinished]

/-- Configurations in a row are explored to an end if each that is kept is. -/
theorem explores_of_each {t : Table} {pruning : Bool} (ds : List Configuration)
    (h : ∀ d ∈ ds, (pruning && d.outgrowsInput) = false →
      ∃ found tally, t.Explores pruning (t.candidates d) found tally) :
    ∃ found tally, t.Explores pruning ds found tally := by
  induction ds with
  | nil => exact ⟨none, .zero, .exhausted⟩
  | cons d ds ih =>
    obtain ⟨found, after, later⟩ := ih fun d hd => h d (List.mem_cons_of_mem _ hd)
    cases kept : pruning && d.outgrowsInput with
    | true => exact ⟨_, _, .prune kept later⟩
    | false =>
      cases accepting : d.accepting with
      | true => exact ⟨_, _, .accept kept accepting⟩
      | false =>
        obtain ⟨chain | chain, inside, inner⟩ := h d List.mem_cons_self kept
        · exact ⟨_, _, .backtrack kept accepting inner later⟩
        · exact ⟨_, _, .enter kept accepting inner⟩

theorem explores_of_acc {t : Table} {pruning : Bool} {c : Configuration}
    (h : Acc (fun d c => t.Moves pruning c d) c) :
    ∃ found tally, t.Explores pruning (t.candidates c) found tally := by
  induction h with
  | intro c _ ih =>
    exact explores_of_each _ fun d hd kept => ih d (moves_iff_mem_candidates.mpr ⟨hd, kept⟩)

end Table

namespace Recognizer

theorem accepting_seed (input : Word) (s : StackSymbol) :
    (Configuration.seed input s).accepting = false := by
  simp [Configuration.seed, Configuration.accepting]

theorem isAccepted_iff_canAccept {r : Recognizer} {input : Word} {v : Verdict} {tally : Tally}
    (h : r.Answers input v tally) :
    v.isAccepted = true ↔ r.table.CanAccept r.pruning (.seed input r.start) := by
  obtain ⟨found, explores, rfl⟩ := answers_iff_explores.mp h
  rw [isAccepted_verdict]
  exact explores.found_iff_canAccept (accepting_seed input r.start)

/-- On any table, a verdict is acceptance exactly if moves lead from the seed to
a configuration that has read its input and emptied its stack. -/
theorem isAccepted_iff_reaches {r : Recognizer} {input : Word} {v : Verdict} {tally : Tally}
    (h : r.Answers input v tally) :
    v.isAccepted = true ↔
      ∃ d, r.table.Reaches r.pruning (.seed input r.start) d ∧ d.input = [] ∧ d.stack = [] := by
  rw [isAccepted_iff_canAccept h]
  simp only [Table.CanAccept, Configuration.accepting_iff]

/-- Two states, and a first choice that leads nowhere. -/
def twoStates : Recognizer where
  start := .letter 'S'
  pruning := true
  table := {
    start := .letter 'S', inputAlphabet := ['a', 'b'], nonterminals := ['S']
    transitions := [
      ⟨⟨⟨0⟩, .lambda, .letter 'S'⟩, [⟨⟨1⟩, []⟩, ⟨⟨1⟩, [.bottom, .letter 'a']⟩]⟩,
      ⟨⟨⟨1⟩, .letter 'a', .letter 'a'⟩, [⟨⟨0⟩, []⟩]⟩,
      ⟨⟨⟨0⟩, .letter 'b', .bottom⟩, [⟨⟨0⟩, []⟩]⟩] }

theorem twoStates_reaches :
    twoStates.Answers ['a', 'b']
        (.accepted [⟨⟨0⟩, ['a', 'b'], [.letter 'S']⟩, ⟨⟨1⟩, ['a', 'b'], [.letter 'a', .bottom]⟩,
          ⟨⟨0⟩, ['b'], [.bottom]⟩, ⟨⟨0⟩, [], []⟩]) ⟨4, 0, 1⟩ ∧
      ∃ d, twoStates.table.Reaches true (.seed ['a', 'b'] (.letter 'S')) d ∧
        d.input = [] ∧ d.stack = [] := by
  have h : twoStates.Answers ['a', 'b'] _ _ := ⟨5, rfl⟩
  exact ⟨h, (isAccepted_iff_reaches h).mp rfl⟩

theorem ends_of_acc {r : Recognizer} {input : Word}
    (h : Acc (fun d c => r.table.Moves r.pruning c d) (.seed input r.start)) : r.Ends input :=
  ends_iff_explores.mpr (Table.explores_of_acc h)

end Recognizer

end LetterGrammar
