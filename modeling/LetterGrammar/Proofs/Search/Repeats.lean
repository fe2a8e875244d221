import LetterGrammar.Proofs.Search.Exhaustive
import LetterGrammar.Proofs.Search.Reordering

/-! A choice that is offered twice is tried twice, and the second time in vain: had
there been something to find, it would have been found the first time. So a repeat costs
work and nothing else. Without it a search ends where it ended before, with the same
verdict and the same chain, and no count of its tally is higher. -/

namespace LetterGrammar

/-- The second list is the first without some of its repeats. What is left out stands
among those `seen` or earlier in the list. -/
inductive Thins {α : Type} : List α → List α → List α → Prop where
  | nil {seen : List α} : Thins seen [] []
  | keep {seen l l' : List α} {a : α} (rest : Thins (a :: seen) l l') :
      Thins seen (a :: l) (a :: l')
  | skip {seen l l' : List α} {a : α} (again : a ∈ seen) (rest : Thins seen l l') :
      Thins seen (a :: l) l'

namespace Thins

variable {α : Type} {seen l l' : List α}

theorem refl (seen l : List α) : Thins seen l l := by
  induction l generalizing seen with
  | nil => exact .nil
  | cons a l ih => exact .keep (ih (a :: seen))

theorem append_left (before : List α) (h : Thins (before.reverse ++ seen) l l') :
    Thins seen (before ++ l) (before ++ l') := by
  induction before generalizing seen with
  | nil => exact h
  | cons a before ih =>
    rw [List.reverse_cons, List.append_assoc] at h
    exact .keep (ih h)

theorem map {β : Type} (f : α → β) (h : Thins seen l l') :
    Thins (seen.map f) (l.map f) (l'.map f) := by
  induction h with
  | nil => exact .nil
  | keep _ ih => exact .keep ih
  | skip again _ ih => exact .skip (List.mem_map_of_mem again) ih

theorem mem_seen (h : Thins seen l []) : ∀ a ∈ l, a ∈ seen := by
  generalize none : ([] : List α) = l' at h
  induction h with
  | nil => simp
  | keep _ _ => cases none
  | skip again _ ih => exact List.forall_mem_cons.mpr ⟨again, ih none⟩

/-- Repeats of what has been seen come before the first that is kept. -/
theorem exists_skipped {a : α} (h : Thins seen l (a :: l')) :
    ∃ skipped rest, l = skipped ++ a :: rest ∧ (∀ b ∈ skipped, b ∈ seen) ∧
      Thins (a :: seen) rest l' := by
  generalize kept : a :: l' = k at h
  induction h with
  | nil => cases kept
  | keep rest _ =>
    cases kept
    exact ⟨[], _, rfl, by simp, rest⟩
  | @skip _ _ _ b again _ ih =>
    obtain ⟨skipped, rest, rfl, known, thins⟩ := ih kept
    exact ⟨b :: skipped, rest, rfl, List.forall_mem_cons.mpr ⟨again, known⟩, thins⟩

end Thins

/-- No count is higher. -/
structure Tally.AtMost (a b : Tally) : Prop where
  configurations : a.configurations ≤ b.configurations
  pruned : a.pruned ≤ b.pruned
  backtracks : a.backtracks ≤ b.backtracks

namespace Tally.AtMost

theorem refl (a : Tally) : a.AtMost a := ⟨Nat.le_refl _, Nat.le_refl _, Nat.le_refl _⟩

theorem add {a b c d : Tally} (h : a.AtMost b) (h' : c.AtMost d) : (a + c).AtMost (b + d) :=
  ⟨Nat.add_le_add h.1 h'.1, Nat.add_le_add h.2 h'.2, Nat.add_le_add h.3 h'.3⟩

theorem add_left {a b : Tally} (h : a.AtMost b) (c : Tally) : a.AtMost (c + b) :=
  ⟨Nat.le_add_left_of_le h.1, Nat.le_add_left_of_le h.2, Nat.le_add_left_of_le h.3⟩

end Tally.AtMost

/-- The same transition without some of the repeats among its outcomes. -/
structure Transition.Thins (r r' : Transition) : Prop where
  key : r.key = r'.key
  outcomes : LetterGrammar.Thins [] r.outcomes r'.outcomes

namespace Table

variable {t t' : Table} {pruning : Bool}

/-- The same transitions in the same places, without some of the repeats in each. -/
def Thins (t t' : Table) : Prop := List.Forall₂ Transition.Thins t.transitions t'.transitions

theorem Thins.candidates (h : t.Thins t') (c : Configuration) :
    LetterGrammar.Thins [] (t.candidates c) (t'.candidates c) := by
  have found := transition?_rel (fun _ _ => Transition.Thins.key) h c
  unfold Table.candidates
  generalize t.transition? c = r, t'.transition? c = r' at found
  cases found with
  | none => exact .nil
  | some same =>
    simp only [same.key]
    exact same.outcomes.map _

/-- These have been tried, and nothing came of it. -/
def Wasted (t : Table) (pruning : Bool) (ds : List Configuration) : Prop :=
  ∀ d ∈ ds, ∃ share, t.Wastes pruning d share

theorem wasted_nil : t.Wasted pruning [] := List.forall_mem_nil _

theorem Wasted.mono {ds ds' : List Configuration} (h : t.Wasted pruning ds)
    (known : ∀ d ∈ ds', d ∈ ds) : t.Wasted pruning ds' := fun d hd => h d (known d hd)

theorem Wasted.cons {d : Configuration} {ds : List Configuration} {share : Tally}
    (h : t.Wasted pruning ds) (wastes : t.Wastes pruning d share) : t.Wasted pruning (d :: ds) :=
  List.forall_mem_cons.mpr ⟨⟨share, wastes⟩, h⟩

theorem Wastes.not_canAccept {d : Configuration} {share : Tally} (h : t.Wastes pruning d share)
    (kept : (pruning && d.outgrowsInput) = false) : ¬ t.CanAccept pruning d := by
  cases h with
  | prune hopeless =>
    rw [kept] at hopeless
    cases hopeless
  | backtrack _ unfinished inner => exact inner.not_canAccept unfinished

/-- What has been tried in vain may be tried once more. -/
theorem Explores.after_wasted {skipped ds : List Configuration} {found : Option Chain}
    {tally : Tally} (h : t.Explores pruning ds found tally) (wasted : t.Wasted pruning skipped) :
    ∃ tally', t.Explores pruning (skipped ++ ds) found tally' := by
  induction skipped with
  | nil => exact ⟨tally, h⟩
  | cons d skipped ih =>
    obtain ⟨⟨share, wastes⟩, wasted⟩ := List.forall_mem_cons.mp wasted
    obtain ⟨rest, later⟩ := ih wasted
    exact ⟨share + rest, wastes.explores later⟩

/-- Without repeats an exploration finds the same, for no more work. -/
theorem Explores.thin (thins : t.Thins t') {ds ds' seen : List Configuration}
    {found : Option Chain} {tally : Tally} (h : t.Explores pruning ds found tally)
    (hds : LetterGrammar.Thins seen ds ds') (wasted : t.Wasted pruning seen) :
    ∃ tally', t'.Explores pruning ds' found tally' ∧ tally'.AtMost tally := by
  induction h generalizing seen ds' with
  | exhausted =>
    cases hds
    exact ⟨_, .exhausted, .refl _⟩
  | prune hopeless _ ih =>
    cases hds with
    | keep rest =>
      obtain ⟨_, later', le⟩ := ih rest (wasted.cons (.prune hopeless))
      exact ⟨_, .prune hopeless later', .add (.refl _) le⟩
    | skip _ rest =>
      obtain ⟨_, later', le⟩ := ih rest wasted
      exact ⟨_, later', le.add_left _⟩
  | accept kept accepting =>
    cases hds with
    | keep _ => exact ⟨_, .accept kept accepting, .refl _⟩
    | skip again _ =>
      obtain ⟨_, wastes⟩ := wasted _ again
      exact absurd (canAccept_of_accepting accepting) (wastes.not_canAccept kept)
  | enter kept unfinished inner ih =>
    cases hds with
    | keep _ =>
      obtain ⟨_, inner', le⟩ := ih (thins.candidates _) wasted_nil
      exact ⟨_, .enter kept unfinished inner', .add (.refl _) le⟩
    | skip again _ =>
      obtain ⟨_, wastes⟩ := wasted _ again
      have accepts := (inner.found_iff_canAccept unfinished).mp rfl
      exact absurd accepts (wastes.not_canAccept kept)
  | backtrack kept unfinished inner _ ihInner ihLater =>
    cases hds with
    | keep rest =>
      obtain ⟨_, inner', leInside⟩ := ihInner (thins.candidates _) wasted_nil
      obtain ⟨_, later', leAfter⟩ := ihLater rest (wasted.cons (.backtrack kept unfinished inner))
      exact ⟨_, .backtrack kept unfinished inner' later', .add (.refl _) (.add leInside leAfter)⟩
    | skip _ rest =>
      obtain ⟨_, later', le⟩ := ihLater rest wasted
      exact ⟨_, later', (le.add_left _).add_left _⟩

/-- With repeats an exploration ends all the same. What is tried once more has been tried
to an end before. -/
theorem Explores.thicken (thins : t.Thins t') {ds ds' seen : List Configuration}
    {found : Option Chain} {tally' : Tally} (h : t'.Explores pruning ds' found tally')
    (hds : LetterGrammar.Thins seen ds ds') (wasted : t.Wasted pruning seen) :
    ∃ tally, t.Explores pruning ds found tally := by
  induction h generalizing seen ds with
  | exhausted =>
    simpa using Explores.exhausted.after_wasted (wasted.mono hds.mem_seen)
  | prune hopeless _ ih =>
    obtain ⟨skipped, rest, rfl, known, hrest⟩ := hds.exists_skipped
    obtain ⟨_, later⟩ := ih hrest (wasted.cons (.prune hopeless))
    exact (Explores.prune hopeless later).after_wasted (wasted.mono known)
  | accept kept accepting =>
    obtain ⟨skipped, rest, rfl, known, _⟩ := hds.exists_skipped
    exact (Explores.accept kept accepting).after_wasted (wasted.mono known)
  | enter kept unfinished _ ih =>
    obtain ⟨skipped, rest, rfl, known, _⟩ := hds.exists_skipped
    obtain ⟨_, inner⟩ := ih (thins.candidates _) wasted_nil
    exact (Explores.enter kept unfinished inner).after_wasted (wasted.mono known)
  | backtrack kept unfinished _ _ ihInner ihLater =>
    obtain ⟨skipped, rest, rfl, known, hrest⟩ := hds.exists_skipped
    obtain ⟨_, inner⟩ := ihInner (thins.candidates _) wasted_nil
    obtain ⟨_, later⟩ := ihLater hrest (wasted.cons (.backtrack kept unfinished inner))
    exact (Explores.backtrack kept unfinished inner later).after_wasted (wasted.mono known)

end Table

/-- Of two equal outcomes the later one is left out. -/
inductive Transition.LosesRepeat : Transition → Transition → Prop where
  | drop (key : Key) (before between after : List Outcome) (o : Outcome) :
      LosesRepeat ⟨key, before ++ o :: between ++ o :: after⟩ ⟨key, before ++ o :: between ++ after⟩

/-- One transition loses a repeat, and all else stays as it is. -/
inductive Table.LosesRepeat : Table → Table → Prop where
  | inside (t : Table) (before after : List Transition) {r r' : Transition}
      (loses : r.LosesRepeat r') :
      LosesRepeat { t with transitions := before ++ r :: after }
        { t with transitions := before ++ r' :: after }

theorem Transition.LosesRepeat.thins {r r' : Transition} (h : r.LosesRepeat r') : r.Thins r' := by
  cases h with
  | drop key before between after o =>
    exact ⟨rfl, .append_left (before ++ o :: between) (.skip (by simp) (.refl _ _))⟩

theorem Table.LosesRepeat.thins {t t' : Table} (h : t.LosesRepeat t') : t.Thins t' := by
  have same (rs : List Transition) : List.Forall₂ Transition.Thins rs rs :=
    List.forall₂_same.mpr fun r _ => ⟨rfl, .refl _ _⟩
  cases h with
  | inside t before after loses =>
    exact List.rel_append (same before) (.cons loses.thins (same after))

namespace Recognizer

theorem ends_iff_of_thins {t t' : Table} (thins : t.Thins t') (start : StackSymbol)
    (pruning : Bool) (w : Word) :
    (mk t start pruning).Ends w ↔ (mk t' start pruning).Ends w := by
  rw [ends_iff_explores, ends_iff_explores]
  constructor
  · intro ended
    obtain ⟨found, tally, explores⟩ := ended
    obtain ⟨tally', explores', _⟩ := explores.thin thins (thins.candidates _) Table.wasted_nil
    exact ⟨found, tally', explores'⟩
  · intro ended
    obtain ⟨found, tally', explores'⟩ := ended
    obtain ⟨tally, explores⟩ := explores'.thicken thins (thins.candidates _) Table.wasted_nil
    exact ⟨found, tally, explores⟩

theorem Answers.thin {t t' : Table} (thins : t.Thins t') {start : StackSymbol} {pruning : Bool}
    {w : Word} {v : Verdict} {tally : Tally} (h : (mk t start pruning).Answers w v tally) :
    ∃ tally', (mk t' start pruning).Answers w v tally' ∧ tally'.AtMost tally := by
  obtain ⟨found, explores, rfl⟩ := answers_iff_explores.mp h
  obtain ⟨tally', explores', le⟩ :=
    explores.thin thins (thins.candidates _) Table.wasted_nil
  exact ⟨tally', answers_iff_explores.mpr ⟨found, explores', rfl⟩, le⟩

/-- Where a transition offers an outcome twice, the later one can go: searches end where
they ended, with the same verdict, chain included, and no count is higher. -/
theorem answers_of_losesRepeat {t t' : Table} (h : t.LosesRepeat t') (start : StackSymbol)
    (pruning : Bool) (w : Word) :
    ((mk t start pruning).Ends w ↔ (mk t' start pruning).Ends w) ∧
      ∀ v v' tally tally', (mk t start pruning).Answers w v tally →
        (mk t' start pruning).Answers w v' tally' → v = v' ∧ tally'.AtMost tally := by
  refine ⟨ends_iff_of_thins h.thins start pruning w, ?_⟩
  intro v v' tally tally' answers answers'
  obtain ⟨_, answers'', le⟩ := answers.thin h.thins
  obtain ⟨rfl, rfl⟩ := answers'.unique answers''
  exact ⟨rfl, le⟩

/-- Rows of one letter, with a choice that leads nowhere and is offered twice. -/
def stammer : Table where
  start := .letter 'S'
  inputAlphabet := ['a', 'b']
  nonterminals := ['S', 'A']
  transitions := [
    ⟨⟨⟨0⟩, .lambda, .letter 'S'⟩, [⟨⟨0⟩, [.letter 'A']⟩, ⟨⟨0⟩, [.letter 'S', .letter 'a']⟩,
      ⟨⟨0⟩, [.letter 'A']⟩, ⟨⟨0⟩, [.letter 'a']⟩]⟩,
    ⟨⟨⟨0⟩, .lambda, .letter 'A'⟩, [⟨⟨0⟩, [.letter 'b']⟩]⟩,
    ⟨⟨⟨0⟩, .letter 'a', .letter 'a'⟩, [⟨⟨0⟩, []⟩]⟩]

def fluent : Table where
  start := .letter 'S'
  inputAlphabet := ['a', 'b']
  nonterminals := ['S', 'A']
  transitions := [
    ⟨⟨⟨0⟩, .lambda, .letter 'S'⟩, [⟨⟨0⟩, [.letter 'A']⟩, ⟨⟨0⟩, [.letter 'S', .letter 'a']⟩,
      ⟨⟨0⟩, [.letter 'a']⟩]⟩,
    ⟨⟨⟨0⟩, .lambda, .letter 'A'⟩, [⟨⟨0⟩, [.letter 'b']⟩]⟩,
    ⟨⟨⟨0⟩, .letter 'a', .letter 'a'⟩, [⟨⟨0⟩, []⟩]⟩]

def rowChain : Chain :=
  [.seed ['a', 'a'] (.letter 'S'), ⟨⟨0⟩, ['a', 'a'], [.letter 'a', .letter 'S']⟩,
    ⟨⟨0⟩, ['a'], [.letter 'S']⟩, ⟨⟨0⟩, ['a'], [.letter 'a']⟩, ⟨⟨0⟩, [], []⟩]

theorem stammer_answers :
    stammer.LosesRepeat fluent ∧
      (mk stammer (.letter 'S') true).Answers ['a', 'a'] (.accepted rowChain) ⟨11, 1, 6⟩ ∧
      (mk fluent (.letter 'S') true).Ends ['a', 'a'] ∧
      ∀ v tally, (mk fluent (.letter 'S') true).Answers ['a', 'a'] v tally →
        v = .accepted rowChain ∧ tally.AtMost ⟨11, 1, 6⟩ := by
  have loses : stammer.LosesRepeat fluent :=
    .inside stammer [] _ (.drop _ [] [⟨⟨0⟩, [.letter 'S', .letter 'a']⟩] [⟨⟨0⟩, [.letter 'a']⟩] _)
  have answers : (mk stammer (.letter 'S') true).Answers ['a', 'a'] (.accepted rowChain)
      ⟨11, 1, 6⟩ := ⟨6, rfl⟩
  obtain ⟨ends_iff, same⟩ := answers_of_losesRepeat loses (.letter 'S') true ['a', 'a']
  have ended : (mk stammer (.letter 'S') true).Ends ['a', 'a'] := ⟨6, rfl⟩
  refine ⟨loses, answers, ends_iff.mp ended, fun v tally answers' => ?_⟩
  obtain ⟨verdict, le⟩ := same _ _ _ _ answers answers'
  exact ⟨verdict.symm, le⟩

end Recognizer

end LetterGrammar
