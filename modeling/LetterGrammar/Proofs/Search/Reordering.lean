import Mathlib.Data.List.Forall2
import LetterGrammar.Proofs.Search.Exploration

/-! What the order of choices decides, and what it does not. A search that rejects
has tried everything there was to try, and its tally is a sum with one share for
each configuration on the way. Both are the same in every order, so a rejection
stays a rejection, with the same tally, when choices change their places. Where
there is something to find, the order decides only what is found, and whether the
search comes to it. -/

namespace LetterGrammar

/-- The same transition with its outcomes in some order. -/
structure Transition.Reorders (r r' : Transition) : Prop where
  key : r.key = r'.key
  outcomes : r.outcomes.Perm r'.outcomes

/-- The same transitions in the same places, but for the order of their outcomes. -/
def Table.Reorders (t t' : Table) : Prop :=
  List.Forall₂ Transition.Reorders t.transitions t'.transitions

theorem Transition.Reorders.symm {r r' : Transition} (h : r.Reorders r') : r'.Reorders r :=
  ⟨h.key.symm, h.outcomes.symm⟩

theorem Tally.add_left_comm (a b c : Tally) : a + (b + c) = b + (a + c) := by
  ext <;> simp only [configurations_add, pruned_add, backtracks_add] <;> omega

namespace Table

variable {t t' : Table} {pruning : Bool}

theorem Reorders.symm (h : t.Reorders t') : t'.Reorders t :=
  List.Forall₂.flip (h.imp fun _ _ => Transition.Reorders.symm)

/-- Keys decide what is found. -/
theorem find?_rel {R : Transition → Transition → Prop} (sameKey : ∀ r r', R r r' → r.key = r'.key)
    (related : List.Forall₂ R t.transitions t'.transitions) (state : State) (next : Char)
    (top : StackSymbol) : Option.Rel R (t.find? state next top) (t'.find? state next top) := by
  unfold Table.find?
  generalize t.transitions = rs, t'.transitions = rs' at related
  induction related with
  | nil => exact .none
  | @cons r r' rs rs' same _ ih =>
    have applies : r.applies state next top = r'.applies state next top := by
      rw [Transition.applies, Transition.applies, sameKey r r' same]
    rw [List.find?_cons, List.find?_cons, ← applies]
    cases r.applies state next top with
    | true => exact .some same
    | false => exact ih

theorem transition?_rel {R : Transition → Transition → Prop}
    (sameKey : ∀ r r', R r r' → r.key = r'.key)
    (related : List.Forall₂ R t.transitions t'.transitions) (c : Configuration) :
    Option.Rel R (t.transition? c) (t'.transition? c) := by
  unfold transition?
  split
  · exact find?_rel sameKey related _ _ _
  · exact .none

theorem Reorders.candidates (h : t.Reorders t') (c : Configuration) :
    (t.candidates c).Perm (t'.candidates c) := by
  have found := transition?_rel (fun _ _ => Transition.Reorders.key) h c
  unfold Table.candidates
  generalize t.transition? c = r, t'.transition? c = r' at found
  cases found with
  | none => exact .refl _
  | some same =>
    simp only [same.key]
    exact same.outcomes.map _

/-- The work of trying a configuration in vain. It is cut, or all that may follow
it is tried in vain. -/
inductive Wastes (t : Table) (pruning : Bool) (d : Configuration) : Tally → Prop where
  | prune (hopeless : (pruning && d.outgrowsInput) = true) : Wastes t pruning d ⟨1, 1, 0⟩
  | backtrack {inside : Tally} (kept : (pruning && d.outgrowsInput) = false)
      (unfinished : d.accepting = false)
      (inner : t.Explores pruning (t.candidates d) none inside) :
      Wastes t pruning d (⟨1, 0, 1⟩ + inside)

/-- After what is tried in vain, all else goes on as it would. -/
theorem Wastes.explores {d : Configuration} {ds : List Configuration} {found : Option Chain}
    {share rest : Tally} (h : t.Wastes pruning d share) (later : t.Explores pruning ds found rest) :
    t.Explores pruning (d :: ds) found (share + rest) := by
  cases h with
  | prune hopeless => exact .prune hopeless later
  | backtrack kept unfinished inner =>
    rw [Tally.add_assoc]
    exact .backtrack kept unfinished inner later

/-- Nothing is found among configurations where each is tried in vain, and each has
its share in the work. -/
theorem explores_cons_none_iff {d : Configuration} {ds : List Configuration} {tally : Tally} :
    t.Explores pruning (d :: ds) none tally ↔
      ∃ share rest, t.Wastes pruning d share ∧ t.Explores pruning ds none rest ∧
        tally = share + rest := by
  constructor
  · intro h
    cases h with
    | prune hopeless later => exact ⟨_, _, .prune hopeless, later, rfl⟩
    | backtrack kept unfinished inner later =>
      exact ⟨_, _, .backtrack kept unfinished inner, later, (Tally.add_assoc _ _ _).symm⟩
  · intro h
    obtain ⟨share, rest, wasted, later, rfl⟩ := h
    exact wasted.explores later

/-- A vain exploration may be made in any order. -/
theorem Explores.perm {ds ds' : List Configuration} (order : ds.Perm ds') {tally : Tally}
    (h : t.Explores pruning ds none tally) : t.Explores pruning ds' none tally := by
  induction order generalizing tally with
  | nil => exact h
  | cons d _ ih =>
    obtain ⟨share, rest, wasted, later, rfl⟩ := explores_cons_none_iff.mp h
    exact explores_cons_none_iff.mpr ⟨share, rest, wasted, ih later, rfl⟩
  | swap d e ds =>
    obtain ⟨share, _, wasted, later, rfl⟩ := explores_cons_none_iff.mp h
    obtain ⟨share', rest, wasted', last, rfl⟩ := explores_cons_none_iff.mp later
    have swapped : t.Explores pruning (e :: ds) none (share + rest) :=
      explores_cons_none_iff.mpr ⟨share, rest, wasted, last, rfl⟩
    exact explores_cons_none_iff.mpr ⟨share', _, wasted', swapped, Tally.add_left_comm _ _ _⟩
  | trans _ _ ih ih' => exact ih' (ih h)

/-- A vain exploration is as vain, and as much work, by a reordered table. -/
theorem Explores.reorder (reorders : t.Reorders t') {ds : List Configuration}
    {found : Option Chain} {tally : Tally} (h : t.Explores pruning ds found tally)
    (nothing : found = none) : t'.Explores pruning ds none tally := by
  induction h with
  | exhausted => exact .exhausted
  | prune hopeless _ ih => exact .prune hopeless (ih nothing)
  | accept _ _ => cases nothing
  | enter _ _ _ _ => cases nothing
  | backtrack kept unfinished _ _ ihInner ihLater =>
    exact .backtrack kept unfinished ((ihInner rfl).perm (reorders.candidates _)) (ihLater nothing)

end Table

namespace Recognizer

theorem rejects_of_reorders {t t' : Table} (h : t.Reorders t') {start : StackSymbol}
    {pruning : Bool} {w : Word} {tally : Tally}
    (rejects : (mk t start pruning).Answers w .rejected tally) :
    (mk t' start pruning).Answers w .rejected tally := by
  obtain ⟨found, explores, hv⟩ := answers_iff_explores.mp rejects
  have nothing : found = none := by
    cases found with
    | none => rfl
    | some chain => cases hv
  have explores' := (explores.reorder h nothing).perm (h.candidates (.seed w start))
  exact answers_iff_explores.mpr ⟨none, explores', rfl⟩

/-- With the outcomes of each transition in another order, a search rejects exactly
the same inputs, with the same tally, and never rejects what was accepted. -/
theorem rejected_iff_of_reorders {t t' : Table} (h : t.Reorders t') (start : StackSymbol)
    (pruning : Bool) (w : Word) :
    (∀ tally, (mk t start pruning).Answers w .rejected tally ↔
      (mk t' start pruning).Answers w .rejected tally) ∧
    ∀ chain tally, (mk t start pruning).Answers w (.accepted chain) tally →
      ∀ v tally', (mk t' start pruning).Answers w v tally' → v.isAccepted = true := by
  refine ⟨fun tally => ⟨rejects_of_reorders h, rejects_of_reorders h.symm⟩, ?_⟩
  intro chain tally accepts v tally' answers
  cases v with
  | accepted chain' => rfl
  | rejected =>
    obtain ⟨impossible, _⟩ := accepts.unique (rejects_of_reorders h.symm answers)
    cases impossible

/-- One letter, by itself or by way of another. -/
def detour : Table where
  start := .letter 'S'
  inputAlphabet := ['a']
  nonterminals := ['S', 'A']
  transitions := [
    ⟨⟨⟨0⟩, .lambda, .letter 'S'⟩,
      [⟨⟨0⟩, [.letter 'A', .letter 'A']⟩, ⟨⟨0⟩, [.letter 'A']⟩, ⟨⟨0⟩, [.letter 'a']⟩]⟩,
    ⟨⟨⟨0⟩, .lambda, .letter 'A'⟩, [⟨⟨0⟩, [.letter 'a']⟩]⟩,
    ⟨⟨⟨0⟩, .letter 'a', .letter 'a'⟩, [⟨⟨0⟩, []⟩]⟩]

/-- The way round is tried last. -/
def shortcut : Table where
  start := .letter 'S'
  inputAlphabet := ['a']
  nonterminals := ['S', 'A']
  transitions := [
    ⟨⟨⟨0⟩, .lambda, .letter 'S'⟩,
      [⟨⟨0⟩, [.letter 'a']⟩, ⟨⟨0⟩, [.letter 'A']⟩, ⟨⟨0⟩, [.letter 'A', .letter 'A']⟩]⟩,
    ⟨⟨⟨0⟩, .lambda, .letter 'A'⟩, [⟨⟨0⟩, [.letter 'a']⟩]⟩,
    ⟨⟨⟨0⟩, .letter 'a', .letter 'a'⟩, [⟨⟨0⟩, []⟩]⟩]

theorem detour_rejected :
    detour.Reorders shortcut ∧
      (mk detour (.letter 'S') true).Answers ['b'] .rejected ⟨4, 1, 3⟩ ∧
      (mk shortcut (.letter 'S') true).Answers ['b'] .rejected ⟨4, 1, 3⟩ ∧
      ∃ v v', v ≠ v' ∧ (mk detour (.letter 'S') true).Answers ['a'] v ⟨4, 1, 0⟩ ∧
        (mk shortcut (.letter 'S') true).Answers ['a'] v' ⟨2, 0, 0⟩ ∧ v'.isAccepted = true := by
  have reorders : detour.Reorders shortcut :=
    .cons ⟨rfl, by decide⟩ (.cons ⟨rfl, .refl _⟩ (.cons ⟨rfl, .refl _⟩ .nil))
  have rejects : (mk detour (.letter 'S') true).Answers ['b'] .rejected ⟨4, 1, 3⟩ := ⟨5, rfl⟩
  have accepts : (mk detour (.letter 'S') true).Answers ['a'] _ ⟨4, 1, 0⟩ := ⟨5, rfl⟩
  have accepts' : (mk shortcut (.letter 'S') true).Answers ['a'] _ ⟨2, 0, 0⟩ := ⟨5, rfl⟩
  have same := rejected_iff_of_reorders reorders (.letter 'S') true
  exact ⟨reorders, rejects, ((same ['b']).1 _).mp rejects, _, _, by decide, accepts, accepts',
    (same ['a']).2 _ _ accepts _ _ accepts'⟩

end Recognizer

end LetterGrammar
