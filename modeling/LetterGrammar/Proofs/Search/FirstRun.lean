import Mathlib.Data.List.Lex
import Mathlib.Order.Bounds.Defs
import LetterGrammar.Proofs.Search.Exhaustive

/-! The run that a search returns. A run to acceptance is told by its choices,
each by its place among the candidates. The search returns the run whose places
come first: what it passed over was cut or had been searched to the end in vain.
What it finds after a configuration depends on that configuration alone, so the
run comes to none twice, for it would go on as before and never be accepting. -/

namespace LetterGrammar

namespace Table

variable {t : Table} {pruning : Bool}

theorem getElem?_candidates {c d : Configuration} {k : Nat} :
    (t.candidates c)[k]? = some d ↔
      ∃ r, t.transition? c = some r ∧
        ∃ o, r.outcomes[k]? = some o ∧ c.successor r.key.guard o = d := by
  cases h : t.transition? c <;> simp [candidates, h]

theorem unfinished_of_candidate {c d : Configuration} {k : Nat}
    (h : (t.candidates c)[k]? = some d) : c.accepting = false := by
  have move : t.Moves false c d := moves_iff_mem_candidates.mpr ⟨List.mem_of_getElem? h, rfl⟩
  exact Bool.eq_false_iff.mpr fun accepting => not_moves_of_accepting accepting move

/-- A run to acceptance, with the place of each choice. -/
inductive Run (t : Table) (pruning : Bool) : Configuration → List Nat → Chain → Prop where
  | done {c : Configuration} (accepting : c.accepting = true) : Run t pruning c [] [c]
  | step {c d : Configuration} {k : Nat} {ks : List Nat} {chain : Chain}
      (choice : (t.candidates c)[k]? = some d) (kept : (pruning && d.outgrowsInput) = false)
      (rest : Run t pruning d ks chain) : Run t pruning c (k :: ks) (c :: chain)

/-- Nothing comes of trying a configuration: it is cut, or no run of moves leads
from it to acceptance. -/
def Vain (t : Table) (pruning : Bool) (d : Configuration) : Prop :=
  (pruning && d.outgrowsInput) = true ∨ ¬ t.CanAccept pruning d

/-- The configuration at place `k` is not cut, and all before it are in vain. -/
structure FirstChoice (t : Table) (pruning : Bool) (ds : List Configuration) (k : Nat)
    (d : Configuration) : Prop where
  chosen : ds[k]? = some d
  kept : (pruning && d.outgrowsInput) = false
  passed : ∀ j < k, ∀ e, ds[j]? = some e → t.Vain pruning e

/-- A run of first choices. -/
inductive FirstRun (t : Table) (pruning : Bool) : Configuration → List Nat → Chain → Prop where
  | done {c : Configuration} (accepting : c.accepting = true) : FirstRun t pruning c [] [c]
  | step {c d : Configuration} {k : Nat} {ks : List Nat} {chain : Chain}
      (first : t.FirstChoice pruning (t.candidates c) k d) (rest : FirstRun t pruning d ks chain) :
      FirstRun t pruning c (k :: ks) (c :: chain)

theorem FirstChoice.head {d : Configuration} {ds : List Configuration}
    (kept : (pruning && d.outgrowsInput) = false) : t.FirstChoice pruning (d :: ds) 0 d :=
  ⟨rfl, kept, fun j hj => absurd hj (Nat.not_lt_zero j)⟩

theorem FirstChoice.tail {d e : Configuration} {ds : List Configuration} {k : Nat}
    (h : t.FirstChoice pruning ds k d) (vain : t.Vain pruning e) :
    t.FirstChoice pruning (e :: ds) (k + 1) d where
  chosen := h.chosen
  kept := h.kept
  passed := by
    intro j hj e' he'
    cases j with
    | zero => cases he'; exact vain
    | succ j => exact h.passed j (Nat.lt_of_succ_lt_succ hj) e' he'

/-- No other choice that leads to acceptance comes earlier. -/
theorem FirstChoice.le {d e : Configuration} {ds : List Configuration} {j k : Nat}
    (h : t.FirstChoice pruning ds k d) (he : ds[j]? = some e)
    (kept : (pruning && e.outgrowsInput) = false) (accepts : t.CanAccept pruning e) : k ≤ j := by
  refine Nat.le_of_not_lt fun hj => ?_
  rcases h.passed j hj e he with cut | stuck
  · rw [kept] at cut; cases cut
  · exact stuck accepts

/-- What an exploration finds is the run of first choices. -/
theorem Explores.firstRun {ds : List Configuration} {found : Option Chain} {tally : Tally}
    (h : t.Explores pruning ds found tally) {chain : Chain} (hc : found = some chain) :
    ∃ k d ks, t.FirstChoice pruning ds k d ∧ t.FirstRun pruning d ks chain := by
  induction h generalizing chain with
  | exhausted => cases hc
  | prune hopeless _ ih =>
    obtain ⟨k, d, ks, first, run⟩ := ih hc
    exact ⟨k + 1, d, ks, first.tail (.inl hopeless), run⟩
  | accept kept accepting =>
    cases hc
    exact ⟨0, _, [], .head kept, .done accepting⟩
  | enter kept _ _ ih =>
    cases hc
    obtain ⟨k, e, ks, first, run⟩ := ih rfl
    exact ⟨0, _, k :: ks, .head kept, .step first run⟩
  | backtrack _ unfinished inner _ _ ihLater =>
    obtain ⟨k, e, ks, first, run⟩ := ihLater hc
    exact ⟨k + 1, e, ks, first.tail (.inr (inner.not_canAccept unfinished)), run⟩

theorem Run.head? {c : Configuration} {ks : List Nat} {chain : Chain}
    (h : t.Run pruning c ks chain) : chain.head? = some c := by
  cases h <;> rfl

theorem Run.canAccept {c : Configuration} {ks : List Nat} {chain : Chain}
    (h : t.Run pruning c ks chain) : t.CanAccept pruning c := by
  induction h with
  | done accepting => exact canAccept_of_accepting accepting
  | step choice kept _ ih =>
    exact ih.of_move (moves_iff_mem_candidates.mpr ⟨List.mem_of_getElem? choice, kept⟩)

theorem FirstRun.run {c : Configuration} {ks : List Nat} {chain : Chain}
    (h : t.FirstRun pruning c ks chain) : t.Run pruning c ks chain := by
  induction h with
  | done accepting => exact .done accepting
  | step first _ ih => exact .step first.chosen first.kept ih

/-- The places determine the chain. -/
theorem Run.unique {c : Configuration} {ks : List Nat} {chain chain' : Chain}
    (h : t.Run pruning c ks chain) (h' : t.Run pruning c ks chain') : chain = chain' := by
  induction h generalizing chain' with
  | done _ => cases h'; rfl
  | @step c d k ks chain choice _ _ ih =>
    cases h' with
    | @step _ d' _ _ _ choice' _ rest' =>
      obtain rfl : d = d' := Option.some.inj (choice.symm.trans choice')
      rw [ih rest']

/-- Among the runs to acceptance, the run of first choices is the first. -/
theorem FirstRun.first {c : Configuration} {ks js : List Nat} {chain chain' : Chain}
    (h : t.FirstRun pruning c ks chain) (run : t.Run pruning c js chain') :
    ks = js ∨ List.Lex (· < ·) ks js := by
  induction h generalizing js chain' with
  | done accepting =>
    cases run with
    | done _ => exact .inl rfl
    | step _ _ _ => exact .inr .nil
  | @step c d k ks chain first _ ih =>
    cases run with
    | done accepting =>
      rw [unfinished_of_candidate first.chosen] at accepting
      cases accepting
    | @step _ e j js chain' choice kept rest =>
      rcases Nat.lt_or_eq_of_le (first.le choice kept rest.canAccept) with earlier | rfl
      · exact .inr (.rel earlier)
      · obtain rfl : d = e := Option.some.inj (first.chosen.symm.trans choice)
        exact (ih rest).imp (congrArg (k :: ·)) .cons

theorem FirstRun.unique {c : Configuration} {ks ks' : List Nat} {chain chain' : Chain}
    (h : t.FirstRun pruning c ks chain) (h' : t.FirstRun pruning c ks' chain') :
    chain = chain' := by
  have same : ks = ks' := by
    rcases h.first h'.run with same | before
    · exact same
    · exact (h'.first h.run).elim Eq.symm fun after => absurd after (asymm before)
  subst same
  exact h.run.unique h'.run

/-- From each of its configurations on, a run of first choices is one again. -/
theorem FirstRun.from_mem {c d : Configuration} {ks : List Nat} {chain : Chain}
    (h : t.FirstRun pruning c ks chain) (hd : d ∈ chain) :
    ∃ ks' after, t.FirstRun pruning d ks' after ∧ after.length ≤ chain.length := by
  induction h with
  | done accepting =>
    obtain rfl := List.mem_singleton.mp hd
    exact ⟨_, _, .done accepting, Nat.le_refl _⟩
  | step first rest ih =>
    rcases List.mem_cons.mp hd with rfl | hd
    · exact ⟨_, _, .step first rest, Nat.le_refl _⟩
    · obtain ⟨ks', after, run, le⟩ := ih hd
      exact ⟨ks', after, run, Nat.le_succ_of_le le⟩

theorem FirstRun.nodup {c : Configuration} {ks : List Nat} {chain : Chain}
    (h : t.FirstRun pruning c ks chain) : chain.Nodup := by
  induction h with
  | done _ => simp
  | @step c d k ks chain first rest ih =>
    refine List.nodup_cons.mpr ⟨fun again => ?_, ih⟩
    -- the run from the second time on would be the whole run, and shorter
    obtain ⟨_, after, run, le⟩ := rest.from_mem again
    have same := run.unique (.step first rest)
    rw [same, List.length_cons] at le
    omega

/-- Each link of a run of first choices is one. -/
theorem FirstRun.choice {c : Configuration} {ks : List Nat} {chain : Chain}
    (h : t.FirstRun pruning c ks chain) {i : Nat} {a b : Configuration}
    (ha : chain[i]? = some a) (hb : chain[i + 1]? = some b) :
    t.CanAccept pruning b ∧
      ∃ k, ks[i]? = some k ∧ t.FirstChoice pruning (t.candidates a) k b := by
  induction h generalizing i with
  | done _ => cases hb
  | @step c d k ks chain first rest ih =>
    cases i with
    | succ i => exact ih ha hb
    | zero =>
      obtain rfl : c = a := Option.some.inj ha
      have hd : chain.head? = some b := List.head?_eq_getElem?.trans hb
      obtain rfl : d = b := Option.some.inj (rest.run.head?.symm.trans hd)
      exact ⟨rest.run.canAccept, k, rfl, first⟩

end Table

namespace Recognizer

theorem Answers.firstRun {r : Recognizer} {input : Word} {chain : Chain} {tally : Tally}
    (h : r.Answers input (.accepted chain) tally) :
    ∃ ks, r.table.FirstRun r.pruning (.seed input r.start) ks chain := by
  obtain ⟨found, explores, hv⟩ := answers_iff_explores.mp h
  cases found with
  | none => cases hv
  | some rest =>
    cases hv
    obtain ⟨k, d, ks, first, run⟩ := explores.firstRun rfl
    exact ⟨k :: ks, .step first run⟩

/-- The configurations of an accepted chain are pairwise distinct. -/
theorem nodup_of_accepted {r : Recognizer} {input : Word} {chain : Chain} {tally : Tally}
    (h : r.Answers input (.accepted chain) tally) : chain.Nodup := by
  obtain ⟨ks, run⟩ := h.firstRun
  exact run.nodup

/-- A letter with four choices on it: one is cut, one is stuck, and two lead to
acceptance. -/
def crossroads : Recognizer where
  start := .letter 'S'
  pruning := true
  table := {
    start := .letter 'S', inputAlphabet := ['a'], nonterminals := ['S', 'A']
    transitions := [
      ⟨⟨⟨0⟩, .lambda, .letter 'S'⟩, [⟨⟨0⟩, [.letter 'a', .letter 'a']⟩, ⟨⟨1⟩, [.letter 'a']⟩,
        ⟨⟨0⟩, [.letter 'A']⟩, ⟨⟨0⟩, [.letter 'a']⟩]⟩,
      ⟨⟨⟨0⟩, .lambda, .letter 'A'⟩, [⟨⟨0⟩, [.letter 'a']⟩]⟩,
      ⟨⟨⟨0⟩, .letter 'a', .letter 'a'⟩, [⟨⟨0⟩, []⟩]⟩] }

def crossroadsChain : Chain :=
  [⟨⟨0⟩, ['a'], [.letter 'S']⟩, ⟨⟨0⟩, ['a'], [.letter 'A']⟩, ⟨⟨0⟩, ['a'], [.letter 'a']⟩, ⟨⟨0⟩, [], []⟩]

theorem crossroads_answers :
    crossroads.Answers ['a'] (.accepted crossroadsChain) ⟨5, 1, 1⟩ := ⟨5, rfl⟩

theorem crossroads_nodup :
    crossroads.Answers ['a'] (.accepted crossroadsChain) ⟨5, 1, 1⟩ ∧ crossroadsChain.Nodup :=
  ⟨crossroads_answers, nodup_of_accepted crossroads_answers⟩

/-- The choice from one configuration of an accepted chain to the next is the
first that leads there, and every earlier choice is in vain. In dictionary order
no run to acceptance comes before these choices. -/
theorem first_of_accepted {r : Recognizer} {input : Word} {chain : Chain} {tally : Tally}
    (h : r.Answers input (.accepted chain) tally) :
    ∃ ks, r.table.Run r.pruning (.seed input r.start) ks chain ∧
      (∀ i c d, chain[i]? = some c → chain[i + 1]? = some d →
        ∃ s k, r.table.transition? c = some s ∧ ks[i]? = some k ∧
          IsLeast {j | ∃ o, s.outcomes[j]? = some o ∧ c.successor s.key.guard o = d} k ∧
          ∀ j < k, ∀ o, s.outcomes[j]? = some o →
            r.table.Vain r.pruning (c.successor s.key.guard o)) ∧
      ∀ js chain', r.table.Run r.pruning (.seed input r.start) js chain' →
        ks = js ∨ List.Lex (· < ·) ks js := by
  obtain ⟨ks, run⟩ := h.firstRun
  refine ⟨ks, run.run, ?_, fun js chain' other => run.first other⟩
  intro i c d hc hd
  obtain ⟨accepts, k, hk, first⟩ := run.choice hc hd
  obtain ⟨s, hs, o, ho, reached⟩ := Table.getElem?_candidates.mp first.chosen
  refine ⟨s, k, hs, hk, ⟨⟨o, ho, reached⟩, ?_⟩, ?_⟩
  · intro j hj
    exact first.le (Table.getElem?_candidates.mpr ⟨s, hs, hj⟩) first.kept accepts
  · intro j hj o' ho'
    exact first.passed j hj _ (Table.getElem?_candidates.mpr ⟨s, hs, o', ho', rfl⟩)

theorem crossroads_first :
    crossroads.Answers ['a'] (.accepted crossroadsChain) ⟨5, 1, 1⟩ ∧
      ∃ ks, crossroads.table.Run true (.seed ['a'] (.letter 'S')) ks crossroadsChain ∧
        ∀ js chain, crossroads.table.Run true (.seed ['a'] (.letter 'S')) js chain →
          ks = js ∨ List.Lex (· < ·) ks js := by
  obtain ⟨ks, run, _, least⟩ := first_of_accepted crossroads_answers
  exact ⟨crossroads_answers, ks, run, least⟩

end Recognizer

end LetterGrammar
