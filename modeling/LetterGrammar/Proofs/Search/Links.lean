import Mathlib.Data.List.Chain
import LetterGrammar.Proofs.Search.FirstRun

/-! What an accepted chain proves without the search. It begins at the seed, ends
with input and stack used up, and each of its links is one choice of the
transition that the table gives for the configuration before it. Whoever doubts a
verdict of acceptance can check it link by link. -/

namespace LetterGrammar

namespace Table

variable {t : Table} {pruning : Bool}

/-- The outcome `o` of the transition that applies to `c` leads to `d`: the top
gives way to what it pushes, and one letter is read if the guard is a letter. -/
structure Leads (t : Table) (s : Transition) (o : Outcome) (c d : Configuration) : Prop where
  found : ∃ next top, c.input.head? = some next ∧ c.top? = some top ∧
    t.find? c.state next top = some s
  choice : o ∈ s.outcomes
  state : d.state = o.state
  stack : d.bottomFirst = c.bottomFirst.dropLast ++ o.push
  unread : s.key.guard = .lambda → d.input = c.input
  read : ∀ a, s.key.guard = .letter a → c.input = a :: d.input

theorem applies_of_find? {state : State} {next : Char} {top : StackSymbol} {s : Transition}
    (h : t.find? state next top = some s) : s.applies state next top = true := by
  unfold find? at h
  simpa only using List.find?_some h

theorem leads_successor {c : Configuration} {s : Transition} {o : Outcome}
    (hs : t.transition? c = some s) (ho : o ∈ s.outcomes) :
    t.Leads s o c (c.successor s.key.guard o) := by
  obtain ⟨next, rest, top, below, input, stack, found⟩ := transition?_eq_some.mp hs
  have guarded := (Transition.applies_iff.mp (applies_of_find? found)).2.2
  refine ⟨⟨next, top, ?_, ?_, found⟩, ho, rfl, Configuration.bottomFirst_successor, ?_, ?_⟩
  · rw [input, List.head?_cons]
  · rw [Configuration.top?, stack, List.head?_cons]
  · intro silent
    rw [silent]
    rfl
  · intro a reading
    -- a guard that is a letter is the next letter, or the transition would not apply
    obtain rfl : a = next := by simpa [reading] using guarded
    rw [reading, input, Configuration.successor, input]
    rfl

theorem Run.isChain_leads {c : Configuration} {ks : List Nat} {chain : Chain}
    (h : t.Run pruning c ks chain) : chain.IsChain fun c d => ∃ s o, t.Leads s o c d := by
  induction h with
  | done _ => exact .singleton _
  | step choice _ rest ih =>
    refine List.isChain_cons.mpr ⟨fun e he => ?_, ih⟩
    obtain rfl := Option.some.inj (rest.head?.symm.trans he)
    obtain ⟨s, hs, o, ho, rfl⟩ := getElem?_candidates.mp choice
    exact ⟨s, o, leads_successor hs (List.mem_of_getElem? ho)⟩

/-- Only the last configuration of a run has nothing left to do. -/
theorem Run.exists_concat {c : Configuration} {ks : List Nat} {chain : Chain}
    (h : t.Run pruning c ks chain) :
    ∃ before last, chain = before ++ [last] ∧ last.accepting = true ∧
      ∀ e ∈ before, e.input ≠ [] ∧ e.stack ≠ [] := by
  induction h with
  | done accepting => exact ⟨[], _, rfl, accepting, by simp⟩
  | @step c d k ks chain choice _ _ ih =>
    obtain ⟨before, last, rfl, accepting, busy⟩ := ih
    obtain ⟨s, hs, _⟩ := getElem?_candidates.mp choice
    obtain ⟨_, _, _, _, input, stack, _⟩ := transition?_eq_some.mp hs
    refine ⟨c :: before, last, rfl, accepting, List.forall_mem_cons.mpr ⟨?_, busy⟩⟩
    rw [input, stack]
    exact ⟨List.cons_ne_nil _ _, List.cons_ne_nil _ _⟩

theorem Explores.exists_concat {ds : List Configuration} {chain : Chain} {tally : Tally}
    (h : t.Explores pruning ds (some chain) tally) :
    ∃ before last, chain = before ++ [last] ∧ last.accepting = true := by
  obtain ⟨_, _, _, _, first⟩ := h.firstRun rfl
  obtain ⟨before, last, split, accepting, _⟩ := first.run.exists_concat
  exact ⟨before, last, split, accepting⟩

theorem Run.kept_of_mem_tail {c : Configuration} {ks : List Nat} {chain : Chain}
    (h : t.Run pruning c ks chain) : ∀ d ∈ chain.tail, (pruning && d.outgrowsInput) = false := by
  induction h with
  | done _ => simp
  | step _ kept rest ih =>
    intro e he
    rw [List.tail_cons, ← List.cons_head?_tail rest.head?] at he
    rcases List.mem_cons.mp he with rfl | he
    · exact kept
    · exact ih e he

end Table

namespace Recognizer

/-- The chain is a run of the machine on the input, from the seed to acceptance. -/
structure Runs (r : Recognizer) (input : Word) (chain : Chain) : Prop where
  seed : chain.head? = some (.seed input r.start)
  links : chain.IsChain fun c d => ∃ s o, r.table.Leads s o c d
  /-- The last link reads a letter, the last of the input. -/
  last : ∃ before c d s o a, chain = before ++ [c, d] ∧ r.table.Leads s o c d ∧
    s.key.guard = .letter a ∧ d.input = [] ∧ d.stack = []
  busy : ∀ c ∈ chain.dropLast, c.input ≠ [] ∧ c.stack ≠ []
  fits : r.pruning = true → ∀ d ∈ chain.tail, d.stack.length ≤ d.input.length

/-- Every accepted chain is a run. -/
theorem runs_of_accepted {r : Recognizer} {input : Word} {chain : Chain} {tally : Tally}
    (h : r.Answers input (.accepted chain) tally) : r.Runs input chain := by
  obtain ⟨ks, first⟩ := h.firstRun
  have run := first.run
  have links := run.isChain_leads
  obtain ⟨before, d, rfl, accepting, busy⟩ := run.exists_concat
  obtain ⟨read, emptied⟩ := Configuration.accepting_iff.mp accepting
  refine ⟨run.head?, links, ?_, by simpa using busy, ?_⟩
  · rcases List.eq_nil_or_concat' before with rfl | ⟨before, c, rfl⟩
    · -- the seed has its start symbol on the stack
      obtain rfl : d = .seed input r.start := Option.some.inj run.head?
      cases emptied
    · rw [List.append_assoc] at links
      obtain ⟨s, o, leads⟩ := List.isChain_pair.mp (List.isChain_append.mp links).2.1
      have unread := (busy c (List.mem_append_right _ List.mem_cons_self)).1
      cases guard : s.key.guard with
      | lambda => exact absurd ((leads.unread guard).symm.trans read) unread
      | letter a =>
        exact ⟨before, c, d, s, o, a, List.append_assoc _ _ _, leads, guard, read, emptied⟩
  · intro pruned e he
    exact Configuration.length_le_of_kept pruned (run.kept_of_mem_tail e he)

theorem twoStates_runs :
    twoStates.Answers ['a', 'b']
        (.accepted [⟨⟨0⟩, ['a', 'b'], [.letter 'S']⟩, ⟨⟨1⟩, ['a', 'b'], [.letter 'a', .bottom]⟩,
          ⟨⟨0⟩, ['b'], [.bottom]⟩, ⟨⟨0⟩, [], []⟩]) ⟨4, 0, 1⟩ ∧
      twoStates.Runs ['a', 'b']
        [⟨⟨0⟩, ['a', 'b'], [.letter 'S']⟩, ⟨⟨1⟩, ['a', 'b'], [.letter 'a', .bottom]⟩,
          ⟨⟨0⟩, ['b'], [.bottom]⟩, ⟨⟨0⟩, [], []⟩] := by
  have h : twoStates.Answers ['a', 'b'] _ _ := ⟨5, rfl⟩
  exact ⟨h, runs_of_accepted h⟩

end Recognizer

end LetterGrammar
