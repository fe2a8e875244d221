import LetterGrammar.Proofs.Language

/-! Pruning is exact. It cuts a configuration whose stack is taller than the rest
of the input, and where no alternative is empty such a configuration accepts
nothing: each symbol of a form takes at least one letter of the word it spells. A
search with pruning therefore follows the search without it step by step, leaves
out what was to fail, and ends with the same chain. -/

namespace LetterGrammar

theorem Configuration.outgrowsInput_of_accepting {c : Configuration} (h : c.accepting = true) :
    c.outgrowsInput = false := by
  obtain ⟨_, empty⟩ := accepting_iff.mp h
  simp [outgrowsInput, empty]

namespace Table

/-- On these configurations, which the table's moves never leave, a stack that
outgrows the input is beyond acceptance. -/
structure PrunesExactly (t : Table) (reachable : Configuration → Prop) : Prop where
  closed : ∀ c d, reachable c → d ∈ t.candidates c → reachable d
  hopeless : ∀ c, reachable c → c.outgrowsInput = true → ¬ t.CanAccept false c

/-- An exploration without pruning that ends is one with pruning, with the same
find and not more configurations. -/
theorem Explores.prunes {t : Table} {reachable : Configuration → Prop}
    (ht : t.PrunesExactly reachable) {ds : List Configuration} {found : Option Chain}
    {tally : Tally} (h : t.Explores false ds found tally) (hds : ∀ d ∈ ds, reachable d) :
    ∃ tally', t.Explores true ds found tally' ∧ tally'.configurations ≤ tally.configurations := by
  induction h with
  | exhausted => exact ⟨.zero, .exhausted, Nat.le_refl _⟩
  | prune hopeless _ _ => simp at hopeless
  | accept _ accepting =>
    have fits := Configuration.outgrowsInput_of_accepting accepting
    exact ⟨_, .accept (by rw [fits]; rfl) accepting, Nat.le_refl _⟩
  | @enter d ds chain inside _ unfinished inner ih =>
    have hd := hds d List.mem_cons_self
    have accepts : t.CanAccept false d := (inner.found_iff_canAccept unfinished).mp rfl
    have fits : (true && d.outgrowsInput) = false :=
      Bool.eq_false_iff.mpr fun outgrows => ht.hopeless d hd outgrows accepts
    obtain ⟨inside', inner', le⟩ := ih fun e he => ht.closed d e hd he
    exact ⟨_, .enter fits unfinished inner', by simpa using le⟩
  | @backtrack d ds found inside after _ unfinished _ _ ihInner ihLater =>
    have hd := hds d List.mem_cons_self
    obtain ⟨after', later', leAfter⟩ := ihLater fun e he => hds e (List.mem_cons_of_mem d he)
    cases outgrows : d.outgrowsInput with
    | true =>
      -- the whole failed search below `d` is left out
      refine ⟨_, .prune (by rw [outgrows]; rfl) later', ?_⟩
      simp only [Tally.configurations_add]
      omega
    | false =>
      obtain ⟨inside', inner', leInside⟩ := ihInner fun e he => ht.closed d e hd he
      refine ⟨_, .backtrack (by rw [outgrows]; rfl) unfinished inner' later', ?_⟩
      simp only [Tally.configurations_add]
      omega

end Table

namespace Grammar

variable {g : Grammar}

theorem prunesExactly (hg : g.Epsilonless) :
    g.compile.PrunesExactly fun c => ∃ unread form, c = .ofForm unread form where
  closed := by
    intro c d hc hd
    obtain ⟨unread, form, rfl⟩ := hc
    obtain ⟨unread', form', _, hd⟩ := mem_candidates_ofForm.mp hd
    exact ⟨unread', form', hd⟩
  hopeless := by
    intro c hc outgrows accepts
    obtain ⟨unread, form, rfl⟩ := hc
    have spells := ((canAccept_ofForm_iff hg).mp accepts).2
    have fits := spells.length_le hg
    have taller := Configuration.outgrowsInput_ofForm.mp outgrows
    omega

/-- Whatever a search starts on, it is at work on forms from its first move on. -/
theorem ofForm_of_mem_candidates_seed {input : Word} {start : StackSymbol} {d : Configuration}
    (hd : d ∈ g.compile.candidates (.seed input start)) : ∃ unread form, d = .ofForm unread form := by
  cases start with
  | letter c =>
    rw [Configuration.seed_letter] at hd
    obtain ⟨unread, form, _, hd⟩ := mem_candidates_ofForm.mp hd
    exact ⟨unread, form, hd⟩
  | bottom =>
    cases input with
    | nil => cases hd
    | cons next unread =>
      rw [candidates_seed_bottom] at hd
      exact ⟨next :: unread, [], List.mem_singleton.mp hd⟩

/-- Where the search without pruning ends, the search with pruning ends with the
same verdict, chain included, and has counted no more configurations. -/
theorem answers_of_answers_unpruned (hg : g.Epsilonless) (start : StackSymbol) (w : Word)
    {v : Verdict} {tally : Tally} (h : (g.recognizer start false).Answers w v tally) :
    ∃ tally', (g.recognizer start true).Answers w v tally' ∧
      tally'.configurations ≤ tally.configurations := by
  obtain ⟨found, explores, rfl⟩ := Recognizer.answers_iff_explores.mp h
  obtain ⟨tally', explores', le⟩ :=
    explores.prunes (prunesExactly hg) fun d hd => ofForm_of_mem_candidates_seed hd
  exact ⟨tally', Recognizer.answers_iff_explores.mpr ⟨found, explores', rfl⟩, le⟩

/-- Letters in pairs, from the outside in. -/
def pairs : Grammar := ⟨[⟨'S', [['a', 'S', 'b'], ['a', 'b']]⟩]⟩

theorem pairs_answers :
    pairs.Epsilonless ∧ ∃ v, v.isAccepted = true ∧
      (pairs.recognizer (.letter 'S') false).Answers ['a', 'a', 'b', 'b'] v ⟨10, 0, 4⟩ ∧
      ∃ tally, (pairs.recognizer (.letter 'S') true).Answers ['a', 'a', 'b', 'b'] v tally ∧
        tally.configurations ≤ 10 := by
  have hg : pairs.Epsilonless := by unfold Epsilonless; decide
  have h : (pairs.recognizer (.letter 'S') false).Answers ['a', 'a', 'b', 'b'] _ _ := ⟨9, rfl⟩
  exact ⟨hg, _, rfl, h, answers_of_answers_unpruned hg _ _ h⟩

end Grammar

end LetterGrammar
