import LetterGrammar.Proofs.Search.Links

/-! How a tally adds up. A configuration that is laid onto the path is cut at
once, or taken back when nothing that may follow it accepts, or stays for good as
a link of the chain that is returned. There is no fourth way, so the three counts
and the length of the chain determine each other. -/

namespace LetterGrammar

namespace Table

variable {t : Table} {pruning : Bool} {ds : List Configuration} {found : Option Chain}
  {tally : Tally}

/-- What was laid down was cut, was taken back, or is part of what was found. -/
theorem Explores.configurations_eq (h : t.Explores pruning ds found tally) :
    tally.configurations = tally.pruned + tally.backtracks + (found.getD []).length := by
  induction h with
  | exhausted => rfl
  | accept _ _ => rfl
  | prune _ _ ih =>
    simp only [Tally.configurations_add, Tally.pruned_add, Tally.backtracks_add]
    omega
  | enter _ _ _ ih =>
    simp only [Tally.configurations_add, Tally.pruned_add, Tally.backtracks_add,
      Option.getD_some, List.length_cons] at ih ⊢
    omega
  | backtrack _ _ _ _ ihInner ihLater =>
    -- a search that fails leaves nothing on the path
    simp only [Option.getD_none, List.length_nil] at ihInner
    simp only [Tally.configurations_add, Tally.pruned_add, Tally.backtracks_add]
    omega

theorem Explores.pruned_eq_zero (h : t.Explores false ds found tally) : tally.pruned = 0 := by
  induction h with
  | exhausted => rfl
  | accept _ _ => rfl
  | prune hopeless _ _ => cases hopeless
  | enter _ _ _ ih => simp only [Tally.pruned_add, ih]
  | backtrack _ _ _ _ ihInner ihLater => simp only [Tally.pruned_add, ihInner, ihLater]

/-- Acceptance is never found without a further configuration. -/
theorem Explores.length_pos {chain : Chain} (h : t.Explores pruning ds (some chain) tally) :
    0 < chain.length := by
  obtain ⟨before, last, rfl, _⟩ := h.exists_concat
  simp

end Table

/-- Every configuration of a search was cut, was taken back, or is a link of its
chain. The first of the chain is the seed, which is not counted. -/
def Verdict.Balances : Verdict → Tally → Prop
  | rejected, tally => tally.configurations = tally.pruned + tally.backtracks
  | accepted chain, tally => 2 ≤ chain.length ∧
      tally.configurations = tally.pruned + tally.backtracks + (chain.length - 1)

namespace Recognizer

/-- The counts of a search add up, and without pruning nothing is cut. -/
theorem balances_of_answers {r : Recognizer} {input : Word} {v : Verdict} {tally : Tally}
    (h : r.Answers input v tally) :
    v.Balances tally ∧ (r.pruning = false → tally.pruned = 0) := by
  obtain ⟨found, explores, rfl⟩ := answers_iff_explores.mp h
  have total := explores.configurations_eq
  constructor
  · cases found with
    | none => exact total
    | some chain => exact ⟨Nat.succ_lt_succ explores.length_pos, total⟩
  · intro unpruned
    rw [unpruned] at explores
    exact explores.pruned_eq_zero

theorem crossroads_balances :
    crossroads.Answers ['a'] (.accepted crossroadsChain) ⟨5, 1, 1⟩ ∧
      (Verdict.accepted crossroadsChain).Balances ⟨5, 1, 1⟩ ∧
      crossroads.Answers ['b'] .rejected ⟨5, 1, 4⟩ ∧ Verdict.rejected.Balances ⟨5, 1, 4⟩ ∧
      crossroads.withoutPruning.Answers ['b'] .rejected ⟨5, 0, 5⟩ ∧
      Verdict.rejected.Balances ⟨5, 0, 5⟩ := by
  have rejects : crossroads.Answers ['b'] .rejected ⟨5, 1, 4⟩ := ⟨5, rfl⟩
  have rejects' : crossroads.withoutPruning.Answers ['b'] .rejected ⟨5, 0, 5⟩ := ⟨5, rfl⟩
  exact ⟨crossroads_answers, (balances_of_answers crossroads_answers).1, rejects,
    (balances_of_answers rejects).1, rejects', (balances_of_answers rejects').1⟩

end Recognizer

end LetterGrammar
