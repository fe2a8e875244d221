import Mathlib.Data.List.Forall2
import LetterGrammar.Proofs.Search.Exploration

/-! Two searches side by side. A correspondence relates configurations of two
tables so that related ones accept together, outgrow their input together and
have related candidates in the same order. Searches that begin at related
configurations then go the same way: either ends where the other does, with the
same verdict and the same work, and their chains are related link by link. -/

namespace LetterGrammar

namespace Table

variable {t t' : Table} {R : Configuration → Configuration → Prop} {pruning : Bool}

structure Corresponds (t t' : Table) (R : Configuration → Configuration → Prop) : Prop where
  accepting : ∀ c c', R c c' → c.accepting = c'.accepting
  outgrowsInput : ∀ c c', R c c' → c.outgrowsInput = c'.outgrowsInput
  candidates : ∀ c c', R c c' → List.Forall₂ R (t.candidates c) (t'.candidates c')

theorem Corresponds.symm (h : t.Corresponds t' R) : t'.Corresponds t (flip R) where
  accepting c' c related := (h.accepting c c' related).symm
  outgrowsInput c' c related := (h.outgrowsInput c c' related).symm
  candidates c' c related := (h.candidates c c' related).flip

/-- An exploration of related configurations takes the same course. -/
theorem Explores.transfer (h : t.Corresponds t' R) {ds ds' : List Configuration}
    {found : Option Chain} {tally : Tally} (explores : t.Explores pruning ds found tally)
    (related : List.Forall₂ R ds ds') :
    ∃ found', t'.Explores pruning ds' found' tally ∧
      Option.Rel (List.Forall₂ R) found found' := by
  induction explores generalizing ds' with
  | exhausted =>
    cases related
    exact ⟨none, .exhausted, .none⟩
  | prune hopeless _ ih =>
    obtain _ | ⟨hd, hds⟩ := related
    obtain ⟨found', later', alike⟩ := ih hds
    rw [h.outgrowsInput _ _ hd] at hopeless
    exact ⟨found', .prune hopeless later', alike⟩
  | accept kept accepting =>
    obtain _ | ⟨hd, _⟩ := related
    rw [h.outgrowsInput _ _ hd] at kept
    rw [h.accepting _ _ hd] at accepting
    exact ⟨_, .accept kept accepting, .some (.cons hd .nil)⟩
  | enter kept unfinished _ ih =>
    obtain _ | ⟨hd, _⟩ := related
    obtain ⟨_, inner', alike⟩ := ih (h.candidates _ _ hd)
    rw [h.outgrowsInput _ _ hd] at kept
    rw [h.accepting _ _ hd] at unfinished
    cases alike with
    | some links => exact ⟨_, .enter kept unfinished inner', .some (.cons hd links)⟩
  | backtrack kept unfinished _ _ ihInner ihLater =>
    obtain _ | ⟨hd, hds⟩ := related
    obtain ⟨_, inner', nothing⟩ := ihInner (h.candidates _ _ hd)
    obtain ⟨found', later', alike⟩ := ihLater hds
    rw [h.outgrowsInput _ _ hd] at kept
    rw [h.accepting _ _ hd] at unfinished
    cases nothing
    exact ⟨found', .backtrack kept unfinished inner' later', alike⟩

end Table

/-- The same verdict, and on acceptance chains that are related link by link. -/
inductive Verdict.Related (R : Configuration → Configuration → Prop) : Verdict → Verdict → Prop where
  | accepted {chain chain' : Chain} (links : List.Forall₂ R chain chain') :
      Related R (.accepted chain) (.accepted chain')
  | rejected : Related R .rejected .rejected

/-- The verdict with every configuration of its chain replaced. -/
def Verdict.map (f : Configuration → Configuration) : Verdict → Verdict
  | accepted chain => accepted (chain.map f)
  | rejected => rejected

theorem Verdict.map_id (v : Verdict) : v.map id = v := by
  cases v <;> simp [map]

/-- Where related configurations are the images of a function, so are verdicts. -/
theorem Verdict.Related.map_eq {R : Configuration → Configuration → Prop}
    {f : Configuration → Configuration} (hR : ∀ c c', R c c' → f c = c') {v v' : Verdict}
    (h : v.Related R v') : v.map f = v' := by
  cases h with
  | rejected => rfl
  | accepted links =>
    have mapped := List.forall₂_map_left_iff.mpr (links.imp hR)
    rw [List.forall₂_eq_eq_eq] at mapped
    exact congrArg Verdict.accepted mapped

namespace Recognizer

variable {r r' : Recognizer} {R : Configuration → Configuration → Prop} {input input' : Word}

theorem ends_iff_answers : r.Ends input ↔ ∃ v tally, r.Answers input v tally := by
  constructor
  · intro h
    obtain ⟨depth, h⟩ := h
    obtain ⟨⟨v, tally⟩, h⟩ := Option.isSome_iff_exists.mp h
    exact ⟨v, tally, depth, h⟩
  · intro h
    obtain ⟨v, tally, depth, h⟩ := h
    exact ⟨depth, by rw [h]; rfl⟩

/-- Recognizers of corresponding tables, and inputs on which they begin with
related seeds. -/
structure Corresponds (r r' : Recognizer) (R : Configuration → Configuration → Prop)
    (input input' : Word) : Prop where
  table : r.table.Corresponds r'.table R
  pruning : r.pruning = r'.pruning
  seed : R (.seed input r.start) (.seed input' r'.start)

theorem Corresponds.symm (h : r.Corresponds r' R input input') :
    r'.Corresponds r (flip R) input' input :=
  ⟨h.table.symm, h.pruning.symm, h.seed⟩

theorem Corresponds.answers (h : r.Corresponds r' R input input') {v : Verdict} {tally : Tally}
    (answers : r.Answers input v tally) : ∃ v', r'.Answers input' v' tally ∧ v.Related R v' := by
  obtain ⟨found, explores, rfl⟩ := answers_iff_explores.mp answers
  obtain ⟨found', explores', alike⟩ := explores.transfer h.table (h.table.candidates _ _ h.seed)
  rw [h.pruning] at explores'
  refine ⟨_, answers_iff_explores.mpr ⟨found', explores', rfl⟩, ?_⟩
  cases alike with
  | none => exact .rejected
  | some links => exact .accepted (.cons h.seed links)

theorem Corresponds.ends_iff (h : r.Corresponds r' R input input') :
    r.Ends input ↔ r'.Ends input' := by
  rw [ends_iff_answers, ends_iff_answers]
  constructor
  · intro ended
    obtain ⟨v, tally, answers⟩ := ended
    obtain ⟨v', answers', _⟩ := h.answers answers
    exact ⟨v', tally, answers'⟩
  · intro ended
    obtain ⟨v', tally, answers'⟩ := ended
    obtain ⟨v, answers, _⟩ := h.symm.answers answers'
    exact ⟨v, tally, answers⟩

/-- The answers of the one search are those of the other under the function that
relates their configurations. -/
theorem Corresponds.answers_iff (h : r.Corresponds r' R input input')
    {f : Configuration → Configuration} (hR : ∀ c c', R c c' → f c = c') {v' : Verdict}
    {tally : Tally} :
    r'.Answers input' v' tally ↔ ∃ v, r.Answers input v tally ∧ v.map f = v' := by
  constructor
  · intro answers'
    obtain ⟨v, answers, _⟩ := h.symm.answers answers'
    obtain ⟨v'', answers'', alike⟩ := h.answers answers
    obtain ⟨rfl, _⟩ := answers'.unique answers''
    exact ⟨v, answers, alike.map_eq hR⟩
  · intro answered
    obtain ⟨v, answers, rfl⟩ := answered
    obtain ⟨v', answers', alike⟩ := h.answers answers
    rwa [alike.map_eq hR]

end Recognizer

end LetterGrammar
