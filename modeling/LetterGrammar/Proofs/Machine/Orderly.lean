import Mathlib.Data.List.Chain
import LetterGrammar.Proofs.Machine.Alphabets
import LetterGrammar.Proofs.Machine.Forms
import LetterGrammar.Proofs.Search.Moments

/-! What the machine of a grammar keeps in order while it is searched. At every
moment of a search, whether the search ends or not, the configurations on its path
are forms over the stack alphabet before a rest of the input, in the one state
there is. Only the seed can hold the bottom marker, which no transition pushes. -/

namespace LetterGrammar.Grammar

variable {g : Grammar} {start : StackSymbol} {w : Word}

/-- A form over the stack alphabet and the start symbol, before a rest of the input. -/
inductive Orderly (g : Grammar) (start : StackSymbol) (w : Word) : Configuration → Prop where
  | form {unread form : Word} (rest : unread <:+ w)
      (known : ∀ a ∈ form, .letter a ∈ g.compile.stackAlphabet ∨ .letter a = start) :
      Orderly g start w (.ofForm unread form)

/-- From one configuration to the next, at most one letter is read. -/
def Paces (c d : Configuration) : Prop :=
  d.input.length ≤ c.input.length ∧ c.input.length ≤ d.input.length + 1

theorem Orderly.step {c d : Configuration} (h : g.Orderly start w c)
    (hd : d ∈ g.compile.candidates c) : g.Orderly start w d ∧ Paces c d := by
  cases h with
  | form rest known =>
    obtain ⟨unread', form', step, rfl⟩ := mem_candidates_ofForm.mp hd
    cases step with
    | choose _ rule choice =>
      refine ⟨.form rest fun a ha => ?_, Nat.le_refl _, Nat.le_succ _⟩
      rcases List.mem_append.mp ha with ha | ha
      · exact .inl (letter_mem_stackAlphabet_of_alternative (mem_of_ruleFor? rule) choice ha)
      · exact known a (List.mem_cons_of_mem _ ha)
    | read _ =>
      refine ⟨.form ((List.suffix_cons _ _).trans rest) fun a ha => ?_, Nat.le_succ _, Nat.le_refl _⟩
      exact known a (List.mem_cons_of_mem _ ha)

/-- A seed with a letter is in order itself, and one with the bottom marker leaves an
empty stack. -/
theorem orderly_of_mem_candidates_seed {d : Configuration}
    (hd : d ∈ g.compile.candidates (.seed w start)) :
    g.Orderly start w d ∧ Paces (.seed w start) d := by
  cases start with
  | letter c =>
    have seed : g.Orderly (.letter c) w (.ofForm w [c]) := .form List.suffix_rfl (by simp)
    exact seed.step hd
  | bottom =>
    cases w with
    | nil => cases hd
    | cons next unread =>
      rw [candidates_seed_bottom] at hd
      obtain rfl := List.mem_singleton.mp hd
      exact ⟨.form List.suffix_rfl (by simp), Nat.le_refl _, Nat.le_succ _⟩

/-- What a path adds to its seed is in order, at the pace of the input. -/
theorem orderly_of_path {path : List Configuration}
    (h : g.compile.Path (.seed w start) path) :
    ∃ later, path = later ++ [.seed w start] ∧ (∀ c ∈ later, g.Orderly start w c) ∧
      path.IsChain fun d c => Paces c d := by
  induction h with
  | first => exact ⟨[], rfl, by simp, .singleton _⟩
  | @lay c d path _ candidate ih =>
    obtain ⟨later, split, orderly, paced⟩ := ih
    have step : g.Orderly start w d ∧ Paces c d := by
      cases later with
      | nil =>
        obtain rfl : c = .seed w start := (List.cons.inj split).1
        exact orderly_of_mem_candidates_seed candidate
      | cons e later =>
        obtain rfl : c = e := (List.cons.inj split).1
        exact (orderly c List.mem_cons_self).step candidate
    refine ⟨d :: later, by rw [split]; rfl, List.forall_mem_cons.mpr ⟨step.1, orderly⟩, ?_⟩
    exact List.isChain_cons_cons.mpr ⟨step.2, paced⟩

/-- A chain of configurations as a search may leave it from the seed on. -/
structure WellFormed (g : Grammar) (start : StackSymbol) (w : Word) (chain : Chain) : Prop where
  seed : chain.head? = some (.seed w start)
  state : ∀ c ∈ chain, c.state = .initial
  input : ∀ c ∈ chain, c.input <:+ w
  stack : ∀ c ∈ chain, ∀ s ∈ c.stack, s ∈ g.compile.stackAlphabet ∨ s = start
  /-- Only the seed can hold the bottom marker, and only as its start symbol. -/
  marker : ∀ i c, chain[i]? = some c → .bottom ∈ c.stack → i = 0 ∧ start = .bottom
  pace : chain.IsChain Paces

theorem WellFormed.of_orderly {later : Chain} (orderly : ∀ c ∈ later, g.Orderly start w c)
    (paced : (.seed w start :: later).IsChain Paces) :
    g.WellFormed start w (.seed w start :: later) where
  seed := rfl
  state := List.forall_mem_cons.mpr ⟨rfl, fun c hc => by cases orderly c hc; rfl⟩
  input := List.forall_mem_cons.mpr ⟨List.suffix_rfl, fun c hc => by
    cases orderly c hc with
    | form rest _ => exact rest⟩
  stack := by
    refine List.forall_mem_cons.mpr ⟨fun s hs => .inr (List.mem_singleton.mp hs), ?_⟩
    intro c hc s hs
    cases orderly c hc with
    | form _ known =>
      obtain ⟨a, ha, rfl⟩ := List.mem_map.mp hs
      exact known a ha
  marker := by
    intro i c hi marked
    cases i with
    | zero =>
      cases hi
      exact ⟨rfl, (List.mem_singleton.mp marked).symm⟩
    | succ i =>
      cases orderly c (List.mem_of_getElem? hi) with
      | form _ _ => simp [Configuration.ofForm] at marked
  pace := paced

/-- At every moment of a search its chain is well formed. With pruning, the search
goes on only from its seed or from what does not outgrow its input. -/
theorem wellFormed_of_moment {pruning : Bool} {depth : Nat} {m : Moment}
    (h : m ∈ (g.recognizer start pruning).moments depth w) :
    g.WellFormed start w m.chain ∧
      (pruning = true → m.event = .extend → ∀ before b c, m.chain = before ++ [b, c] →
        c.stack.length ≤ c.input.length) := by
  have admits := Recognizer.admits_of_mem_moments h
  constructor
  · obtain ⟨later, split, orderly, paced⟩ := orderly_of_path admits.path
    have chain : m.chain = .seed w start :: later.reverse := by
      rw [Moment.chain, split, List.reverse_append]
      rfl
    rw [← List.isChain_reverse, ← Moment.chain, chain] at paced
    rw [chain]
    exact .of_orderly (fun c hc => orderly c (List.mem_reverse.mp hc)) paced
  · intro pruned goes before b c chain
    have path : m.path = c :: b :: before.reverse := by
      rw [← List.reverse_reverse m.path, ← Moment.chain, chain, List.reverse_append]
      rfl
    exact Configuration.length_le_of_kept pruned (admits.kept goes c b _ path)

/-- A rule that recurs on its left. Without pruning its stack grows for ever. -/
def stutter : Grammar := ⟨[⟨'S', [['S', 'a'], ['a']]⟩]⟩

def stutterGrowing : Moment :=
  ⟨.extend, [.ofForm ['a', 'a'] ['S', 'a', 'a', 'a'], .ofForm ['a', 'a'] ['S', 'a', 'a'],
    .ofForm ['a', 'a'] ['S', 'a'], .ofForm ['a', 'a'] ['S']]⟩

def stutterPruned : Moment :=
  ⟨.extend, [.ofForm ['a', 'a'] ['a', 'a'], .ofForm ['a', 'a'] ['S', 'a'],
    .ofForm ['a', 'a'] ['S']]⟩

theorem stutter_wellFormed :
    stutterGrowing ∈ (stutter.recognizer (.letter 'S') false).moments 3 ['a', 'a'] ∧
      stutter.WellFormed (.letter 'S') ['a', 'a'] stutterGrowing.chain ∧
      stutterPruned ∈ (stutter.recognizer (.letter 'S') true).moments 2 ['a', 'a'] ∧
      stutter.WellFormed (.letter 'S') ['a', 'a'] stutterPruned.chain ∧
      (Configuration.ofForm ['a', 'a'] ['a', 'a']).stack.length ≤ 2 := by
  have growing : stutterGrowing ∈ (stutter.recognizer (.letter 'S') false).moments 3 ['a', 'a'] := by
    decide
  have pruned : stutterPruned ∈ (stutter.recognizer (.letter 'S') true).moments 2 ['a', 'a'] := by
    decide
  obtain ⟨formed, fits⟩ := wellFormed_of_moment pruned
  have chain : stutterPruned.chain = [.ofForm ['a', 'a'] ['S']] ++
      [.ofForm ['a', 'a'] ['S', 'a'], .ofForm ['a', 'a'] ['a', 'a']] := rfl
  exact ⟨growing, (wellFormed_of_moment growing).1, pruned, formed, fits rfl rfl _ _ _ chain⟩

end LetterGrammar.Grammar
