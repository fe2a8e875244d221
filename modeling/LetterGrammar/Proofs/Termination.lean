import Mathlib.Data.Finset.Card
import Mathlib.Data.Prod.Lex
import LetterGrammar.Proofs.Language

/-! When a search comes to an end. Pruning bounds the stack by the rest of the
input, so a search can only go on for ever by replacing one nonterminal by
another without growth. Where unit rules run in no circle, every step of a form
lowers its burden: the letters still to be read, then the room that is left for
the stack to grow, then the unit rules that still apply to the first letter.
Without pruning nothing bounds the stack, and only its top counts: where no
nonterminal can begin with itself, every step that reads nothing moves the first
letter down in the order of beginnings. -/

namespace LetterGrammar

/-- Where a relation on letters ends in a list and has no cycle, the letters can
be ranked along it. -/
theorem exists_rank_of_acyclic {R : Char → Char → Prop} {ends : List Char}
    (bounded : ∀ a b, R a b → b ∈ ends) (acyclic : ∀ a, ¬ Relation.TransGen R a a) :
    ∃ rank : Char → Nat, ∀ a b, R a b → rank b < rank a := by
  classical
  -- the rank of a letter counts the letters that it leads to
  let beyond (a : Char) : Finset Char := ends.toFinset.filter fun b => Relation.TransGen R a b
  refine ⟨fun a => (beyond a).card, ?_⟩
  intro a b hab
  have sub : beyond b ⊆ beyond a := by
    intro c hc
    obtain ⟨hc, hbc⟩ := Finset.mem_filter.mp hc
    exact Finset.mem_filter.mpr ⟨hc, .head hab hbc⟩
  have here : b ∈ beyond a :=
    Finset.mem_filter.mpr ⟨List.mem_toFinset.mpr (bounded a b hab), .single hab⟩
  have gone : b ∉ beyond b := fun hb => acyclic b (Finset.mem_filter.mp hb).2
  exact Finset.card_lt_card ((Finset.ssubset_iff_of_subset sub).mpr ⟨b, here, gone⟩)

theorem acyclic_of_rank {R : Char → Char → Prop} (rank : Char → Nat)
    (descends : ∀ a b, R a b → rank b < rank a) (a : Char) : ¬ Relation.TransGen R a a := by
  intro circle
  have lower : Relation.TransGen (· > ·) (rank a) (rank a) := circle.lift rank descends
  rw [Relation.transGen_eq_self] at lower
  exact Nat.lt_irrefl _ lower

namespace Grammar

variable {g : Grammar} {rank : Char → Nat}

/-- One nonterminal stands for another by itself. -/
def UnitStep (g : Grammar) (a b : Char) : Prop :=
  ∃ r, g.ruleFor? a = some r ∧ [b] ∈ r.alternatives ∧ b ∈ g.nonterminals

/-- The rank of the first letter, below all nonterminals if it is none. -/
def headRank (g : Grammar) (rank : Char → Nat) : Word → Nat
  | [] => 0
  | c :: _ => if c ∈ g.nonterminals then rank c + 1 else 0

/-- What is left to do, the weightiest first. -/
def burden (g : Grammar) (rank : Char → Nat) (unread form : Word) : Nat ×ₗ Nat ×ₗ Nat :=
  toLex (unread.length, toLex (unread.length - form.length, g.headRank rank form))

theorem headRank_lt {n b : Char} {form form' : Word} (hn : n ∈ g.nonterminals)
    (lower : b ∈ g.nonterminals → rank b < rank n) :
    g.headRank rank (b :: form') < g.headRank rank (n :: form) := by
  simp only [headRank, if_pos hn]
  by_cases hb : b ∈ g.nonterminals
  · have := lower hb
    rw [if_pos hb]
    omega
  · rw [if_neg hb]
    omega

theorem headRank_lt_of_unit (descends : ∀ a b, g.UnitStep a b → rank b < rank a) {n b : Char}
    {r : Rule} {form : Word} (rule : g.ruleFor? n = some r) (choice : [b] ∈ r.alternatives) :
    g.headRank rank (b :: form) < g.headRank rank (n :: form) :=
  headRank_lt (mem_nonterminals_of_ruleFor? rule) fun hb => descends n b ⟨r, rule, choice, hb⟩

theorem FormStep.burden_lt (hg : g.Epsilonless)
    (descends : ∀ a b, g.UnitStep a b → rank b < rank a) {unread form unread' form' : Word}
    (step : g.FormStep unread form unread' form') (fits : form'.length ≤ unread'.length) :
    g.burden rank unread' form' < g.burden rank unread form := by
  unfold burden
  rw [Prod.Lex.toLex_lt_toLex, Prod.Lex.toLex_lt_toLex]
  cases step with
  | read _ => exact .inl (by simp)
  | @choose _ form w n r _ rule choice =>
    refine .inr ⟨rfl, ?_⟩
    match w, hg.length_pos rule choice with
    | [b], _ =>
      have lower : g.headRank rank (b :: form) < g.headRank rank (n :: form) :=
        headRank_lt_of_unit descends rule choice
      exact .inr ⟨rfl, lower⟩
    | b :: c :: w, _ =>
      -- the stack grows, and pruning keeps it within the rest of the input
      left
      simp only [List.length_append, List.length_cons] at fits ⊢
      omega

/-- Where every step of a form, if pruning keeps it, lowers some measure, no moves
go on for ever. -/
theorem acc_of_measure {α : Type} [LT α] [WellFoundedLT α] {pruning : Bool}
    (measure : Word → Word → α)
    (falls : ∀ {unread form unread' form' : Word}, g.FormStep unread form unread' form' →
      (pruning = true → form'.length ≤ unread'.length) →
      measure unread' form' < measure unread form) (unread form : Word) :
    Acc (fun d c => g.compile.Moves pruning c d) (.ofForm unread form) := by
  induction hm : measure unread form using WellFoundedLT.induction generalizing unread form with
  | ind m ih =>
    subst hm
    refine Acc.intro _ fun d move => ?_
    obtain ⟨hd, kept⟩ := Table.moves_iff_mem_candidates.mp move
    obtain ⟨unread', form', step, rfl⟩ := mem_candidates_ofForm.mp hd
    have fits (pruned : pruning = true) : form'.length ≤ unread'.length := by
      simpa [Configuration.ofForm] using Configuration.length_le_of_kept pruned kept
    exact ih _ (falls step fits) unread' form' rfl

theorem acc_ofForm (hg : g.Epsilonless) (descends : ∀ a b, g.UnitStep a b → rank b < rank a)
    (unread form : Word) :
    Acc (fun d c => g.compile.Moves true c d) (.ofForm unread form) :=
  acc_of_measure (g.burden rank) (fun step fits => step.burden_lt hg descends (fits rfl)) unread form

/-- With pruning, a search ends on every input unless unit rules run in a circle.
Rules may recur on their left through longer alternatives. -/
theorem ends_of_acyclic_units (hg : g.Epsilonless)
    (acyclic : ∀ a, ¬ Relation.TransGen g.UnitStep a a) (start : StackSymbol) (w : Word) :
    (g.recognizer start true).Ends w := by
  have bounded : ∀ a b, g.UnitStep a b → b ∈ g.nonterminals := by
    intro a b h
    obtain ⟨_, _, _, hb⟩ := h
    exact hb
  obtain ⟨rank, descends⟩ := exists_rank_of_acyclic bounded acyclic
  cases start with
  | letter c => exact Recognizer.ends_of_acc (acc_ofForm hg descends w [c])
  | bottom => exact ends_from_bottom g true w

theorem sums_unitStep {a b : Char} (h : sums.UnitStep a b) : a = 'E' ∧ b = 'T' := by
  obtain ⟨r, rule, choice, hb⟩ := h
  have ha := nonterminal_of_ruleFor? rule
  have hr := mem_of_ruleFor? rule
  simp only [sums, List.mem_cons, List.not_mem_nil, or_false] at hr
  rcases hr with rfl | rfl | rfl
  · exact ⟨ha.symm, by simpa using choice⟩
  · obtain rfl : b = 'x' := by simpa using choice
    exact absurd hb (by decide)
  · obtain rfl : b = 'y' := by simpa using choice
    exact absurd hb (by decide)

theorem sums_ends :
    sums.Epsilonless ∧ (∀ a, ¬ Relation.TransGen sums.UnitStep a a) ∧
      (sums.recognizer (.letter 'E') true).Ends ['x', '+', 'x', '+', 'x'] := by
  have hg : sums.Epsilonless := by unfold Epsilonless; decide
  have acyclic : ∀ a, ¬ Relation.TransGen sums.UnitStep a a := by
    intro a circle
    -- a circle would leave and enter its letter by the one unit rule there is
    obtain ⟨_, first, _⟩ := Relation.TransGen.head'_iff.mp circle
    obtain ⟨_, _, last⟩ := Relation.TransGen.tail'_iff.mp circle
    have leaves := (sums_unitStep first).1
    have enters := (sums_unitStep last).2
    rw [leaves] at enters
    cases enters
  exact ⟨hg, acyclic, ends_of_acyclic_units hg acyclic _ _⟩

/-- One nonterminal can begin with another. -/
def LeftStep (g : Grammar) (a b : Char) : Prop :=
  ∃ r v, g.ruleFor? a = some r ∧ b :: v ∈ r.alternatives ∧ b ∈ g.nonterminals

/-- The letters still to be read, then what can come between now and the next
reading. -/
def delay (g : Grammar) (rank : Char → Nat) (unread form : Word) : Nat ×ₗ Nat :=
  toLex (unread.length, g.headRank rank form)

theorem FormStep.delay_lt (hg : g.Epsilonless)
    (descends : ∀ a b, g.LeftStep a b → rank b < rank a) {unread form unread' form' : Word}
    (step : g.FormStep unread form unread' form') :
    g.delay rank unread' form' < g.delay rank unread form := by
  unfold delay
  rw [Prod.Lex.toLex_lt_toLex]
  cases step with
  | read _ => exact .inl (by simp)
  | @choose _ form w n r _ rule choice =>
    match w, hg.length_pos rule choice with
    | b :: w, _ =>
      -- however long the alternative is, its first letter is what delays the next reading
      have lower : g.headRank rank (b :: (w ++ form)) < g.headRank rank (n :: form) :=
        headRank_lt (mem_nonterminals_of_ruleFor? rule) fun hb =>
          descends n b ⟨r, w, rule, choice, hb⟩
      exact .inr ⟨rfl, lower⟩

/-- Pruned or not, a search ends on every input unless some nonterminal can begin with
itself. -/
theorem ends_of_acyclic_beginnings (hg : g.Epsilonless)
    (acyclic : ∀ a, ¬ Relation.TransGen g.LeftStep a a) (start : StackSymbol) (pruning : Bool)
    (w : Word) : (g.recognizer start pruning).Ends w := by
  have bounded : ∀ a b, g.LeftStep a b → b ∈ g.nonterminals := by
    intro a b h
    obtain ⟨_, _, _, _, hb⟩ := h
    exact hb
  obtain ⟨rank, descends⟩ := exists_rank_of_acyclic bounded acyclic
  cases start with
  | letter c =>
    exact Recognizer.ends_of_acc
      (acc_of_measure (g.delay rank) (fun step _ => step.delay_lt hg descends) w [c])
  | bottom => exact ends_from_bottom g pruning w

/-- Sums and products with brackets, recursive on their right. The first rule for `E`
comes before one that would recur on its left. -/
def expressions : Grammar :=
  ⟨[⟨'E', [['T', '+', 'E'], ['T']]⟩, ⟨'T', [['F', '*', 'T'], ['F']]⟩,
    ⟨'F', [['(', 'E', ')'], ['x']]⟩, ⟨'E', [['E', '-', 'T']]⟩]⟩

theorem expressions_leftStep {a b : Char} (h : expressions.LeftStep a b) :
    (a = 'E' ∧ b = 'T') ∨ (a = 'T' ∧ b = 'F') := by
  obtain ⟨r, v, rule, choice, hb⟩ := h
  have ha := nonterminal_of_ruleFor? rule
  have hr := mem_of_ruleFor? rule
  simp only [expressions, List.mem_cons, List.not_mem_nil, or_false] at hr
  rcases hr with rfl | rfl | rfl | rfl
  · rcases (by simpa using choice) with ⟨rfl, -⟩ | ⟨rfl, -⟩ <;> exact .inl ⟨ha.symm, rfl⟩
  · rcases (by simpa using choice) with ⟨rfl, -⟩ | ⟨rfl, -⟩ <;> exact .inr ⟨ha.symm, rfl⟩
  · rcases (by simpa using choice) with ⟨rfl, -⟩ | ⟨rfl, -⟩ <;> exact absurd hb (by decide)
  · obtain rfl : 'E' = a := ha
    exact absurd rule (by decide)

theorem expressions_ends :
    expressions.Epsilonless ∧ (∀ a, ¬ Relation.TransGen expressions.LeftStep a a) ∧
      (expressions.recognizer (.letter 'E') false).Ends ['(', 'x', '+', 'x', ')', '*', 'x'] := by
  have hg : expressions.Epsilonless := by unfold Epsilonless; decide
  have acyclic : ∀ a, ¬ Relation.TransGen expressions.LeftStep a a := by
    refine acyclic_of_rank (fun c => if c = 'E' then 2 else if c = 'T' then 1 else 0) ?_
    intro a b h
    rcases expressions_leftStep h with ⟨rfl, rfl⟩ | ⟨rfl, rfl⟩ <;> decide
  exact ⟨hg, acyclic, ends_of_acyclic_beginnings hg acyclic _ false _⟩

end Grammar

end LetterGrammar
