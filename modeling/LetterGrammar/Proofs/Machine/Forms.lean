import LetterGrammar.Machine.Compile
import LetterGrammar.Proofs.Search.Exploration

/-! The machine of a grammar at work on forms. Its stack, read from the top, is
the part of a form that is still to be matched, and what it may do is to choose
an alternative for the first letter or to read that letter. Each of its moves is
one of these two steps. -/

namespace LetterGrammar

/-- The machine before the rest of the input, with a form on the stack. -/
def Configuration.ofForm (unread form : Word) : Configuration :=
  ⟨.initial, unread, form.map .letter⟩

namespace Configuration

theorem seed_letter (input : Word) (c : Char) : seed input (.letter c) = ofForm input [c] := rfl

theorem accepting_ofForm {unread form : Word} :
    (ofForm unread form).accepting = true ↔ unread = [] ∧ form = [] := by
  simp [ofForm, accepting]

theorem outgrowsInput_ofForm {unread form : Word} :
    (ofForm unread form).outgrowsInput = true ↔ unread.length < form.length := by
  simp [ofForm, outgrowsInput]

theorem successor_lambda_ofForm (unread form w : Word) (n : Char) :
    (ofForm unread (n :: form)).successor .lambda ⟨.initial, w.pushOrder⟩ =
      ofForm unread (w ++ form) := by
  simp [ofForm, successor, Guard.consumes, Word.pushOrder]

theorem successor_letter_ofForm (unread form : Word) (c d : Char) :
    (ofForm (c :: unread) (d :: form)).successor (.letter c) ⟨.initial, []⟩ =
      ofForm unread form := by
  simp [ofForm, successor, Guard.consumes]

end Configuration

namespace Transition

theorem applies_expansion (r : Rule) (next c : Char) :
    (expansion r).applies .initial next (.letter c) = (r.nonterminal == c) :=
  Bool.eq_iff_iff.mpr (by simp [applies_iff, expansion])

theorem applies_terminalMatch (a next c : Char) :
    (terminalMatch a).applies .initial next (.letter c) = (a == c && a == next) :=
  Bool.eq_iff_iff.mpr (by simp [applies_iff, terminalMatch])

end Transition

namespace Grammar

variable {g : Grammar}

theorem find?_compile_letter (g : Grammar) (next c : Char) :
    g.compile.find? .initial next (.letter c) =
      ((g.ruleFor? c).map .expansion).or
        ((g.terminals.find? fun a => a == c && a == next).map .terminalMatch) := by
  have rule : (Transition.applies · .initial next (.letter c)) ∘ Transition.expansion =
      fun r => r.nonterminal == c := funext fun r => Transition.applies_expansion r next c
  have terminal : (Transition.applies · .initial next (.letter c)) ∘ Transition.terminalMatch =
      fun a => a == c && a == next := funext fun a => Transition.applies_terminalMatch a next c
  have marker : [Transition.bottomPop].find? (·.applies .initial next (.letter c)) = none := rfl
  unfold Table.find? compile ruleFor?
  rw [List.find?_append, List.find?_append, List.find?_map, List.find?_map, rule, terminal, marker,
    Option.or_none]

theorem find?_compile_rule {next n : Char} {r : Rule} (rule : g.ruleFor? n = some r) :
    g.compile.find? .initial next (.letter n) = some (.expansion r) := by
  simp [find?_compile_letter, rule]

/-- A letter that heads no rule is there to be read. -/
theorem find?_compile_settled {next c : Char} (settled : g.ruleFor? c = none) :
    g.compile.find? .initial next (.letter c) =
      if c ∈ g.terminals ∧ c = next then some (.terminalMatch c) else none := by
  rw [find?_compile_letter, settled, Option.map_none, Option.none_or]
  cases hf : g.terminals.find? fun a => a == c && a == next with
  | some a =>
    have ha : a = c ∧ a = next := by simpa using List.find?_some hf
    obtain ⟨rfl, rfl⟩ := ha
    rw [if_pos ⟨List.mem_of_find?_eq_some hf, rfl⟩, Option.map_some]
  | none =>
    have unread := List.find?_eq_none.mp hf
    have other : ¬ (c ∈ g.terminals ∧ c = next) := by
      intro h
      obtain ⟨hc, rfl⟩ := h
      simpa using unread c hc
    rw [if_neg other, Option.map_none]

theorem find?_compile_bottom (g : Grammar) (next : Char) :
    g.compile.find? .initial next .bottom = some .bottomPop := by
  have lettered : ∀ t ∈ g.rules.map Transition.expansion ++ g.terminals.map Transition.terminalMatch,
      ¬ t.applies .initial next .bottom = true := by
    intro t ht happ
    have top := (Transition.applies_iff.mp happ).2.1
    rcases List.mem_append.mp ht with h | h
    · obtain ⟨_, _, rfl⟩ := List.mem_map.mp h
      cases top
    · obtain ⟨_, _, rfl⟩ := List.mem_map.mp h
      cases top
  rw [Table.find?, compile, List.find?_append, List.find?_eq_none.mpr lettered]
  rfl

/-- One step on a form and the rest of the input: choosing an alternative for
the first letter, or reading the first letter. Nothing is chosen once the input
has run out. -/
inductive FormStep (g : Grammar) : Word → Word → Word → Word → Prop where
  | choose {unread form w : Word} {n : Char} {r : Rule} (more : unread ≠ [])
      (rule : g.ruleFor? n = some r) (choice : w ∈ r.alternatives) :
      FormStep g unread (n :: form) unread (w ++ form)
  | read {unread form : Word} {c : Char} (terminal : c ∈ g.terminals) :
      FormStep g (c :: unread) (c :: form) unread form

theorem ruleFor?_eq_none_iff {n : Char} : g.ruleFor? n = none ↔ n ∉ g.nonterminals := by
  rw [← ruleFor?_isSome_iff]
  simp

theorem ruleFor?_of_mem_terminals {c : Char} (h : c ∈ g.terminals) : g.ruleFor? c = none :=
  ruleFor?_eq_none_iff.mpr (mem_terminals.mp h).2

theorem candidates_choose {next n : Char} {unread form : Word} {r : Rule}
    (rule : g.ruleFor? n = some r) :
    g.compile.candidates (.ofForm (next :: unread) (n :: form)) =
      r.alternatives.map fun w => .ofForm (next :: unread) (w ++ form) := by
  have ht : g.compile.transition? (.ofForm (next :: unread) (n :: form)) = some (.expansion r) :=
    find?_compile_rule rule
  rw [Table.candidates_of_transition ht]
  simp only [Transition.expansion, List.map_map]
  exact List.map_congr_left fun w _ => Configuration.successor_lambda_ofForm _ form w n

theorem candidates_read {next c : Char} {unread form : Word} (settled : g.ruleFor? c = none) :
    g.compile.candidates (.ofForm (next :: unread) (c :: form)) =
      if c ∈ g.terminals ∧ c = next then [.ofForm unread form] else [] := by
  have ht : g.compile.transition? (.ofForm (next :: unread) (c :: form)) =
      if c ∈ g.terminals ∧ c = next then some (.terminalMatch c) else none :=
    find?_compile_settled settled
  by_cases h : c ∈ g.terminals ∧ c = next
  · rw [if_pos h] at ht ⊢
    obtain ⟨-, rfl⟩ := h
    rw [Table.candidates_of_transition ht]
    simp [Transition.terminalMatch, Configuration.successor_letter_ofForm]
  · rw [if_neg h] at ht ⊢
    exact Table.candidates_of_stuck ht

theorem mem_candidates_ofForm {unread form : Word} {d : Configuration} :
    d ∈ g.compile.candidates (.ofForm unread form) ↔
      ∃ unread' form', g.FormStep unread form unread' form' ∧ d = .ofForm unread' form' := by
  constructor
  · intro h
    match unread, form with
    | [], _ => cases h
    | _ :: _, [] => cases h
    | next :: unread, n :: form =>
      cases hr : g.ruleFor? n with
      | some r =>
        rw [candidates_choose hr] at h
        obtain ⟨w, hw, rfl⟩ := List.mem_map.mp h
        exact ⟨_, _, .choose (List.cons_ne_nil _ _) hr hw, rfl⟩
      | none =>
        rw [candidates_read hr] at h
        split at h
        · next hc =>
          obtain ⟨hc, rfl⟩ := hc
          exact ⟨_, _, .read hc, List.mem_singleton.mp h⟩
        · cases h
  · intro h
    obtain ⟨unread', form', step, rfl⟩ := h
    cases step with
    | choose more rule choice =>
      obtain ⟨next, unread, rfl⟩ := List.exists_cons_of_ne_nil more
      rw [candidates_choose rule]
      exact List.mem_map.mpr ⟨_, choice, rfl⟩
    | read terminal =>
      rw [candidates_read (ruleFor?_of_mem_terminals terminal), if_pos ⟨terminal, rfl⟩]
      exact List.mem_singleton_self _

/-- The bottom marker is popped to leave an empty stack. -/
theorem candidates_seed_bottom (g : Grammar) (next : Char) (unread : Word) :
    g.compile.candidates (.seed (next :: unread) .bottom) = [.ofForm (next :: unread) []] := by
  have ht : g.compile.transition? (.seed (next :: unread) .bottom) = some .bottomPop :=
    find?_compile_bottom g next
  rw [Table.candidates_of_transition ht]
  rfl

def recognizer (g : Grammar) (start : StackSymbol) (pruning : Bool) : Recognizer :=
  ⟨g.compile, start, pruning⟩

end Grammar

end LetterGrammar
