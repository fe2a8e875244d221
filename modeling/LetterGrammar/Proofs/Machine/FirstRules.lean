import LetterGrammar.Proofs.Machine.Forms
import LetterGrammar.Proofs.Search.Correspondence

/-! Only first rules count. Grammars with the same first rule for each nonterminal
may order their rules differently and differ in all later ones; their tables then
differ in the order of transitions and in the terminals that only later rules
bring. Neither is ever felt: a table's answer for a letter does not depend on the
order, and no letter that only a later rule holds gets onto the stack. So searches
from a start that both grammars know alike take the same course. -/

namespace LetterGrammar

attribute [ext] Rule

namespace Grammar

variable {g g' : Grammar}

/-- The same nonterminals, each with the same alternatives in its first rule. -/
structure SameFirstRules (g g' : Grammar) : Prop where
  nonterminals : ∀ n, n ∈ g.nonterminals ↔ n ∈ g'.nonterminals
  alternatives : ∀ n r r', g.ruleFor? n = some r → g'.ruleFor? n = some r' →
    r.alternatives = r'.alternatives

theorem SameFirstRules.ruleFor?_eq (same : g.SameFirstRules g') (n : Char) :
    g.ruleFor? n = g'.ruleFor? n := by
  have heads := same.nonterminals n
  rw [← ruleFor?_isSome_iff, ← ruleFor?_isSome_iff] at heads
  cases hr : g.ruleFor? n with
  | none =>
    have missing : g'.ruleFor? n = none := by simpa [hr] using heads
    exact missing.symm
  | some r =>
    obtain ⟨r', hr'⟩ := Option.isSome_iff_exists.mp (heads.mp (by rw [hr]; rfl))
    have head : r.nonterminal = r'.nonterminal :=
      (nonterminal_of_ruleFor? hr).trans (nonterminal_of_ruleFor? hr').symm
    have body : r.alternatives = r'.alternatives := same.alternatives n r r' hr hr'
    rw [hr', Rule.ext head body]

/-- It is enough to look at the nonterminals of both. -/
theorem sameFirstRules_iff :
    g.SameFirstRules g' ↔
      ∀ n ∈ g.nonterminals ++ g'.nonterminals, g.ruleFor? n = g'.ruleFor? n := by
  constructor
  · intro same n _
    exact same.ruleFor?_eq n
  · intro h
    have heads (n : Char) : n ∈ g.nonterminals ↔ n ∈ g'.nonterminals := by
      constructor
      · intro hn
        rwa [← ruleFor?_isSome_iff, ← h n (List.mem_append_left _ hn), ruleFor?_isSome_iff]
      · intro hn
        rwa [← ruleFor?_isSome_iff, h n (List.mem_append_right _ hn), ruleFor?_isSome_iff]
    refine ⟨heads, fun n r r' hr hr' => ?_⟩
    have hn : n ∈ g.nonterminals := mem_nonterminals_of_ruleFor? hr
    rw [h n (List.mem_append_left _ hn), hr'] at hr
    rw [Option.some.inj hr]

instance : Decidable (g.SameFirstRules g') :=
  @decidable_of_iff _ _ sameFirstRules_iff.symm (List.decidableBAll _ _)

/-- Both grammars know the letter as a terminal, or neither does. -/
def KnownAlike (g g' : Grammar) (c : Char) : Prop := c ∈ g.terminals ↔ c ∈ g'.terminals

/-- The letters of first rules are letters of both. -/
theorem SameFirstRules.knownAlike (same : g.SameFirstRules g') {n c : Char} {r : Rule} {w : Word}
    (rule : g.ruleFor? n = some r) (choice : w ∈ r.alternatives) (hc : c ∈ w) :
    g.KnownAlike g' c := by
  have rule' : g'.ruleFor? n = some r := same.ruleFor?_eq n ▸ rule
  have here : c ∈ g.letters := mem_letters.mpr ⟨r, mem_of_ruleFor? rule, w, choice, hc⟩
  have there : c ∈ g'.letters := mem_letters.mpr ⟨r, mem_of_ruleFor? rule', w, choice, hc⟩
  simp only [KnownAlike, mem_terminals, here, there, true_and, same.nonterminals c]

theorem FormStep.knownAlike (same : g.SameFirstRules g') {unread form unread' form' : Word}
    (step : g.FormStep unread form unread' form') (known : ∀ c ∈ form, g.KnownAlike g' c) :
    ∀ c ∈ form', g.KnownAlike g' c := by
  cases step with
  | choose _ rule choice =>
    intro c hc
    rcases List.mem_append.mp hc with hc | hc
    · exact same.knownAlike rule choice hc
    · exact known c (List.mem_cons_of_mem _ hc)
  | read _ => exact fun c hc => known c (List.mem_cons_of_mem _ hc)

theorem candidates_eq_of_knownAlike (same : g.SameFirstRules g') {unread form : Word}
    (known : ∀ c ∈ form, g.KnownAlike g' c) :
    g.compile.candidates (.ofForm unread form) = g'.compile.candidates (.ofForm unread form) := by
  match unread, form with
  | [], _ => rfl
  | _ :: _, [] => rfl
  | next :: unread, n :: form =>
    have rules := same.ruleFor?_eq n
    cases hr : g.ruleFor? n with
    | some r => rw [candidates_choose hr, candidates_choose (rules.symm.trans hr)]
    | none =>
      have head : n ∈ g.terminals ↔ n ∈ g'.terminals := known n List.mem_cons_self
      rw [candidates_read hr, candidates_read (rules.symm.trans hr)]
      simp only [head]

/-- What both machines can be in on the same input. -/
inductive Shared (g g' : Grammar) : Configuration → Configuration → Prop where
  | form (unread : Word) {form : Word} (known : ∀ c ∈ form, g.KnownAlike g' c) :
      Shared g g' (.ofForm unread form) (.ofForm unread form)
  | bottom (input : Word) : Shared g g' (.seed input .bottom) (.seed input .bottom)

theorem Shared.eq {c c' : Configuration} (h : g.Shared g' c c') : c = c' := by
  cases h <;> rfl

theorem corresponds_of_sameFirstRules (same : g.SameFirstRules g') :
    g.compile.Corresponds g'.compile (g.Shared g') where
  accepting _ _ h := by rw [h.eq]
  outgrowsInput _ _ h := by rw [h.eq]
  candidates c c' h := by
    cases h with
    | form unread known =>
      rw [← candidates_eq_of_knownAlike same known, List.forall₂_same]
      intro d hd
      obtain ⟨unread', form', step, rfl⟩ := mem_candidates_ofForm.mp hd
      exact .form unread' (step.knownAlike same known)
    | bottom input =>
      cases input with
      | nil => exact .nil
      | cons next unread =>
        rw [candidates_seed_bottom, candidates_seed_bottom]
        exact .cons (.form _ (by simp)) .nil

/-- Where each nonterminal has the same first rule in two grammars, searches from a
start symbol that is in both input alphabets or in neither end together, with the
same verdict, the same chain and the same tally. -/
theorem answers_iff_of_sameFirstRules (same : g.SameFirstRules g') (start : StackSymbol)
    (known : ∀ c, start = .letter c →
      (c ∈ g.compile.inputAlphabet ↔ c ∈ g'.compile.inputAlphabet))
    (pruning : Bool) (w : Word) :
    ((g.recognizer start pruning).Ends w ↔ (g'.recognizer start pruning).Ends w) ∧
      ∀ v tally, (g.recognizer start pruning).Answers w v tally ↔
        (g'.recognizer start pruning).Answers w v tally := by
  have seeds : g.Shared g' (.seed w start) (.seed w start) := by
    cases start with
    | bottom => exact .bottom w
    | letter c =>
      have alike : ∀ a ∈ [c], g.KnownAlike g' a := by
        intro a ha
        obtain rfl := List.mem_singleton.mp ha
        exact known a rfl
      exact .form w alike
  have courses : (g.recognizer start pruning).Corresponds (g'.recognizer start pruning)
      (g.Shared g') w w := ⟨corresponds_of_sameFirstRules same, rfl, seeds⟩
  refine ⟨courses.ends_iff, fun v tally => ?_⟩
  rw [courses.answers_iff (f := id) fun _ _ h => h.eq]
  simp only [Verdict.map_id, exists_eq_right]

/-- Lists in brackets, with a rule for `L` that comes too late. -/
def lists : Grammar := ⟨[⟨'L', [['(', 'I', ')']]⟩, ⟨'I', [['x', ',', 'I'], ['x']]⟩, ⟨'L', [['y']]⟩]⟩

/-- The same lists, the rules in another order and others too late. -/
def listsReordered : Grammar :=
  ⟨[⟨'I', [['x', ',', 'I'], ['x']]⟩, ⟨'L', [['(', 'I', ')']]⟩, ⟨'I', [['z'], ['(']]⟩]⟩

theorem lists_answers :
    lists.SameFirstRules listsReordered ∧
      ∃ v, v.isAccepted = true ∧
        (lists.recognizer (.letter 'L') true).Answers ['(', 'x', ',', 'x', ')'] v ⟨9, 1, 0⟩ ∧
        (listsReordered.recognizer (.letter 'L') true).Answers ['(', 'x', ',', 'x', ')'] v
          ⟨9, 1, 0⟩ := by
  have same : lists.SameFirstRules listsReordered := by decide
  have h : (lists.recognizer (.letter 'L') true).Answers ['(', 'x', ',', 'x', ')'] _ ⟨9, 1, 0⟩ :=
    ⟨20, rfl⟩
  have known : ∀ c, StackSymbol.letter 'L' = .letter c →
      (c ∈ lists.compile.inputAlphabet ↔ c ∈ listsReordered.compile.inputAlphabet) := by
    intro c hc
    obtain rfl := StackSymbol.letter.inj hc
    decide
  exact ⟨same, _, rfl, h, ((answers_iff_of_sameFirstRules same _ known true _).2 _ _).mp h⟩

end Grammar

end LetterGrammar
