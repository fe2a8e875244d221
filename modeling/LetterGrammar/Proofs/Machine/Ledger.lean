import Mathlib.Algebra.Ring.Int.Defs
import LetterGrammar.Grammar.Derivation
import LetterGrammar.Proofs.Machine.Forms
import LetterGrammar.Proofs.Search.FirstRun

/-! What an accepted word costs. A link of an accepted chain reads a terminal, which
takes one symbol off the stack, or chooses an alternative, which puts the letters of
the alternative in the place of one symbol. The stack begins with one symbol and ends
with none, so in the end the choices have added one symbol less than the word has
letters. Nor can there be many of them where an alternative that adds nothing is a
terminal: it has to be read at once. -/

namespace LetterGrammar

/-- What one link of a chain does. -/
inductive Deed where
  | read (a : Char)
  | choose (n : Char) (v : Word)
deriving DecidableEq

namespace Deed

def letter? : Deed → Option Char
  | read a => some a
  | choose _ _ => none

def alternative? : Deed → Option Word
  | read _ => none
  | choose _ v => some v

/-- The letters that are read, in order. -/
def readings (deeds : List Deed) : Word := deeds.filterMap letter?

/-- The alternatives that are chosen, in order. -/
def choices (deeds : List Deed) : List Word := deeds.filterMap alternative?

@[simp] theorem choices_read (a : Char) (deeds : List Deed) :
    choices (.read a :: deeds) = choices deeds := rfl

@[simp] theorem choices_choose (n : Char) (v : Word) (deeds : List Deed) :
    choices (.choose n v :: deeds) = v :: choices deeds := rfl

end Deed

/-- By how many symbols these alternatives make a stack taller. An empty one makes it
smaller. -/
def growth (vs : List Word) : Int := (vs.map fun v => (v.length : Int) - 1).sum

theorem growth_cons (v : Word) (vs : List Word) :
    growth (v :: vs) = (v.length : Int) - 1 + growth vs := List.sum_cons

namespace Grammar

variable {g : Grammar} {pruning : Bool} {unread form : Word} {deeds : List Deed} {chain : Chain}

/-- A chain from a form before the rest of the input to acceptance, with the deed of
each of its links: the terminal on top is read from the input, or the nonterminal on
top gives way to an alternative of its first rule. -/
inductive Ledger (g : Grammar) : Word → Word → List Deed → Chain → Prop where
  | closed : Ledger g [] [] [] [.ofForm [] []]
  | read {unread form : Word} {a : Char} {deeds : List Deed} {chain : Chain}
      (terminal : a ∈ g.compile.inputAlphabet) (later : Ledger g unread form deeds chain) :
      Ledger g (a :: unread) (a :: form) (.read a :: deeds)
        (.ofForm (a :: unread) (a :: form) :: chain)
  | choose {unread form v : Word} {n : Char} {r : Rule} {deeds : List Deed} {chain : Chain}
      (rule : g.ruleFor? n = some r) (choice : v ∈ r.alternatives)
      (later : Ledger g unread (v ++ form) deeds chain) :
      Ledger g unread (n :: form) (.choose n v :: deeds) (.ofForm unread (n :: form) :: chain)

theorem exists_ledger_of_run {c : Configuration} {ks : List Nat}
    (run : g.compile.Run pruning c ks chain) (hc : c = .ofForm unread form) :
    ∃ deeds, g.Ledger unread form deeds chain := by
  induction run generalizing unread form with
  | done accepting =>
    subst hc
    obtain ⟨rfl, rfl⟩ := Configuration.accepting_ofForm.mp accepting
    exact ⟨[], .closed⟩
  | step place _ _ ih =>
    subst hc
    obtain ⟨_, _, step, rfl⟩ := mem_candidates_ofForm.mp (List.mem_of_getElem? place)
    obtain ⟨deeds, later⟩ := ih rfl
    cases step with
    | choose _ rule choice => exact ⟨_, .choose rule choice later⟩
    | read terminal => exact ⟨_, .read terminal later⟩

namespace Ledger

/-- All that is left of the input is read, letter by letter. -/
theorem readings_eq (h : g.Ledger unread form deeds chain) : Deed.readings deeds = unread := by
  induction h with
  | closed => rfl
  | read _ _ ih => exact congrArg (_ :: ·) ih
  | choose _ _ _ ih => exact ih

theorem known (h : g.Ledger unread form deeds chain) :
    ∀ a ∈ unread, a ∈ g.compile.inputAlphabet := by
  induction h with
  | closed => simp
  | read terminal _ ih => exact List.forall_mem_cons.mpr ⟨terminal, ih⟩
  | choose _ _ _ ih => exact ih

/-- One configuration is left over when each link has its deed. -/
theorem length_chain (h : g.Ledger unread form deeds chain) :
    chain.length = 1 + unread.length + (Deed.choices deeds).length := by
  induction h with
  | closed => rfl
  | read _ _ ih =>
    simp only [List.length_cons, Deed.choices_read]
    omega
  | choose _ _ _ ih =>
    simp only [List.length_cons, Deed.choices_choose]
    omega

/-- What the choices add to the stack makes up for what the readings take off it. -/
theorem length_add_growth (h : g.Ledger unread form deeds chain) :
    (form.length : Int) + growth (Deed.choices deeds) = unread.length := by
  induction h with
  | closed => rfl
  | read _ _ ih =>
    simp only [List.length_cons, Deed.choices_read]
    omega
  | choose _ _ _ ih =>
    simp only [List.length_cons, List.length_append, Deed.choices_choose, growth_cons] at ih ⊢
    omega

end Ledger

/-- No alternative is a nonterminal by itself. -/
def Unitless (g : Grammar) : Prop := ∀ r ∈ g.rules, ∀ n ∈ g.nonterminals, [n] ∉ r.alternatives

/-- What a form asks of the input, if each letter pays for two: one for each symbol, and
one more for a terminal on top, which is read before anything is chosen. -/
def due (g : Grammar) : Word → Nat
  | [] => 0
  | c :: form => form.length + if c ∈ g.nonterminals then 1 else 2

theorem due_of_head {n : Char} (hn : n ∈ g.nonterminals) (form : Word) :
    g.due (n :: form) = form.length + 1 := by
  rw [due, if_pos hn]

theorem due_of_settled {a : Char} (settled : a ∉ g.nonterminals) (form : Word) :
    g.due (a :: form) = form.length + 2 := by
  rw [due, if_neg settled]

theorem length_le_due (g : Grammar) (form : Word) : form.length ≤ g.due form := by
  cases form with
  | nil => exact Nat.le_refl _
  | cons c form =>
    simp only [due, List.length_cons]
    split <;> omega

theorem due_lt_of_choice (hg : g.Epsilonless) (hu : g.Unitless) {n : Char} {r : Rule} {v : Word}
    (rule : g.ruleFor? n = some r) (choice : v ∈ r.alternatives) (form : Word) :
    g.due (n :: form) < g.due (v ++ form) := by
  rw [due_of_head (mem_nonterminals_of_ruleFor? rule)]
  match v, hg.length_pos rule choice with
  | [b], _ =>
    -- nothing is added, but what is on top now can only be read
    have settled : b ∉ g.nonterminals := fun hb => hu r (mem_of_ruleFor? rule) b hb choice
    rw [List.singleton_append, due_of_settled settled]
    exact Nat.lt_succ_self _
  | a :: b :: v, _ =>
    have taller := g.length_le_due (a :: b :: v ++ form)
    simp only [List.length_append, List.length_cons] at taller
    omega

/-- Each choice raises what is due by one at least, each reading lowers it by two at
most. -/
theorem Ledger.choices_add_due_le (hg : g.Epsilonless) (hu : g.Unitless)
    (h : g.Ledger unread form deeds chain) :
    (Deed.choices deeds).length + g.due form ≤ 2 * unread.length := by
  induction h with
  | closed => exact Nat.le_refl _
  | @read _ form a _ _ terminal _ ih =>
    have settled : a ∉ g.nonterminals := (mem_terminals.mp terminal).2
    have below := g.length_le_due form
    simp only [Deed.choices_read, List.length_cons, due_of_settled settled]
    omega
  | @choose _ form _ _ _ _ _ rule choice _ ih =>
    have raised := due_lt_of_choice hg hu rule choice form
    simp only [Deed.choices_choose, List.length_cons]
    omega

/-- An accepted word is paid for letter by letter. All its letters are terminals, and
whichever way the chain is accounted for, its links read them one by one; the other
links choose, and what they choose makes the stack taller by one symbol less than the
word has letters. Where no alternative is empty or a nonterminal by itself, the chain
is at most three times as long as the word. -/
theorem ledger_of_accepted {c : Char} {w : Word} {tally : Tally}
    (h : (g.recognizer (.letter c) pruning).Answers w (.accepted chain) tally) :
    (∀ a ∈ w, a ∈ g.compile.inputAlphabet) ∧
      (∃ deeds, g.Ledger w [c] deeds chain) ∧
      (∀ deeds, g.Ledger w [c] deeds chain → Deed.readings deeds = w ∧
        chain.length = 1 + w.length + (Deed.choices deeds).length ∧
        growth (Deed.choices deeds) = (w.length : Int) - 1) ∧
      (g.Epsilonless → g.Unitless → chain.length ≤ 3 * w.length) := by
  obtain ⟨ks, first⟩ := h.firstRun
  obtain ⟨deeds, ledger⟩ := exists_ledger_of_run first.run (Configuration.seed_letter w c)
  refine ⟨ledger.known, ⟨deeds, ledger⟩, fun deeds' ledger' => ?_, fun hg hu => ?_⟩
  · have balance := ledger'.length_add_growth
    rw [List.length_singleton] at balance
    exact ⟨ledger'.readings_eq, ledger'.length_chain, by omega⟩
  · have links := ledger.length_chain
    have bound := ledger.choices_add_due_le hg hu
    have start := g.length_le_due [c]
    rw [List.length_singleton] at start
    omega

/-- Letters in a row, each chosen by itself. Accepted chains are as long as they can
be. -/
def rows : Grammar := ⟨[⟨'S', [['A', 'S'], ['a']]⟩, ⟨'A', [['a'], ['b']]⟩]⟩

def rowsChain : Chain :=
  [.ofForm ['b', 'a'] ['S'], .ofForm ['b', 'a'] ['A', 'S'], .ofForm ['b', 'a'] ['b', 'S'],
    .ofForm ['a'] ['S'], .ofForm ['a'] ['a'], .ofForm [] []]

theorem rows_ledger :
    (rows.recognizer (.letter 'S') true).Answers ['b', 'a'] (.accepted rowsChain) ⟨7, 1, 1⟩ ∧
      rows.Epsilonless ∧ rows.Unitless ∧ rowsChain.length ≤ 3 * 2 ∧
      ∃ deeds, rows.Ledger ['b', 'a'] ['S'] deeds rowsChain ∧
        Deed.readings deeds = ['b', 'a'] ∧ (Deed.choices deeds).length = 3 := by
  have h : (rows.recognizer (.letter 'S') true).Answers ['b', 'a'] (.accepted rowsChain)
      ⟨7, 1, 1⟩ := ⟨9, rfl⟩
  have hg : rows.Epsilonless := by unfold Epsilonless; decide
  have hu : rows.Unitless := by simp [Unitless, rows, nonterminals]
  obtain ⟨_, ⟨deeds, ledger⟩, accounts, bound⟩ := ledger_of_accepted h
  obtain ⟨readings, links, _⟩ := accounts deeds ledger
  refine ⟨h, hg, hu, bound hg hu, deeds, ledger, readings, ?_⟩
  have length : rowsChain.length = 6 := rfl
  simp only [length, List.length_cons, List.length_nil] at links
  omega

end Grammar

end LetterGrammar
