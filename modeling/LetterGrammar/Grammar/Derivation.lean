import Mathlib.Logic.Relation
import LetterGrammar.Grammar

/-! Derivations. A step replaces one nonterminal of a form by an alternative of
the first rule that it heads; later rules with the same head take no part. A
leftmost step has no nonterminal before the one it replaces. A form spells a word
when, from the left, each letter that heads no rule stands for itself and each
nonterminal for one of its alternatives. This is derivation with every choice made
as late as possible: the words without nonterminals that a form derives are the
words it spells. -/

namespace LetterGrammar.Grammar

inductive Produces (g : Grammar) : Word → Word → Prop where
  | replace {n : Char} {r : Rule} {w : Word} (before after : Word)
      (rule : g.ruleFor? n = some r) (choice : w ∈ r.alternatives) :
      Produces g (before ++ n :: after) (before ++ w ++ after)

inductive ProducesLeftmost (g : Grammar) : Word → Word → Prop where
  | replace {n : Char} {r : Rule} {w : Word} (before after : Word)
      (settled : ∀ c ∈ before, c ∉ g.nonterminals)
      (rule : g.ruleFor? n = some r) (choice : w ∈ r.alternatives) :
      ProducesLeftmost g (before ++ n :: after) (before ++ w ++ after)

def Derives (g : Grammar) : Word → Word → Prop := Relation.ReflTransGen g.Produces

theorem ProducesLeftmost.produces {g : Grammar} {u v : Word} (h : g.ProducesLeftmost u v) :
    g.Produces u v := by
  cases h with
  | replace before after _ rule choice => exact .replace before after rule choice

theorem Produces.surround {g : Grammar} {u v : Word} (h : g.Produces u v) (left right : Word) :
    g.Produces (left ++ u ++ right) (left ++ v ++ right) := by
  cases h with
  | replace before after rule choice =>
    simpa using Produces.replace (left ++ before) (after ++ right) rule choice

theorem Derives.surround {g : Grammar} {u v : Word} (h : g.Derives u v) (left right : Word) :
    g.Derives (left ++ u ++ right) (left ++ v ++ right) := by
  induction h with
  | refl => exact .refl
  | tail _ step ih => exact ih.tail (step.surround left right)

/-- The form spells the word, letter by letter. -/
inductive Spells (g : Grammar) : Word → Word → Prop where
  | nil : Spells g [] []
  | letter {c : Char} {form word : Word} (settled : c ∉ g.nonterminals)
      (rest : Spells g form word) : Spells g (c :: form) (c :: word)
  | choose {n : Char} {r : Rule} {w form word : Word} (rule : g.ruleFor? n = some r)
      (choice : w ∈ r.alternatives) (rest : Spells g (w ++ form) word) :
      Spells g (n :: form) word

/-- No alternative is the empty word. -/
def Epsilonless (g : Grammar) : Prop := ∀ r ∈ g.rules, ∀ w ∈ r.alternatives, w ≠ []

theorem Epsilonless.length_pos {g : Grammar} (hg : g.Epsilonless) {n : Char} {r : Rule} {w : Word}
    (rule : g.ruleFor? n = some r) (choice : w ∈ r.alternatives) : 0 < w.length :=
  List.length_pos_iff.mpr (hg r (mem_of_ruleFor? rule) w choice)

theorem Spells.length_le {g : Grammar} (hg : g.Epsilonless) {form word : Word}
    (h : g.Spells form word) : form.length ≤ word.length := by
  induction h with
  | nil => exact Nat.le_refl _
  | letter _ _ ih => simpa using ih
  | choose rule choice _ ih =>
    have hw := hg.length_pos rule choice
    simp only [List.length_append, List.length_cons] at ih ⊢
    omega

theorem Spells.settled {g : Grammar} {form word : Word} (h : g.Spells form word) :
    ∀ c ∈ word, c ∉ g.nonterminals := by
  induction h with
  | nil => simp
  | letter settled _ ih => simpa using ⟨settled, ih⟩
  | choose _ _ _ ih => exact ih

theorem Spells.derives {g : Grammar} {form word : Word} (h : g.Spells form word) :
    g.Derives form word := by
  induction h with
  | nil => exact .refl
  | @letter c _ _ _ _ ih => simpa using ih.surround [c] []
  | @choose _ _ _ form _ rule choice _ ih => exact .head (.replace [] form rule choice) ih

theorem spells_self {g : Grammar} {w : Word} (h : ∀ c ∈ w, c ∉ g.nonterminals) :
    g.Spells w w := by
  induction w with
  | nil => exact .nil
  | cons c w ih =>
    exact .letter (h c List.mem_cons_self) (ih fun d hd => h d (List.mem_cons_of_mem c hd))

/-- A choice that was made first can be put off until its nonterminal is
reached. -/
theorem Spells.postpone {g : Grammar} {n : Char} {r : Rule} {w form word : Word}
    (rule : g.ruleFor? n = some r) (choice : w ∈ r.alternatives) (h : g.Spells form word)
    (before after : Word) (hform : form = before ++ (w ++ after)) :
    g.Spells (before ++ n :: after) word := by
  induction h generalizing before with
  | nil =>
    obtain ⟨rfl, hw⟩ := List.append_eq_nil_iff.mp hform.symm
    exact .choose rule choice (by rw [hw]; exact .nil)
  | letter settled rest ih =>
    cases before with
    | nil => exact .choose rule choice (hform ▸ .letter settled rest)
    | cons b before =>
      obtain ⟨rfl, hrest⟩ := List.cons.inj hform
      exact .letter settled (ih before hrest)
  | @choose _ _ w' _ _ rule' choice' rest ih =>
    cases before with
    | nil => exact .choose rule choice (hform ▸ .choose rule' choice' rest)
    | cons b before =>
      obtain ⟨rfl, rfl⟩ := List.cons.inj hform
      have later := ih (w' ++ before) (by simp)
      exact .choose rule' choice' (by simpa using later)

theorem Spells.of_produces {g : Grammar} {u v word : Word} (step : g.Produces u v)
    (h : g.Spells v word) : g.Spells u word := by
  cases step with
  | replace before after rule choice =>
    exact h.postpone rule choice before after (List.append_assoc before _ after)

theorem Spells.of_derives {g : Grammar} {u v word : Word} (steps : g.Derives u v)
    (h : g.Spells v word) : g.Spells u word := by
  induction steps using Relation.ReflTransGen.head_induction_on with
  | refl => exact h
  | head step _ ih => exact .of_produces step ih

theorem spells_iff_derives {g : Grammar} {form word : Word} :
    g.Spells form word ↔ (∀ c ∈ word, c ∉ g.nonterminals) ∧ g.Derives form word :=
  ⟨fun h => ⟨h.settled, h.derives⟩, fun ⟨settled, derives⟩ => .of_derives derives (spells_self settled)⟩

end LetterGrammar.Grammar
