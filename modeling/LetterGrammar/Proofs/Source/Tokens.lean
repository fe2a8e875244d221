import Mathlib.Data.List.Chain
import LetterGrammar.Proofs.Source.RuleLine

/-! Tokenising a rule line loses nothing, and its result is the only one of its
kind: many token lists spell the same body, one of them is canonical, and this is the
one the tokeniser finds. It works in rounds, one token each, and every round takes
something off the line. -/

namespace LetterGrammar.RuleLine

/-- No text is empty, holds a bar or stands beside another text. -/
structure Canonical (ts : List Token) : Prop where
  full : ∀ w, .text w ∈ ts → w ≠ [] ∧ '|' ∉ w
  /-- Of two neighbours at least one is a bar. -/
  apart : ts.IsChain fun s t => s = .bar ∨ t = .bar

theorem Canonical.tail {t : Token} {ts : List Token} (h : Canonical (t :: ts)) : Canonical ts where
  full w hw := h.full w (List.mem_cons_of_mem t hw)
  apart := h.apart.tail

/-- What comes after a text begins with a bar. -/
theorem Canonical.head?_after_text {w : Word} {ts : List Token} (h : Canonical (.text w :: ts)) :
    ∀ c ∈ (ts.flatMap Token.written).head?, c = '|' := by
  cases ts with
  | nil => simp
  | cons t ts =>
    obtain ⟨neighbours, _⟩ := List.isChain_cons_cons.mp h.apart
    obtain rfl : t = .bar := neighbours.resolve_left Token.noConfusion
    simp [Token.written]

theorem canonical_texts {w : Word} (h : '|' ∉ w) : Canonical (texts w) := by
  unfold texts
  split
  · exact ⟨by simp, .nil⟩
  · next nonempty => exact ⟨by simpa using ⟨nonempty, h⟩, .singleton _⟩

/-- A bar keeps the texts before it from those after it. -/
theorem Canonical.append_bar {us ts : List Token} (before : Canonical us) (after : Canonical ts) :
    Canonical (us ++ .bar :: ts) where
  full w hw := by
    rcases List.mem_append.mp hw with hw | hw
    · exact before.full w hw
    · exact after.full w (by simpa using hw)
  apart := by
    refine before.apart.append (List.isChain_cons.mpr ⟨fun _ _ => .inl rfl, after.apart⟩) ?_
    intro _ _ t ht
    exact .inr (Option.some.inj ht).symm

theorem canonical_tokens (body : Word) : Canonical (tokens body) := by
  -- piece by piece, not round by round: after a piece the next token is known to be a bar
  induction body using Text.pieces_induction '|' with
  | last w h => rw [tokens_of_unbarred h]; exact canonical_texts h
  | cut w rest h ih => rw [tokens_append_bar h]; exact (canonical_texts h).append_bar ih

theorem Canonical.tokens_written {ts : List Token} (h : Canonical ts) :
    tokens (ts.flatMap Token.written) = ts := by
  induction ts with
  | nil => rw [List.flatMap_nil, tokens]
  | cons t ts ih =>
    have later := ih h.tail
    rw [List.flatMap_cons]
    cases t with
    | bar => rw [Token.written, List.singleton_append, tokens_bar, later]
    | text w =>
      obtain ⟨nonempty, unbarred⟩ := h.full w List.mem_cons_self
      rw [Token.written, tokens_append nonempty unbarred h.head?_after_text, later]

theorem tokens_eq_iff {body : Word} {ts : List Token} :
    tokens body = ts ↔ Canonical ts ∧ body = ts.flatMap Token.written := by
  constructor
  · rintro rfl
    exact ⟨canonical_tokens body, (written_tokens body).symm⟩
  · rintro ⟨canonical, rfl⟩
    exact canonical.tokens_written

theorem read_eq_ok_iff {line : Word} {l : RuleLine} :
    read line = .ok l ↔ Capital l.nonterminal ∧
      ∃ body, line = l.nonterminal :: '>' :: body ∧ tokens body = l.body := by
  rw [← isUpper_iff_capital]
  constructor
  · intro h
    match line with
    | [] => cases h
    | n :: rest =>
      cases capital : n.isUpper with
      | false => rw [read_of_small_head (by simpa using capital)] at h; cases h
      | true =>
        by_cases arrow : rest.head? = some '>'
        · obtain ⟨body, rfl⟩ := List.head?_eq_some_iff.mp arrow
          rw [read_of_arrow capital] at h
          cases h
          exact ⟨capital, body, rfl, rfl⟩
        · rw [read_of_no_arrow capital arrow] at h; cases h
  · rintro ⟨capital, body, rfl, same⟩
    rw [read_of_arrow capital, same]

/-- One round of the tokeniser: the token it takes and what is left after it. At
the end of the line there is no round. -/
def takeToken? : Word → Option (Token × Word)
  | [] => none
  | c :: rest => if c = '|' then some (.bar, rest) else some (takeText (c :: rest))

theorem takeToken?_bar (rest : Word) : takeToken? ('|' :: rest) = some (.bar, rest) := by
  rw [takeToken?, if_pos rfl]

theorem takeToken?_text {c : Char} (rest : Word) (h : c ≠ '|') :
    takeToken? (c :: rest) = some (takeText (c :: rest)) := if_neg h

/-- Rounds one after another, with their tokens, down to what they leave. -/
inductive Rounds : Word → List Token → Word → Prop where
  | none (left : Word) : Rounds left [] left
  | next {line rest left : Word} {t : Token} {ts : List Token}
      (one : takeToken? line = some (t, rest)) (later : Rounds rest ts left) :
      Rounds line (t :: ts) left

theorem takeToken?_eq_some {line rest : Word} {t : Token} (h : takeToken? line = some (t, rest)) :
    line = t.written ++ rest ∧ t.written ≠ [] ∧ tokens line = t :: tokens rest := by
  cases line with
  | nil => cases h
  | cons c line =>
    rw [takeToken?] at h
    split at h
    · next bar =>
      cases h
      subst bar
      exact ⟨rfl, List.cons_ne_nil _ _, tokens_bar rest⟩
    · next other =>
      have whole : tokens (c :: line) = t :: tokens rest := by
        rw [tokens, if_neg other, Option.some.inj h]
      cases h
      have split := List.takeWhile_append_dropWhile (p := (· != '|')) (l := c :: line)
      refine ⟨split.symm, ?_, whole⟩
      simp [Token.written, other]

/-- What the rounds took off the line is spelled by their tokens, and is at least
one character for each of them. -/
theorem Rounds.spent {line left : Word} {ts : List Token} (h : Rounds line ts left) :
    line = ts.flatMap Token.written ++ left ∧ ts.length ≤ (ts.flatMap Token.written).length := by
  induction h with
  | none => exact ⟨rfl, Nat.le_refl _⟩
  | next one _ ih =>
    obtain ⟨split, nonempty, _⟩ := takeToken?_eq_some one
    obtain ⟨splitLater, lengthLater⟩ := ih
    have step := List.length_pos_iff.mpr nonempty
    rw [List.flatMap_cons, List.append_assoc, ← splitLater, List.length_append, List.length_cons]
    exact ⟨split, by omega⟩

theorem Rounds.tokens_eq {line left : Word} {ts : List Token} (h : Rounds line ts left) :
    tokens line = ts ++ tokens left := by
  induction h with
  | none => rfl
  | next one _ ih => rw [(takeToken?_eq_some one).2.2, ih, List.cons_append]

theorem rounds_tokens (body : Word) : Rounds body (tokens body) [] := by
  fun_induction tokens body with
  | case1 => exact .none []
  | case2 rest ih => exact .next (takeToken?_bar rest) ih
  | case3 c rest other ih => exact .next (takeToken?_text rest other) ih

theorem rounds_nil_iff {body : Word} {ts : List Token} : Rounds body ts [] ↔ tokens body = ts := by
  constructor
  · intro h
    simpa [tokens] using h.tokens_eq
  · rintro rfl
    exact rounds_tokens body

/-- A line is read exactly if it is the written form of a head and canonical tokens,
and then as these. Its body is what the rounds of the tokeniser take until nothing is
left, which they do on every line, since each of them takes at least one character. -/
theorem read_iff_written :
    (∀ line l, read line = .ok l ↔
      Capital l.nonterminal ∧ Canonical l.body ∧ line = l.written) ∧
    (∀ line l, read line = .ok l ↔
      Capital l.nonterminal ∧
        ∃ body, line = l.nonterminal :: '>' :: body ∧ Rounds body l.body []) ∧
    (∀ body ts, Rounds body ts [] ↔ ts = tokens body) ∧
    (∀ body ts left, Rounds body ts left →
      body = ts.flatMap Token.written ++ left ∧
        ts.length ≤ (ts.flatMap Token.written).length) := by
  refine ⟨fun line l => ?_, fun line l => ?_, fun body ts => ?_, fun _ _ _ => Rounds.spent⟩
  · simp only [read_eq_ok_iff, tokens_eq_iff, written]
    constructor
    · rintro ⟨capital, body, rfl, canonical, rfl⟩
      exact ⟨capital, canonical, rfl⟩
    · rintro ⟨capital, canonical, rfl⟩
      exact ⟨capital, _, rfl, canonical, rfl⟩
  · simp only [read_eq_ok_iff, rounds_nil_iff]
  · rw [rounds_nil_iff, eq_comm]

/-- Arrows after the first one are text, and nothing need stand between bars. -/
theorem arrows_read_written :
    read ['S', '>', '>', 'a', '|', '|', 'b'] =
        .ok ⟨'S', [.text ['>', 'a'], .bar, .bar, .text ['b']]⟩ ∧
      Rounds ['>', 'a', '|', '|', 'b'] [.text ['>', 'a'], .bar] ['|', 'b'] ∧
      ['>', 'a', '|', '|', 'b'] =
        [Token.text ['>', 'a'], .bar].flatMap Token.written ++ ['|', 'b'] ∧
      2 ≤ ['>', 'a', '|'].length := by
  obtain ⟨written, _, _, spent⟩ := read_iff_written
  have canonical : Canonical [.text ['>', 'a'], .bar, .bar, .text ['b']] :=
    ⟨by simp, by simp⟩
  have twice : Rounds ['>', 'a', '|', '|', 'b'] [.text ['>', 'a'], .bar] ['|', 'b'] :=
    .next (takeToken?_text _ (by decide)) (.next (takeToken?_bar _) (.none _))
  have capital : Capital 'S' := isUpper_iff_capital.mp rfl
  exact ⟨(written _ _).mpr ⟨capital, canonical, rfl⟩, twice, spent _ _ _ twice⟩

end LetterGrammar.RuleLine
