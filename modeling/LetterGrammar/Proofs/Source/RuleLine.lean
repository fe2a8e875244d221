import LetterGrammar.Proofs.Text.Layout
import LetterGrammar.Source.Reading

/-! Which lines are rules, and what is wrong with the others. A line is a rule if
it begins with a capital letter and an arrow and none of the pieces that bars cut
the rest into is empty; these pieces are then its alternatives. Reading accepts
exactly these lines, and its defect is the first thing that is missing from the
left. -/

namespace LetterGrammar

/-- The line is the written form of the rule. White space is part of the
alternatives. -/
structure Rule.StandsOn (r : Rule) (line : Word) : Prop where
  capital : r.nonterminal.isUpper = true
  alternatives_ne_nil : r.alternatives ≠ []
  alternative_ne_nil : ∀ w ∈ r.alternatives, w ≠ []
  unbarred : ∀ w ∈ r.alternatives, '|' ∉ w
  written : line = r.written

/-- What a line lacks to be a rule. -/
inductive RuleDefect.Mars : RuleDefect → Word → Prop where
  | nonterminal {line : Word} (h : ∀ n ∈ line.head?, n.isUpper = false) :
      Mars .missingNonterminal line
  | arrow {n : Char} {rest : Word} (capital : n.isUpper = true) (h : rest.head? ≠ some '>') :
      Mars .missingArrow (n :: rest)
  | alternative {n : Char} {body : Word} (capital : n.isUpper = true)
      (h : [] ∈ body.splitOn '|') : Mars .emptyAlternative (n :: '>' :: body)

namespace RuleLine

/-- The tokens of a piece between bars. -/
def texts (w : Word) : List Token := if w = [] then [] else [.text w]

/-- A text reaches as far as there are no bars. -/
theorem tokens_append {w rest : Word} (nonempty : w ≠ []) (unbarred : '|' ∉ w)
    (ends : ∀ c ∈ rest.head?, c = '|') : tokens (w ++ rest) = .text w :: tokens rest := by
  obtain ⟨c, w, rfl⟩ := List.exists_cons_of_ne_nil nonempty
  have inside : ∀ x ∈ c :: w, (x != '|') = true := fun x hx => by
    simpa using ne_of_mem_of_not_mem hx unbarred
  have hc : c ≠ '|' := by simpa using inside c List.mem_cons_self
  have taken : takeText (c :: (w ++ rest)) = (.text (c :: w), rest) := by
    rw [takeText, ← List.cons_append, List.takeWhile_append_of_pos inside,
      List.dropWhile_append_of_pos inside]
    cases rest with
    | nil => simp
    | cons d rest => simp [ends d rfl]
  rw [List.cons_append, tokens, if_neg hc, taken]

theorem tokens_of_unbarred {w : Word} (h : '|' ∉ w) : tokens w = texts w := by
  unfold texts
  split
  · next empty => simp [empty, tokens]
  · next nonempty =>
    have whole : tokens (w ++ []) = .text w :: tokens [] := tokens_append nonempty h (by simp)
    simpa [tokens] using whole

theorem tokens_bar (rest : Word) : tokens ('|' :: rest) = .bar :: tokens rest := by
  rw [tokens, if_pos rfl]

theorem tokens_append_bar {w : Word} (h : '|' ∉ w) (rest : Word) :
    tokens (w ++ '|' :: rest) = texts w ++ .bar :: tokens rest := by
  unfold texts
  split
  · next empty => rw [empty, List.nil_append, tokens_bar, List.nil_append]
  · next nonempty => rw [tokens_append nonempty h (by simp), tokens_bar, List.singleton_append]

theorem bar_not_mem_texts (w : Word) : Token.bar ∉ texts w := by
  unfold texts
  split <;> simp

/-- Bars cut the tokens of a body where they cut the body. -/
theorem splitOn_tokens (body : Word) :
    (tokens body).splitOn .bar = (body.splitOn '|').map texts := by
  induction body using Text.pieces_induction '|' with
  | last w h =>
    rw [tokens_of_unbarred h, List.splitOn_eq_singleton h,
      List.splitOn_eq_singleton (bar_not_mem_texts w)]
    rfl
  | cut w rest h ih =>
    rw [tokens_append_bar h, List.splitOn_append_cons_self_of_not_mem h,
      List.splitOn_append_cons_self_of_not_mem (bar_not_mem_texts w), ih]
    rfl

theorem alternative_texts (w : Word) :
    alternative (texts w) = if w = [] then .error .emptyAlternative else .ok w := by
  unfold texts
  split <;> rfl

theorem mapM_alternative_texts (ws : List Word) :
    (ws.map texts).mapM alternative =
      if [] ∈ ws then .error .emptyAlternative else .ok ws := by
  induction ws with
  | nil => rfl
  | cons w ws ih =>
    rw [List.map_cons, List.mapM_cons, alternative_texts, ih]
    cases w with
    | nil => rw [if_pos rfl, if_pos List.mem_cons_self]; rfl
    | cons c w =>
      have rest : [] ∈ (c :: w) :: ws ↔ [] ∈ ws := by simp
      simp only [rest, List.cons_ne_nil, if_false]
      split <;> rfl

theorem read_of_small_head {line : Word} (h : ∀ n ∈ line.head?, n.isUpper = false) :
    read line = .error .missingNonterminal := by
  cases line with
  | nil => rfl
  | cons n rest =>
    have small : n.isUpper = false := h n rfl
    simp [read, takeNonterminal, small]

theorem read_of_no_arrow {n : Char} {rest : Word} (capital : n.isUpper = true)
    (h : rest.head? ≠ some '>') : read (n :: rest) = .error .missingArrow := by
  cases rest with
  | nil => simp [read, takeNonterminal, takeArrow, capital]
  | cons c body =>
    have other : c ≠ '>' := by simpa using h
    simp [read, takeNonterminal, takeArrow, capital, other]

theorem read_of_arrow {n : Char} (capital : n.isUpper = true) (body : Word) :
    read (n :: '>' :: body) = .ok ⟨n, tokens body⟩ := by
  simp [read, takeNonterminal, takeArrow, capital]

end RuleLine

namespace Rule

theorem read_of_headless {line : Word} {d : RuleDefect} (h : RuleLine.read line = .error d) :
    read line = .error d := by
  rw [read, h]
  rfl

theorem read_of_arrow {n : Char} (capital : n.isUpper = true) (body : Word) :
    read (n :: '>' :: body) =
      if [] ∈ body.splitOn '|' then .error .emptyAlternative else .ok ⟨n, body.splitOn '|'⟩ := by
  have pieces := RuleLine.mapM_alternative_texts (body.splitOn '|')
  rw [← RuleLine.splitOn_tokens] at pieces
  have alternatives : read (n :: '>' :: body) = (do
      let ws ← ((RuleLine.tokens body).splitOn .bar).mapM RuleLine.alternative
      return ⟨n, ws⟩) := by
    rw [read, RuleLine.read_of_arrow capital]
    rfl
  rw [alternatives, pieces]
  split <;> rfl

end Rule

theorem Rule.StandsOn.read_eq {r : Rule} {line : Word} (h : r.StandsOn line) :
    Rule.read line = .ok r := by
  have pieces : (List.intercalate ['|'] r.alternatives).splitOn '|' = r.alternatives :=
    List.splitOn_intercalate '|' h.unbarred h.alternatives_ne_nil
  have full : [] ∉ r.alternatives := fun gap => h.alternative_ne_nil [] gap rfl
  rw [h.written, Rule.written, Rule.read_of_arrow h.capital, pieces, if_neg full]

theorem Rule.StandsOn.ne_nil {r : Rule} {line : Word} (h : r.StandsOn line) : line ≠ [] := by
  rw [h.written]
  exact List.cons_ne_nil _ _

theorem RuleDefect.Mars.read_eq {d : RuleDefect} {line : Word} (h : d.Mars line) :
    Rule.read line = .error d := by
  cases h with
  | nonterminal small => exact Rule.read_of_headless (RuleLine.read_of_small_head small)
  | arrow capital other => exact Rule.read_of_headless (RuleLine.read_of_no_arrow capital other)
  | alternative capital gap => rw [Rule.read_of_arrow capital, if_pos gap]

namespace Rule

theorem standsOn_pieces {n : Char} {body : Word} (capital : n.isUpper = true)
    (full : [] ∉ body.splitOn '|') : StandsOn ⟨n, body.splitOn '|'⟩ (n :: '>' :: body) where
  capital := capital
  alternatives_ne_nil := List.splitOn_ne_nil '|' body
  alternative_ne_nil := fun _ hw => ne_of_mem_of_not_mem hw full
  unbarred := fun _ hw => Text.not_mem_of_mem_splitOn hw
  written := by rw [written, List.intercalate_splitOn]

/-- Every line either lacks something or is the line of a rule. -/
theorem mars_or_standsOn (line : Word) :
    (∃ d : RuleDefect, d.Mars line) ∨ ∃ r : Rule, r.StandsOn line := by
  match line with
  | [] => exact .inl ⟨_, .nonterminal (by simp)⟩
  | n :: rest =>
    cases capital : n.isUpper with
    | false => exact .inl ⟨_, .nonterminal (by simpa using capital)⟩
    | true =>
      by_cases arrow : rest.head? = some '>'
      · obtain ⟨body, rfl⟩ := List.head?_eq_some_iff.mp arrow
        by_cases gap : [] ∈ body.splitOn '|'
        · exact .inl ⟨_, .alternative capital gap⟩
        · exact .inr ⟨_, standsOn_pieces capital gap⟩
      · exact .inl ⟨_, .arrow capital arrow⟩

theorem read_eq_ok_iff {line : Word} {r : Rule} : read line = .ok r ↔ r.StandsOn line := by
  refine ⟨fun h => ?_, StandsOn.read_eq⟩
  rcases mars_or_standsOn line with ⟨d, mars⟩ | ⟨r', stands⟩
  · rw [mars.read_eq] at h
    cases h
  · rw [stands.read_eq] at h
    cases h
    exact stands

theorem read_eq_error_iff {line : Word} {d : RuleDefect} : read line = .error d ↔ d.Mars line := by
  refine ⟨fun h => ?_, RuleDefect.Mars.read_eq⟩
  rcases mars_or_standsOn line with ⟨d', mars⟩ | ⟨r, stands⟩
  · rw [mars.read_eq] at h
    cases h
    exact mars
  · rw [stands.read_eq] at h
    cases h

end Rule

/-- One of the letters from `A` to `Z`. -/
def Capital (n : Char) : Prop := 'A' ≤ n ∧ n ≤ 'Z'

theorem isUpper_iff_capital {n : Char} : n.isUpper = true ↔ Capital n := decide_eq_true_iff

theorem Rule.standsOn_iff {r : Rule} {line : Word} :
    r.StandsOn line ↔
      Capital r.nonterminal ∧ r.alternatives ≠ [] ∧
        (∀ w ∈ r.alternatives, w ≠ [] ∧ '|' ∉ w) ∧
        line = r.nonterminal :: '>' :: List.intercalate ['|'] r.alternatives := by
  constructor
  · intro h
    have full (w : Word) (hw : w ∈ r.alternatives) : w ≠ [] ∧ '|' ∉ w :=
      ⟨h.alternative_ne_nil w hw, h.unbarred w hw⟩
    exact ⟨isUpper_iff_capital.mp h.capital, h.alternatives_ne_nil, full, h.written⟩
  · rintro ⟨capital, some, full, written⟩
    exact ⟨isUpper_iff_capital.mpr capital, some, fun w hw => (full w hw).1,
      fun w hw => (full w hw).2, written⟩

namespace RuleDefect

theorem mars_missingNonterminal_iff {line : Word} :
    missingNonterminal.Mars line ↔ ∀ n ∈ line.head?, ¬ Capital n := by
  simp only [← isUpper_iff_capital, Bool.not_eq_true]
  constructor
  · intro h
    cases h with
    | nonterminal small => exact small
  · exact .nonterminal

theorem mars_missingArrow_iff {line : Word} :
    missingArrow.Mars line ↔ (∃ n ∈ line.head?, Capital n) ∧ line.tail.head? ≠ some '>' := by
  simp only [← isUpper_iff_capital]
  constructor
  · intro h
    cases h with
    | arrow capital other => exact ⟨⟨_, rfl, capital⟩, other⟩
  · rintro ⟨⟨n, head, capital⟩, other⟩
    obtain ⟨rest, rfl⟩ := List.head?_eq_some_iff.mp head
    exact .arrow capital other

theorem mars_emptyAlternative_iff {line : Word} :
    emptyAlternative.Mars line ↔
      (∃ n ∈ line.head?, Capital n) ∧ line.tail.head? = some '>' ∧
        [] ∈ (line.drop 2).splitOn '|' := by
  simp only [← isUpper_iff_capital]
  constructor
  · intro h
    cases h with
    | alternative capital gap => exact ⟨⟨_, rfl, capital⟩, rfl, gap⟩
  · rintro ⟨⟨n, head, capital⟩, arrow, gap⟩
    obtain ⟨rest, rfl⟩ := List.head?_eq_some_iff.mp head
    obtain ⟨body, rfl⟩ : ∃ body, rest = '>' :: body := List.head?_eq_some_iff.mp arrow
    exact .alternative capital gap

end RuleDefect

/-- A line is read as a rule exactly if it is a capital letter, an arrow and pieces
between bars, none of them empty; these are the alternatives. Of any other line the
defect is the first of these that it lacks, from the left. -/
theorem Rule.read_line_cases (line : Word) :
    (∀ r, read line = .ok r ↔
      Capital r.nonterminal ∧ r.alternatives ≠ [] ∧
        (∀ w ∈ r.alternatives, w ≠ [] ∧ '|' ∉ w) ∧
        line = r.nonterminal :: '>' :: List.intercalate ['|'] r.alternatives) ∧
    (read line = .error .missingNonterminal ↔ ∀ n ∈ line.head?, ¬ Capital n) ∧
    (read line = .error .missingArrow ↔
      (∃ n ∈ line.head?, Capital n) ∧ line.tail.head? ≠ some '>') ∧
    (read line = .error .emptyAlternative ↔
      (∃ n ∈ line.head?, Capital n) ∧ line.tail.head? = some '>' ∧
        [] ∈ (line.drop 2).splitOn '|') := by
  refine ⟨fun r => read_eq_ok_iff.trans standsOn_iff, ?_, ?_, ?_⟩
  · exact read_eq_error_iff.trans RuleDefect.mars_missingNonterminal_iff
  · exact read_eq_error_iff.trans RuleDefect.mars_missingArrow_iff
  · exact read_eq_error_iff.trans RuleDefect.mars_emptyAlternative_iff

end LetterGrammar
