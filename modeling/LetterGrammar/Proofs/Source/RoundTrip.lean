import LetterGrammar.Proofs.Source.Reading
import LetterGrammar.Proofs.Text.Encoding

/-! Reading undoes writing. A grammar can be laid out as text in many ways: rules
may stand between white space, lines may be blank, and endings differ. A text is
read as a grammar exactly when it is a layout of that grammar and the grammar is
renderable, that is, when its rules can be told apart again. -/

namespace LetterGrammar

/-- White space that does not end a line. -/
def Padding (pad : Word) : Prop := ∀ c ∈ pad, Text.isBlank c = true ∧ c ≠ '\n'

/-- A line without its ending: nothing but padding, or a rule with padding around
it. -/
inductive LineOf : Option Rule → Word → Prop where
  | blank {pad : Word} (padding : Padding pad) : LineOf none pad
  | rule {before after : Word} (r : Rule) (left : Padding before) (right : Padding after) :
      LineOf (some r) (before ++ (r.written ++ after))

/-- Rules and a text that they can be written as, line by line. The last line
needs no ending. -/
inductive Layout : List Rule → Word → Prop where
  | last {o : Option Rule} {line : Word} (h : LineOf o line) : Layout o.toList line
  | ended {o : Option Rule} {rules : List Rule} {line ending rest : Word} (h : LineOf o line)
      (ends : ending = ['\n'] ∨ ending = ['\r', '\n']) (later : Layout rules rest) :
      Layout (o.toList ++ rules) (line ++ (ending ++ rest))

namespace Padding

theorem blank {pad : Word} (h : Padding pad) : ∀ c ∈ pad, Text.isBlank c = true :=
  fun c hc => (h c hc).1

theorem unbroken {pad : Word} (h : Padding pad) : '\n' ∉ pad := fun hc => (h _ hc).2 rfl

theorem append {pad pad' : Word} (h : Padding pad) (h' : Padding pad') : Padding (pad ++ pad') :=
  List.forall_mem_append.mpr ⟨h, h'⟩

theorem of_blank {pad : Word} (blank : ∀ c ∈ pad, Text.isBlank c = true) (unbroken : '\n' ∉ pad) :
    Padding pad :=
  fun c hc => ⟨blank c hc, ne_of_mem_of_not_mem hc unbroken⟩

theorem nil : Padding [] := List.forall_mem_nil _

theorem returned : Padding ['\r'] := by
  simp only [Padding, List.forall_mem_singleton]
  decide

end Padding

namespace Rule

theorem isBlank_of_isUpper {n : Char} (h : n.isUpper = true) : Text.isBlank n = false := by
  have bounds : 'A'.val ≤ n.val ∧ n.val ≤ 'Z'.val := of_decide_eq_true h
  obtain ⟨least, greatest⟩ : 65 ≤ n.toNat ∧ n.toNat ≤ 90 := by
    simpa [UInt32.le_iff_toNat_le] using bounds
  have apart : ∀ r ∈ Text.blanks, r.2 < 65 ∨ 90 < r.1 := by decide
  rw [Text.isBlank, Bool.eq_false_iff, ne_eq, Text.Ranges.has_iff]
  rintro ⟨r, hr, low, high⟩
  rcases apart r hr with below | above <;> omega

theorem mem_intercalate_bar {c : Char} (h : c ≠ '|') (ws : List Word) :
    c ∈ List.intercalate ['|'] ws ↔ ∃ w ∈ ws, c ∈ w := by
  induction ws with
  | nil => simp
  | cons w ws ih =>
    cases ws with
    | nil => simp
    | cons v ws => simp [List.intercalate_cons_cons, ih, h]

/-- The last alternative is at the end of what is written. -/
theorem exists_intercalate_concat (ws : List Word) (w : Word) :
    ∃ before, List.intercalate ['|'] (ws ++ [w]) = before ++ w := by
  induction ws with
  | nil => exact ⟨[], List.intercalate_singleton⟩
  | cons v ws ih =>
    obtain ⟨before, ih⟩ := ih
    refine ⟨v ++ ['|'] ++ before, ?_⟩
    rw [List.cons_append, List.intercalate_cons_of_ne_nil (List.concat_ne_nil w ws), ih,
      List.append_assoc (v ++ ['|'])]

theorem newline_mem_written {r : Rule} (capital : r.nonterminal.isUpper = true) :
    '\n' ∈ r.written ↔ ∃ w ∈ r.alternatives, '\n' ∈ w := by
  have head : '\n' ≠ r.nonterminal := fun h => absurd (h ▸ capital) (by decide)
  rw [written, List.mem_cons, List.mem_cons, mem_intercalate_bar (by decide)]
  simp [head]

theorem getLast?_written {r : Rule} {w : Word} (last : r.alternatives.getLast? = some w)
    (nonempty : w ≠ []) : r.written.getLast? = w.getLast? := by
  obtain ⟨ws, hw⟩ := List.getLast?_eq_some_iff.mp last
  obtain ⟨before, written_eq⟩ := exists_intercalate_concat ws w
  have split : r.written = r.nonterminal :: '>' :: before ++ w := by
    rw [written, hw, written_eq]
    rfl
  rw [split, List.getLast?_append_of_ne_nil _ nonempty]

/-- A rule is renderable when it stands on the line that it is written as, the line
is one line, and no white space at its end would be lost. -/
theorem renderable_iff {r : Rule} :
    r.Renderable ↔ r.StandsOn r.written ∧ '\n' ∉ r.written ∧
      ∀ c ∈ r.written.getLast?, Text.isBlank c = false := by
  constructor
  · intro h
    refine ⟨⟨h.capital, h.alternatives_ne_nil, h.alternative_ne_nil, h.unbarred, rfl⟩, ?_, ?_⟩
    · rw [newline_mem_written h.capital]
      rintro ⟨w, hw, broken⟩
      exact h.unbroken w hw broken
    · have last := List.getLast?_eq_some_getLast h.alternatives_ne_nil
      have nonempty := h.alternative_ne_nil _ (List.mem_of_getLast? last)
      rw [getLast?_written last nonempty, ← h.trimmed _ last]
      exact Text.getLast_trimEnd _
  · rintro ⟨stands, unbroken, ends⟩
    exact {
      capital := stands.capital
      alternatives_ne_nil := stands.alternatives_ne_nil
      alternative_ne_nil := stands.alternative_ne_nil
      unbarred := stands.unbarred
      unbroken := fun w hw broken =>
        unbroken ((newline_mem_written stands.capital).mpr ⟨w, hw, broken⟩)
      trimmed := fun w last => by
        have nonempty := stands.alternative_ne_nil w (List.mem_of_getLast? last)
        rw [getLast?_written last nonempty] at ends
        exact Text.trimEnd_of_ends ends }

end Rule

namespace LineOf

theorem none_iff {line : Word} : LineOf none line ↔ Text.Trims line [] ∧ '\n' ∉ line := by
  constructor
  · intro h
    cases h with
    | blank padding =>
      have trims : Text.Trims (line ++ ([] ++ [])) [] :=
        .intro padding.blank (by simp) (by simp) (by simp)
      exact ⟨by simpa using trims, padding.unbroken⟩
  · rintro ⟨trims, unbroken⟩
    cases trims with
    | intro blankBefore blankAfter =>
      exact .blank (.of_blank (List.forall_mem_append.mpr ⟨blankBefore, blankAfter⟩) unbroken)

/-- Trimming a line of a renderable rule leaves what is written of it. -/
theorem some_iff {r : Rule} (renderable : r.Renderable) {line : Word} :
    LineOf (some r) line ↔ Text.Trims line r.written ∧ '\n' ∉ line := by
  obtain ⟨stands, unbrokenRule, ends⟩ := Rule.renderable_iff.mp renderable
  constructor
  · intro h
    cases h with
    | rule _ left right =>
      have begins : ∀ c ∈ r.written.head?, Text.isBlank c = false := by
        rintro _ ⟨⟩
        exact Rule.isBlank_of_isUpper stands.capital
      refine ⟨.intro left.blank right.blank begins ends, ?_⟩
      simp [left.unbroken, unbrokenRule, right.unbroken]
  · rintro ⟨trims, unbroken⟩
    cases trims with
    | intro blankBefore blankAfter =>
      simp only [List.mem_append, not_or] at unbroken
      exact .rule r (.of_blank blankBefore unbroken.1) (.of_blank blankAfter unbroken.2.2)

theorem eq_none_of_empty {o : Option Rule} (h : LineOf o []) : o = none := by
  generalize empty : ([] : Word) = line at h
  cases h with
  | blank => rfl
  | rule => simp [Rule.written] at empty

theorem returned {o : Option Rule} {line : Word} (h : LineOf o line) :
    LineOf o (line ++ ['\r']) := by
  cases h with
  | blank padding => exact .blank (padding.append .returned)
  | rule r left right =>
    have padded := LineOf.rule r left (right.append .returned)
    simpa only [List.append_assoc] using padded

end LineOf

namespace Grammar

theorem lineHolds_none_iff {s : String} :
    LineHolds (Text.encode s) none ↔ Text.Trims s.toList [] := by
  refine ⟨fun h => ?_, .blank⟩
  generalize spelt : Text.encode s = bytes at h
  cases h with
  | blank trims => rwa [Text.encode_injective spelt]

theorem lineHolds_some_iff {s : String} {r : Rule} :
    LineHolds (Text.encode s) (some r) ↔ Text.Trims s.toList r.written ∧ r.StandsOn r.written := by
  refine ⟨fun h => ?_, fun ⟨trims, stands⟩ => .rule trims stands⟩
  generalize spelt : Text.encode s = bytes at h
  cases h with
  | rule trims stands =>
    obtain rfl := stands.written
    rw [Text.encode_injective spelt]
    exact ⟨trims, stands⟩

/-- The bytes of one line hold a rule, or nothing, exactly when they spell a line of
it, and a rule that they hold is renderable. -/
theorem lineHolds_encode_iff {o : Option Rule} {line : Word} :
    LineHolds (Text.encode (String.ofList line)) o ∧ '\n' ∉ line ↔
      LineOf o line ∧ ∀ r ∈ o, r.Renderable := by
  cases o with
  | none => simp [lineHolds_none_iff, LineOf.none_iff]
  | some r =>
    rw [lineHolds_some_iff, String.toList_ofList]
    constructor
    · rintro ⟨⟨trims, stands⟩, unbroken⟩
      have renderable : r.Renderable := by
        cases trims with
        | intro _ _ _ ends =>
          simp only [List.mem_append, not_or] at unbroken
          exact Rule.renderable_iff.mpr ⟨stands, unbroken.2.1, ends⟩
      exact ⟨(LineOf.some_iff renderable).mpr ⟨trims, unbroken⟩, by simpa using renderable⟩
    · rintro ⟨h, renderable⟩
      obtain ⟨trims, unbroken⟩ := (LineOf.some_iff (renderable r rfl)).mp h
      obtain ⟨stands, -⟩ := Rule.renderable_iff.mp (renderable r rfl)
      exact ⟨⟨trims, stands⟩, unbroken⟩

/-- A carriage return at the end of a line makes no difference. -/
theorem lineHolds_dropReturn_iff {o : Option Rule} {piece : Word} :
    LineHolds (Text.dropReturn (Text.encode (String.ofList piece))) o ↔
      LineHolds (Text.encode (String.ofList piece)) o := by
  have ends : Text.Ends (Text.encode (String.ofList piece)) _ := Text.ends_iff.mpr rfl
  obtain ⟨line, spelt, returned⟩ := Text.exists_of_ends ends
  have same : Text.trim line = Text.trim piece := by
    rcases returned with rfl | rfl
    · rfl
    · exact (Text.trim_append_of_blank Padding.returned.blank).symm
  rw [spelt]
  cases o with
  | none => simp only [lineHolds_none_iff, String.toList_ofList, Text.trims_iff, same]
  | some r => simp only [lineHolds_some_iff, String.toList_ofList, Text.trims_iff, same]

/-- A text whose lines all hold something is a layout of the rules on them. -/
theorem layout_of_lineHolds {text : Word} {os : List (Option Rule)}
    (h : List.Forall₂ LineHolds (Text.lines (Text.encode (String.ofList text))) os) :
    Layout os.reduceOption text ∧ ∀ r ∈ os.reduceOption, r.Renderable := by
  induction text using Text.pieces_induction '\n' generalizing os with
  | last line unbroken =>
    rw [Text.lines_encode_of_unbroken unbroken] at h
    split at h
    · next empty =>
      subst empty
      cases h
      exact ⟨.last (.blank .nil), by simp⟩
    · rcases h with _ | ⟨holds, ⟨⟩⟩
      obtain ⟨lineOf, renderable⟩ := lineHolds_encode_iff.mp ⟨holds, unbroken⟩
      rw [List.reduceOption_singleton]
      exact ⟨.last lineOf, by simpa using renderable⟩
  | cut piece rest unbroken ih =>
    rw [Text.lines_encode_append_newline unbroken] at h
    rcases h with _ | @⟨_, o, _, os, holds, later⟩
    obtain ⟨lineOf, renderable⟩ :=
      lineHolds_encode_iff.mp ⟨lineHolds_dropReturn_iff.mp holds, unbroken⟩
    obtain ⟨layout, renderableLater⟩ := ih later
    have split : (o :: os).reduceOption = o.toList ++ os.reduceOption := by cases o <;> rfl
    rw [split]
    exact ⟨.ended lineOf (.inl rfl) layout,
      List.forall_mem_append.mpr ⟨by simpa using renderable, renderableLater⟩⟩

/-- Of renderable rules every layout is read line by line as these rules. -/
theorem lineHolds_of_layout {rules : List Rule} {text : Word} (h : Layout rules text)
    (renderable : ∀ r ∈ rules, r.Renderable) :
    ∃ os, List.Forall₂ LineHolds (Text.lines (Text.encode (String.ofList text))) os ∧
      rules = os.reduceOption := by
  induction h with
  | @last o line lineOf =>
    obtain ⟨holds, unbroken⟩ := lineHolds_encode_iff.mpr ⟨lineOf, by simpa using renderable⟩
    rw [Text.lines_encode_of_unbroken unbroken]
    split
    · next empty =>
      subst empty
      obtain rfl := lineOf.eq_none_of_empty
      exact ⟨[], .nil, rfl⟩
    · exact ⟨[o], .cons holds .nil, (List.reduceOption_singleton o).symm⟩
  | @ended o rules line ending rest lineOf ends later ih =>
    obtain ⟨renderableHere, renderableLater⟩ := List.forall_mem_append.mp renderable
    obtain ⟨os, all, rfl⟩ := ih renderableLater
    -- a return that belongs to the ending counts as padding of the line
    obtain ⟨piece, pieceOf, split⟩ :
        ∃ piece, LineOf o piece ∧ line ++ (ending ++ rest) = piece ++ '\n' :: rest := by
      rcases ends with rfl | rfl
      · exact ⟨line, lineOf, rfl⟩
      · exact ⟨line ++ ['\r'], lineOf.returned, by simp⟩
    obtain ⟨holds, unbroken⟩ := lineHolds_encode_iff.mpr ⟨pieceOf, by simpa using renderableHere⟩
    rw [split, Text.lines_encode_append_newline unbroken]
    refine ⟨o :: os, .cons (lineHolds_dropReturn_iff.mpr holds) all, ?_⟩
    cases o <;> rfl

theorem ofText_eq_ok_iff {s : String} {g : Grammar} :
    ofText s = .ok g ↔ g.Renderable ∧ Layout g.rules s.toList := by
  rw [ofText, ofBytes_eq_ok_iff, rulesOfLines_eq_ok_iff, ← String.ofList_toList (s := s)]
  constructor
  · rintro ⟨os, all, rules⟩
    obtain ⟨layout, renderable⟩ := layout_of_lineHolds all
    rw [String.toList_ofList, Renderable, rules]
    exact ⟨renderable, layout⟩
  · rintro ⟨renderable, layout⟩
    rw [String.toList_ofList] at layout
    exact lineHolds_of_layout layout renderable

theorem layout_written (g : Grammar) : Layout g.rules g.written := by
  rw [written]
  induction g.rules with
  | nil => exact .last (.blank .nil)
  | cons r rules ih =>
    have line := LineOf.rule r .nil .nil
    have plain := Layout.ended line (.inl rfl) ih
    simpa using plain

/-- A text is read as a grammar exactly when the grammar is renderable and the text
is one of its layouts. And every renderable grammar can be read again from its plain
rendering, other grammars from none. -/
theorem ofText_eq_ok_iff_layout (g : Grammar) :
    (∀ s, ofText s = .ok g ↔ g.Renderable ∧ Layout g.rules s.toList) ∧
      (g.Renderable ↔ ofText (String.ofList g.written) = .ok g) := by
  refine ⟨fun s => ofText_eq_ok_iff, fun h => ?_, fun h => (ofText_eq_ok_iff.mp h).1⟩
  refine ofText_eq_ok_iff.mpr ⟨h, ?_⟩
  rw [String.toList_ofList]
  exact layout_written g

/-- Padding and blank lines go, white space within a rule stays, returns included. -/
example : ofText "\u3000A>a b|>c\r\n \t\n\nB>x\ry|  z\u00a0" =
    .ok ⟨[⟨'A', ["a b".toList, ">c".toList]⟩, ⟨'B', ["x\ry".toList, "  z".toList]⟩]⟩ := by cbv

end Grammar

end LetterGrammar
