import Mathlib.Data.List.Forall2
import Mathlib.Data.List.ReduceOption
import LetterGrammar.Proofs.Source.RuleLine

/-! What a whole source is read as. Each line by itself holds a rule, holds
nothing, or is faulty. A source without faulty lines is the grammar of the rules
on its lines, in order; in any other the first faulty line decides the error,
with its number among all lines, whatever follows it. -/

namespace LetterGrammar.Grammar

/-- What is on a line of text: nothing but white space, or a rule and white space
around it. -/
inductive LineHolds : List UInt8 → Option Rule → Prop where
  | blank {s : String} (trims : Text.Trims s.toList []) : LineHolds (Text.encode s) none
  | rule {s : String} {core : Word} {r : Rule} (trims : Text.Trims s.toList core)
      (stands : r.StandsOn core) : LineHolds (Text.encode s) (some r)

/-- What is wrong with a line: it is no text, or the text on it is no rule. -/
inductive LineFaulty : List UInt8 → Cause → Prop where
  | notUnicode {line : List UInt8} (h : ∀ s, Text.encode s ≠ line) :
      LineFaulty line (.unreadableSource .notUnicode)
  | malformed {s : String} {core : Word} {d : RuleDefect} (trims : Text.Trims s.toList core)
      (unblank : core ≠ []) (mars : d.Mars core) : LineFaulty (Text.encode s) (.malformedRule d)

theorem LineHolds.ruleOfLine_eq {line : List UInt8} {o : Option Rule} (h : LineHolds line o) :
    ruleOfLine line = .ok o := by
  cases h with
  | blank trims => simp [ruleOfLine, Text.decode?_encode, ← Text.trims_iff.mp trims]
  | rule trims stands =>
    simp [ruleOfLine, Text.decode?_encode, ← Text.trims_iff.mp trims, stands.ne_nil, stands.read_eq]

theorem LineFaulty.ruleOfLine_eq {line : List UInt8} {cause : Cause} (h : LineFaulty line cause) :
    ruleOfLine line = .error cause := by
  cases h with
  | notUnicode h => simp only [ruleOfLine, Text.decode?_of_unreadable h]
  | malformed trims unblank mars =>
    simp [ruleOfLine, Text.decode?_encode, ← Text.trims_iff.mp trims, unblank, mars.read_eq]

theorem lineHolds_or_lineFaulty (line : List UInt8) :
    (∃ o, LineHolds line o) ∨ ∃ cause, LineFaulty line cause := by
  by_cases h : ∃ s, Text.encode s = line
  · obtain ⟨s, rfl⟩ := h
    have trims := Text.trims_trim s.toList
    by_cases blank : Text.trim s.toList = []
    · exact .inl ⟨none, .blank (blank ▸ trims)⟩
    · rcases Rule.mars_or_standsOn (Text.trim s.toList) with ⟨d, mars⟩ | ⟨r, stands⟩
      · exact .inr ⟨_, .malformed trims blank mars⟩
      · exact .inl ⟨some r, .rule trims stands⟩
  · exact .inr ⟨_, .notUnicode (not_exists.mp h)⟩

/-- Lines without faults are read as the rules on them. -/
theorem rulesOfLines_of_lineHolds (file : String) {ls : List (List UInt8)}
    {os : List (Option Rule)} (h : List.Forall₂ LineHolds ls os) (n : Nat) :
    rulesOfLines file n ls = .ok os.reduceOption := by
  induction h generalizing n with
  | nil => rfl
  | @cons line o ls os holds _ ih =>
    rw [rulesOfLines, holds.ruleOfLine_eq]
    cases o with
    | none => rw [List.reduceOption_cons_of_none]; exact ih (n + 1)
    | some r => simp only [ih (n + 1), List.reduceOption_cons_of_some, Except.map]

/-- Reading stops at the first faulty line. -/
theorem rulesOfLines_of_lineFaulty (file : String) {before after : List (List UInt8)}
    {line : List UInt8} {cause : Cause} (h : ∀ l ∈ before, ∃ o, LineHolds l o)
    (faulty : LineFaulty line cause) (n : Nat) :
    rulesOfLines file n (before ++ line :: after) = .error ⟨⟨file, n + before.length⟩, cause⟩ := by
  induction before generalizing n with
  | nil =>
    rw [List.nil_append, rulesOfLines, faulty.ruleOfLine_eq]
    rfl
  | cons l before ih =>
    obtain ⟨⟨o, holds⟩, h⟩ := List.forall_mem_cons.mp h
    have count : n + 1 + before.length = n + (l :: before).length := by
      rw [List.length_cons]
      omega
    rw [List.cons_append, rulesOfLines, holds.ruleOfLine_eq]
    cases o with
    | none => exact count ▸ ih h (n + 1)
    | some r => simp only [ih h (n + 1), count, Except.map]

/-- All lines hold something, or one of them is the first that is faulty. -/
theorem all_hold_or_first_faulty (ls : List (List UInt8)) :
    (∃ os, List.Forall₂ LineHolds ls os) ∨
      ∃ before line after cause, ls = before ++ line :: after ∧
        (∀ l ∈ before, ∃ o, LineHolds l o) ∧ LineFaulty line cause := by
  induction ls with
  | nil => exact .inl ⟨[], .nil⟩
  | cons l ls ih =>
    rcases lineHolds_or_lineFaulty l with ⟨o, holds⟩ | ⟨cause, faulty⟩
    · rcases ih with ⟨os, all⟩ | ⟨before, line, after, cause, rfl, hold, faulty⟩
      · exact .inl ⟨o :: os, .cons holds all⟩
      · exact .inr ⟨l :: before, line, after, cause, rfl,
          List.forall_mem_cons.mpr ⟨⟨o, holds⟩, hold⟩, faulty⟩
    · exact .inr ⟨[], l, ls, cause, rfl, by simp, faulty⟩

theorem rulesOfLines_eq_ok_iff {file : String} {n : Nat} {ls : List (List UInt8)}
    {rules : List Rule} :
    rulesOfLines file n ls = .ok rules ↔
      ∃ os, List.Forall₂ LineHolds ls os ∧ rules = os.reduceOption := by
  constructor
  · intro h
    rcases all_hold_or_first_faulty ls with ⟨os, all⟩ | ⟨before, line, after, cause, rfl, hold, faulty⟩
    · rw [rulesOfLines_of_lineHolds file all] at h
      cases h
      exact ⟨os, all, rfl⟩
    · rw [rulesOfLines_of_lineFaulty file hold faulty] at h
      cases h
  · rintro ⟨os, all, rfl⟩
    exact rulesOfLines_of_lineHolds file all n

theorem rulesOfLines_eq_error_iff {file : String} {n : Nat} {ls : List (List UInt8)}
    {e : SourceError} :
    rulesOfLines file n ls = .error e ↔
      ∃ before line after cause, ls = before ++ line :: after ∧
        (∀ l ∈ before, ∃ o, LineHolds l o) ∧ LineFaulty line cause ∧
        e = ⟨⟨file, n + before.length⟩, cause⟩ := by
  constructor
  · intro h
    rcases all_hold_or_first_faulty ls with ⟨os, all⟩ | ⟨before, line, after, cause, rfl, hold, faulty⟩
    · rw [rulesOfLines_of_lineHolds file all] at h
      cases h
    · rw [rulesOfLines_of_lineFaulty file hold faulty] at h
      cases h
      exact ⟨before, line, after, cause, rfl, hold, faulty, rfl⟩
  · rintro ⟨before, line, after, cause, rfl, hold, faulty, rfl⟩
    exact rulesOfLines_of_lineFaulty file hold faulty n

theorem ofBytes_eq_ok_iff {file : String} {bytes : List UInt8} {g : Grammar} :
    ofBytes file bytes = .ok g ↔ rulesOfLines file 1 (Text.lines bytes) = .ok g.rules := by
  rw [ofBytes]
  cases rulesOfLines file 1 (Text.lines bytes) with
  | error e => simp [Except.map]
  | ok rules => cases g; simp [Except.map]

theorem ofBytes_eq_error_iff {file : String} {bytes : List UInt8} {e : SourceError} :
    ofBytes file bytes = .error e ↔ rulesOfLines file 1 (Text.lines bytes) = .error e := by
  rw [ofBytes]
  cases rulesOfLines file 1 (Text.lines bytes) <;> simp [Except.map]

/-- The bytes of a source have one list of lines. If none is faulty, the source is
the grammar of the rules on them. Otherwise it is in error at the first faulty
line, for what is wrong with that line. -/
theorem ofBytes_of_splitsInto (file : String) (bytes : List UInt8) :
    ∃ ls, (∀ ls', Text.SplitsInto bytes ls' ↔ ls' = ls) ∧
      (∀ g, ofBytes file bytes = .ok g ↔
        ∃ os, List.Forall₂ LineHolds ls os ∧ g.rules = os.reduceOption) ∧
      ∀ e, ofBytes file bytes = .error e ↔
        ∃ before line after cause, ls = before ++ line :: after ∧
          (∀ l ∈ before, ∃ o, LineHolds l o) ∧ LineFaulty line cause ∧
          e = ⟨⟨file, 1 + before.length⟩, cause⟩ := by
  refine ⟨Text.lines bytes, fun ls' => Text.splitsInto_iff, fun g => ?_, fun e => ?_⟩
  · rw [ofBytes_eq_ok_iff, rulesOfLines_eq_ok_iff]
  · rw [ofBytes_eq_error_iff, rulesOfLines_eq_error_iff]

/-- A line that is no text counts before a later one that is no rule, and blank
lines are numbered. -/
example : ofBytes "rules.txt" [83, 62, 97, 10, 10, 65, 62, 255, 254, 10, 61, 10] =
    .error ⟨⟨"rules.txt", 3⟩, .unreadableSource .notUnicode⟩ := by cbv

end LetterGrammar.Grammar
