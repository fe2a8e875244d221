import Mathlib.Data.List.TakeWhile
import LetterGrammar.Text.Line

/-! How a text is laid out: its lines, and the white space around what stands on
them. Both are told here by how they are put together; cutting bytes into lines
and trimming take them apart again. -/

namespace LetterGrammar.Text

/-- Every list is free of the separator, or begins with a piece that is, then the
separator. -/
theorem pieces_induction {α : Type} [DecidableEq α] {motive : List α → Prop} (sep : α)
    (last : ∀ piece, sep ∉ piece → motive piece)
    (cut : ∀ piece rest, sep ∉ piece → motive rest → motive (piece ++ sep :: rest))
    (xs : List α) : motive xs := by
  induction hn : xs.length using Nat.strongRecOn generalizing xs with
  | ind n ih =>
    by_cases h : sep ∈ xs
    · obtain ⟨piece, rest, rfl, hp⟩ := List.eq_append_cons_of_mem h
      refine cut piece rest hp (ih rest.length ?_ rest rfl)
      rw [← hn, List.length_append, List.length_cons]
      omega
    · exact last xs h

theorem not_mem_of_mem_splitOn {α : Type} [DecidableEq α] {sep : α} {xs piece : List α}
    (h : piece ∈ xs.splitOn sep) : sep ∉ piece := by
  induction xs using pieces_induction sep with
  | last xs hxs =>
    rw [List.splitOn_eq_singleton hxs] at h
    exact List.mem_singleton.mp h ▸ hxs
  | cut xs rest hxs ih =>
    rw [List.splitOn_append_cons_self_of_not_mem hxs] at h
    rcases List.mem_cons.mp h with rfl | h
    · exact hxs
    · exact ih h

/-- The line that ends after a piece, without a carriage return at its end. -/
inductive Ends : List UInt8 → List UInt8 → Prop where
  | plain {line : List UInt8} (h : line.getLast? ≠ some carriageReturn) : Ends line line
  | returned (line : List UInt8) : Ends (line ++ [carriageReturn]) line

/-- Bytes and their lines. Each newline ends one, and what follows the last
newline is one more unless it is empty. -/
inductive SplitsInto : List UInt8 → List (List UInt8) → Prop where
  | empty : SplitsInto [] []
  | last {piece : List UInt8} (unbroken : newline ∉ piece) (nonempty : piece ≠ []) :
      SplitsInto piece [piece]
  | ended {piece line rest : List UInt8} {ls : List (List UInt8)} (unbroken : newline ∉ piece)
      (ends : Ends piece line) (later : SplitsInto rest ls) :
      SplitsInto (piece ++ newline :: rest) (line :: ls)

theorem ends_iff {piece line : List UInt8} : Ends piece line ↔ line = dropReturn piece := by
  constructor
  · intro h
    cases h with
    | plain h => rw [dropReturn, if_neg h]
    | returned => simp [dropReturn]
  · rintro rfl
    rw [dropReturn]
    split
    · next h =>
      obtain ⟨line, rfl⟩ := List.getLast?_eq_some_iff.mp h
      rw [List.dropLast_concat]
      exact .returned line
    · next h => exact .plain h

theorem lines_of_unbroken {piece : List UInt8} (h : newline ∉ piece) :
    lines piece = if piece = [] then [] else [piece] := by
  rw [lines, List.splitOn_eq_singleton h]
  cases piece <;> rfl

theorem lines_append_newline {piece : List UInt8} (h : newline ∉ piece) (rest : List UInt8) :
    lines (piece ++ newline :: rest) = dropReturn piece :: lines rest := by
  obtain ⟨first, more, hr⟩ := List.exists_cons_of_ne_nil (List.splitOn_ne_nil newline rest)
  simp only [lines, List.splitOn_append_cons_self_of_not_mem h, hr, List.dropLast_cons_cons,
    List.map_cons, List.getLast?_cons_cons, List.cons_append]

theorem splitsInto_iff {bytes : List UInt8} {ls : List (List UInt8)} :
    SplitsInto bytes ls ↔ ls = lines bytes := by
  constructor
  · intro h
    induction h with
    | empty => rfl
    | last unbroken nonempty => rw [lines_of_unbroken unbroken, if_neg nonempty]
    | ended unbroken ends _ ih =>
      rw [lines_append_newline unbroken, ← ih, ends_iff.mp ends]
  · rintro rfl
    induction bytes using pieces_induction newline with
    | last piece unbroken =>
      rw [lines_of_unbroken unbroken]
      split
      · next h => subst h; exact .empty
      · next h => exact .last unbroken h
    | cut piece rest unbroken ih =>
      rw [lines_append_newline unbroken]
      exact .ended unbroken (ends_iff.mpr rfl) ih

/-- What is left of a text without the white space at both ends. -/
inductive Trims : List Char → List Char → Prop where
  | intro {before core after : List Char} (blankBefore : ∀ c ∈ before, isBlank c = true)
      (blankAfter : ∀ c ∈ after, isBlank c = true) (begins : ∀ c ∈ core.head?, isBlank c = false)
      (ends : ∀ c ∈ core.getLast?, isBlank c = false) : Trims (before ++ (core ++ after)) core

theorem trimStart_of_begins {cs : List Char} (h : ∀ c ∈ cs.head?, isBlank c = false) :
    trimStart cs = cs := by
  cases cs with
  | nil => rfl
  | cons c cs => exact List.dropWhile_cons_of_neg (by simp [h c rfl])

theorem trimEnd_of_ends {cs : List Char} (h : ∀ c ∈ cs.getLast?, isBlank c = false) :
    trimEnd cs = cs := by
  have begins : trimStart cs.reverse = cs.reverse := trimStart_of_begins (by simpa using h)
  rw [trimStart] at begins
  rw [trimEnd, begins, List.reverse_reverse]

theorem head_trimStart (cs : List Char) : ∀ c ∈ (trimStart cs).head?, isBlank c = false := by
  intro c hc
  have unblank := List.head?_dropWhile_not isBlank cs
  rw [trimStart, Option.mem_def] at hc
  simpa [hc] using unblank

theorem getLast_trimEnd (cs : List Char) : ∀ c ∈ (trimEnd cs).getLast?, isBlank c = false := by
  intro c hc
  rw [trimEnd, List.getLast?_reverse] at hc
  exact head_trimStart _ c hc

theorem append_trimStart (cs : List Char) : cs.takeWhile isBlank ++ trimStart cs = cs :=
  List.takeWhile_append_dropWhile

theorem trimEnd_append (cs : List Char) :
    trimEnd cs ++ (cs.reverse.takeWhile isBlank).reverse = cs := by
  rw [trimEnd, ← List.reverse_append, List.takeWhile_append_dropWhile, List.reverse_reverse]

theorem trim_eq_of_trims {cs core : List Char} (h : Trims cs core) : trim cs = core := by
  cases h with
  | @intro before core after blankBefore blankAfter begins ends =>
    rw [trim, trimStart_append_of_blank blankBefore]
    cases core with
    | nil =>
      have all : trimStart after = [] := List.dropWhile_eq_nil_iff.mpr blankAfter
      rw [List.nil_append, all]
      rfl
    | cons c core =>
      rw [trimStart_of_begins (by simpa using begins), trimEnd_append_of_blank blankAfter,
        trimEnd_of_ends ends]

theorem trims_trim (cs : List Char) : Trims cs (trim cs) := by
  have split := trimEnd_append (trimStart cs)
  have begins : ∀ c ∈ (trim cs).head?, isBlank c = false := by
    intro c hc
    refine head_trimStart cs c ?_
    rw [← split, List.head?_append, ← trim, hc]
    rfl
  have ends : ∀ c ∈ (trim cs).getLast?, isBlank c = false := getLast_trimEnd _
  have before : ∀ c ∈ cs.takeWhile isBlank, isBlank c = true := fun c hc =>
    List.mem_takeWhile_imp hc
  have after : ∀ c ∈ ((trimStart cs).reverse.takeWhile isBlank).reverse, isBlank c = true :=
    fun c hc => List.mem_takeWhile_imp (List.mem_reverse.mp hc)
  have trims := Trims.intro before after begins ends
  rwa [trim, split, append_trimStart] at trims

theorem trims_iff {cs core : List Char} : Trims cs core ↔ core = trim cs := by
  constructor
  · intro h
    exact (trim_eq_of_trims h).symm
  · rintro rfl
    exact trims_trim cs

theorem trim_append_of_blank {cs pad : List Char} (h : ∀ c ∈ pad, isBlank c = true) :
    trim (cs ++ pad) = trim cs := by
  have trims := trims_trim cs
  generalize trim cs = core at trims ⊢
  cases trims with
  | intro blankBefore blankAfter begins ends =>
    have padded := Trims.intro blankBefore (List.forall_mem_append.mpr ⟨blankAfter, h⟩) begins ends
    rw [List.append_assoc, List.append_assoc]
    exact trim_eq_of_trims padded

end LetterGrammar.Text
