import LetterGrammar.Proofs.Search.Links

/-! What a search leaves of what it is given. It is given a path and a tally that were begun
before it, and of these it looks at nothing but the newest configuration. A search that fails
hands the path back as it was; one that succeeds has added a run from there to acceptance.
What it adds to the path and to the tally, and whether it ends at all, is therefore the same
whatever was there before. -/

namespace LetterGrammar

namespace Progress

variable {t : Table} {pruning : Bool} {p q : Progress} {b : Bool} {c : Configuration}

/-- Within some depth, the search that goes on from `p` ends with `b` at `q`. -/
def Extends (t : Table) (pruning : Bool) (p : Progress) (b : Bool) (q : Progress) : Prop :=
  ∃ depth, extend t pruning depth p = some (b, q)

theorem Extends.unique {b' : Bool} {q' : Progress} (h : Extends t pruning p b q)
    (h' : Extends t pruning p b' q') : b = b' ∧ q = q' := by
  obtain ⟨depth, h⟩ := h
  obtain ⟨depth', h'⟩ := h'
  have h := extend_mono (Nat.le_max_left depth depth') h
  have h' := extend_mono (Nat.le_max_right depth depth') h'
  exact Prod.mk.inj (Option.some.inj (h.symm.trans h'))

theorem extends_of_explores {found : Option Chain} {work : Tally}
    (explores : t.Explores pruning (t.candidates c) found work) (last : p.path.head? = some c) :
    Extends t pruning p found.isSome (p.carry found work) := by
  obtain ⟨depth, enough⟩ := suffices_of_explores explores
  exact ⟨depth + 1, enough.extend last⟩

theorem exists_explores_of_extends (h : Extends t pruning p b q)
    (last : p.path.head? = some c) :
    ∃ found work, t.Explores pruning (t.candidates c) found work := by
  obtain ⟨depth, h⟩ := h
  obtain ⟨found, work, explores, _⟩ := faithful_extend t pruning depth p c _ last h
  exact ⟨found, work, explores⟩

theorem head?_path_of_chain {before : Chain} (h : p.chain = before ++ [c]) :
    p.path.head? = some c := by
  rw [← List.reverse_reverse p.path, ← chain, h, List.reverse_append]
  rfl

theorem eq_carry_iff {later : Option Chain} {work : Tally} :
    q = p.carry later work ↔ q.chain = p.chain ++ later.getD [] ∧ q.tally = p.tally + work := by
  obtain ⟨path, tally⟩ := q
  have paths : path = (later.getD []).reverse ++ p.path ↔
      path.reverse = p.path.reverse ++ later.getD [] := by
    rw [← List.reverse_inj, List.reverse_append, List.reverse_reverse]
  rw [carry, mk.injEq, paths]
  rfl

/-- What a search adds, from every chain that ends in `c`: to the chain `later`, a
continuation to acceptance, if it succeeds, and nothing if it fails; and to the tally
its `work`. -/
structure Adds (t : Table) (pruning : Bool) (c : Configuration) (later : Option Chain)
    (work : Tally) : Prop where
  accepting : ∀ chain, later = some chain →
    ∃ between last, chain = between ++ [last] ∧ last.accepting = true
  extends_iff : ∀ before p, p.chain = before ++ [c] → ∀ b q, Extends t pruning p b q ↔
    b = later.isSome ∧ q.chain = before ++ [c] ++ later.getD [] ∧ q.tally = p.tally + work

theorem adds_of_explores {later : Option Chain} {work : Tally}
    (explores : t.Explores pruning (t.candidates c) later work) :
    Adds t pruning c later work where
  accepting chain found := by
    subst found
    exact explores.exists_concat
  extends_iff before p ends_in b q := by
    have ended := extends_of_explores explores (head?_path_of_chain ends_in)
    rw [← ends_in, ← eq_carry_iff]
    constructor
    · intro h
      exact h.unique ended
    · intro h
      obtain ⟨rfl, rfl⟩ := h
      exact ended

theorem extends_of_empty (empty : p.chain = []) :
    Extends t pruning p b q ↔ b = false ∧ q = p := by
  have nothing : p.path = [] := List.reverse_eq_nil_iff.mp empty
  have ended : Extends t pruning p false p := ⟨1, by simp [extend, nothing]⟩
  constructor
  · intro h
    exact h.unique ended
  · intro h
    obtain ⟨rfl, rfl⟩ := h
    exact ended

/-- The newest configuration decides what a search adds, and that the search adds
something or ends at all. On an empty chain it fails and changes nothing. -/
theorem extends_frame (t : Table) (pruning : Bool) :
    (∀ c, (∃ later work, Adds t pruning c later work) ∨
      ∀ before p, p.chain = before ++ [c] → ∀ b q, ¬ Extends t pruning p b q) ∧
    ∀ p, p.chain = [] → ∀ b q, Extends t pruning p b q ↔ b = false ∧ q = p := by
  refine ⟨fun c => ?_, fun p empty b q => extends_of_empty empty⟩
  by_cases ended : ∃ found work, t.Explores pruning (t.candidates c) found work
  · obtain ⟨later, work, explores⟩ := ended
    exact .inl ⟨later, work, adds_of_explores explores⟩
  · refine .inr fun before p ends_in b q h => ended ?_
    exact exists_explores_of_extends h (head?_path_of_chain ends_in)

/-- The seed of a search with another configuration below it, after some work. -/
def resumed : Progress :=
  ⟨[.seed ['a'] (.letter 'S'), ⟨⟨7⟩, ['b'], [.bottom]⟩], ⟨9, 2, 4⟩⟩

theorem crossroads_frame :
    Extends Recognizer.crossroads.table true (.start (.seed ['a'] (.letter 'S'))) true
        ⟨Recognizer.crossroadsChain.reverse, ⟨5, 1, 1⟩⟩ ∧
      resumed.chain = [⟨⟨7⟩, ['b'], [.bottom]⟩] ++ [.seed ['a'] (.letter 'S')] ∧
      Extends Recognizer.crossroads.table true resumed true
        ⟨Recognizer.crossroadsChain.reverse ++ [⟨⟨7⟩, ['b'], [.bottom]⟩], ⟨14, 3, 5⟩⟩ ∧
      Extends Recognizer.crossroads.table true ⟨[], ⟨9, 2, 4⟩⟩ false ⟨[], ⟨9, 2, 4⟩⟩ := by
  have fresh : Extends Recognizer.crossroads.table true (.start (.seed ['a'] (.letter 'S'))) true
      ⟨Recognizer.crossroadsChain.reverse, ⟨5, 1, 1⟩⟩ := ⟨5, rfl⟩
  obtain ⟨frame, empty⟩ := extends_frame Recognizer.crossroads.table true
  have below : resumed.chain = [⟨⟨7⟩, ['b'], [.bottom]⟩] ++ [.seed ['a'] (.letter 'S')] := rfl
  refine ⟨fresh, below, ?_, (empty ⟨[], ⟨9, 2, 4⟩⟩ rfl false _).mpr ⟨rfl, rfl⟩⟩
  rcases frame (.seed ['a'] (.letter 'S')) with ⟨later, work, adds⟩ | never
  · obtain ⟨found, chain, tally⟩ := (adds.extends_iff [] _ rfl _ _).mp fresh
    have added : later.getD [] = Recognizer.crossroadsChain.tail := (List.cons.inj chain).2.symm
    obtain rfl : work = ⟨5, 1, 1⟩ := (Tally.zero_add work).symm.trans tally.symm
    refine (adds.extends_iff _ resumed below _ _).mpr ⟨found, ?_, rfl⟩
    rw [added]
    rfl
  · exact absurd fresh (never [] _ rfl _ _)

end Progress

end LetterGrammar
