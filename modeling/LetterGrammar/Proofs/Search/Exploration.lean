import LetterGrammar.Search.Depth

/-! What a search does, told without the path it carries and the depth it is
given. Trying configurations in order ends with a continuation of the path, or
with none, and with the work that this took; `Explores` says so by one rule for
each way on. `Recognizer.answers_iff_explores` ties it to the search that runs,
so that every law of the search is an induction over these five rules. -/

namespace LetterGrammar

namespace Tally

def add (a b : Tally) : Tally :=
  ⟨a.configurations + b.configurations, a.pruned + b.pruned, a.backtracks + b.backtracks⟩

instance : Add Tally := ⟨add⟩

@[simp] theorem configurations_add (a b : Tally) :
    (a + b).configurations = a.configurations + b.configurations := rfl

@[simp] theorem pruned_add (a b : Tally) : (a + b).pruned = a.pruned + b.pruned := rfl

@[simp] theorem backtracks_add (a b : Tally) :
    (a + b).backtracks = a.backtracks + b.backtracks := rfl

attribute [ext] Tally

@[simp] theorem zero_add (a : Tally) : zero + a = a := by
  ext <;> simp [zero]

theorem add_assoc (a b c : Tally) : a + b + c = a + (b + c) := by
  ext <;> simp [Nat.add_assoc]

end Tally

namespace Table

/-- What may follow a configuration, in the order it is tried. -/
def candidates (t : Table) (c : Configuration) : List Configuration :=
  match t.transition? c with
  | none => []
  | some r => r.outcomes.map (c.successor r.key.guard)

theorem candidates_of_stuck {t : Table} {c : Configuration} (h : t.transition? c = none) :
    t.candidates c = [] := by
  simp [candidates, h]

theorem candidates_of_transition {t : Table} {c : Configuration} {r : Transition}
    (h : t.transition? c = some r) :
    t.candidates c = r.outcomes.map (c.successor r.key.guard) := by
  simp [candidates, h]

theorem mem_candidates {t : Table} {c d : Configuration} :
    d ∈ t.candidates c ↔
      ∃ r, t.transition? c = some r ∧ ∃ o ∈ r.outcomes, d = c.successor r.key.guard o := by
  cases h : t.transition? c <;> simp [candidates, h, eq_comm]

theorem moves_iff_mem_candidates {t : Table} {pruning : Bool} {c d : Configuration} :
    t.Moves pruning c d ↔ d ∈ t.candidates c ∧ (pruning && d.outgrowsInput) = false := by
  rw [mem_candidates]
  constructor
  · intro h
    obtain ⟨r, hr, o, ho, hd, hk⟩ := h
    exact ⟨⟨r, hr, o, ho, hd⟩, hk⟩
  · intro h
    obtain ⟨⟨r, hr, o, ho, hd⟩, hk⟩ := h
    exact ⟨r, hr, o, ho, hd, hk⟩

/-- Trying configurations in order ends, with the rest of a chain to acceptance
if one was found, and with the work it took: configurations, pruned ones among
them, and backtracks. -/
inductive Explores (t : Table) (pruning : Bool) :
    List Configuration → Option Chain → Tally → Prop where
  | exhausted : Explores t pruning [] none .zero
  | prune {d : Configuration} {ds : List Configuration} {found : Option Chain} {after : Tally}
      (hopeless : (pruning && d.outgrowsInput) = true)
      (later : Explores t pruning ds found after) :
      Explores t pruning (d :: ds) found (⟨1, 1, 0⟩ + after)
  | accept {d : Configuration} {ds : List Configuration}
      (kept : (pruning && d.outgrowsInput) = false) (accepting : d.accepting = true) :
      Explores t pruning (d :: ds) (some [d]) ⟨1, 0, 0⟩
  | enter {d : Configuration} {ds : List Configuration} {chain : Chain} {inside : Tally}
      (kept : (pruning && d.outgrowsInput) = false) (unfinished : d.accepting = false)
      (inner : Explores t pruning (t.candidates d) (some chain) inside) :
      Explores t pruning (d :: ds) (some (d :: chain)) (⟨1, 0, 0⟩ + inside)
  | backtrack {d : Configuration} {ds : List Configuration} {found : Option Chain}
      {inside after : Tally}
      (kept : (pruning && d.outgrowsInput) = false) (unfinished : d.accepting = false)
      (inner : Explores t pruning (t.candidates d) none inside)
      (later : Explores t pruning ds found after) :
      Explores t pruning (d :: ds) found (⟨1, 0, 1⟩ + (inside + after))

end Table

namespace Progress

/-- The progress after an exploration: what was found lies on the path, and its
work is counted. -/
def carry (p : Progress) (found : Option Chain) (tally : Tally) : Progress :=
  ⟨(found.getD []).reverse ++ p.path, p.tally + tally⟩

theorem push_eq_carry (p : Progress) (d : Configuration) :
    p.push d = p.carry (some [d]) ⟨1, 0, 0⟩ := rfl

theorem prune_push (p : Progress) (d : Configuration) :
    (p.push d).prune = p.carry none ⟨1, 1, 0⟩ := rfl

theorem backtrack_carry_push (p : Progress) (d : Configuration) (inside : Tally) :
    ((p.push d).carry none inside).backtrack = p.carry none (⟨1, 0, 1⟩ + inside) := by
  unfold backtrack carry push
  congr 1
  ext <;> simp only [Tally.configurations_add, Tally.pruned_add, Tally.backtracks_add] <;> omega

theorem carry_carry (p : Progress) (found : Option Chain) (before after : Tally) :
    (p.carry none before).carry found after = p.carry found (before + after) := by
  unfold carry
  rw [Tally.add_assoc]
  rfl

theorem carry_push (p : Progress) (d : Configuration) (chain : Chain) (inside : Tally) :
    (p.push d).carry (some chain) inside = p.carry (some (d :: chain)) (⟨1, 0, 0⟩ + inside) := by
  rw [push_eq_carry]
  unfold carry
  simp only [Option.getD_some, List.reverse_cons, List.reverse_nil, List.nil_append,
    List.append_assoc, Tally.add_assoc]

/-- `explore`, asked about a path, explores what may follow the last
configuration of the path and carries the result. -/
def Faithful (t : Table) (pruning : Bool)
    (explore : Progress → Option (Bool × Progress)) : Prop :=
  ∀ p c r, p.path.head? = some c → explore p = some r →
    ∃ found tally, t.Explores pruning (t.candidates c) found tally ∧
      r = (found.isSome, p.carry found tally)

theorem explores_of_tryEach {t : Table} {pruning : Bool}
    {explore : Progress → Option (Bool × Progress)} (hf : Faithful t pruning explore)
    {guard : Guard} {c : Configuration} (os : List Outcome) (p : Progress) (r : Bool × Progress)
    (h : tryEach explore pruning guard c os p = some r) :
    ∃ found tally, t.Explores pruning (os.map (c.successor guard)) found tally ∧
      r = (found.isSome, p.carry found tally) := by
  induction os generalizing p with
  | nil =>
    cases h
    exact ⟨none, .zero, .exhausted, rfl⟩
  | cons o os ih =>
    simp only [tryEach] at h
    split at h
    · next hopeless =>
      obtain ⟨found, after, later, rfl⟩ := ih _ h
      exact ⟨found, _, .prune hopeless later, by rw [prune_push, carry_carry]⟩
    · next kept =>
      have kept := Bool.eq_false_iff.mpr kept
      split at h
      · next accepting =>
        cases h
        exact ⟨_, _, .accept kept accepting, rfl⟩
      · next unfinished =>
        have unfinished := Bool.eq_false_iff.mpr unfinished
        split at h
        · cases h
        · next he =>
          cases h
          obtain ⟨found, inside, inner, hr⟩ := hf _ _ _ rfl he
          obtain ⟨hfound, rfl⟩ := Prod.mk.inj hr
          obtain ⟨chain, rfl⟩ := Option.isSome_iff_exists.mp hfound.symm
          exact ⟨_, _, .enter kept unfinished inner, by rw [carry_push]; rfl⟩
        · next he =>
          -- what failed below has left the path as it was
          obtain ⟨nothing, inside, inner, hr⟩ := hf _ _ _ rfl he
          obtain ⟨hnothing, rfl⟩ := Prod.mk.inj hr
          obtain rfl : nothing = none := by simpa using hnothing
          obtain ⟨found, after, later, rfl⟩ := ih _ h
          refine ⟨found, _, .backtrack kept unfinished inner later, ?_⟩
          rw [backtrack_carry_push, carry_carry, Tally.add_assoc]

theorem faithful_extend (t : Table) (pruning : Bool) (depth : Nat) :
    Faithful t pruning (extend t pruning depth) := by
  induction depth with
  | zero => intro p c r _ h; simp [extend] at h
  | succ depth ih =>
    intro p c r hp h
    obtain ⟨path, hpath⟩ := List.head?_eq_some_iff.mp hp
    simp only [extend, hpath] at h
    cases ht : t.transition? c with
    | none =>
      rw [ht] at h
      cases h
      rw [Table.candidates_of_stuck ht]
      exact ⟨none, .zero, .exhausted, rfl⟩
    | some s =>
      rw [ht] at h
      rw [Table.candidates_of_transition ht]
      exact explores_of_tryEach ih _ _ _ h

/-- Within `depth`, choices that lead to the configurations `ds` are tried with
this result, whatever was done before. -/
def Suffices (t : Table) (pruning : Bool) (depth : Nat) (ds : List Configuration)
    (found : Option Chain) (tally : Tally) : Prop :=
  ∀ (guard : Guard) (c : Configuration) (os : List Outcome), os.map (c.successor guard) = ds →
    ∀ p, tryEach (extend t pruning depth) pruning guard c os p =
      some (found.isSome, p.carry found tally)

theorem Suffices.mono {t : Table} {pruning : Bool} {depth depth' : Nat}
    {ds : List Configuration} {found : Option Chain} {tally : Tally}
    (h : Suffices t pruning depth ds found tally) (hd : depth ≤ depth') :
    Suffices t pruning depth' ds found tally :=
  fun guard c os hos p => tryEach_mono (fun _ _ => extend_mono hd) os p _ (h guard c os hos p)

theorem Suffices.extend {t : Table} {pruning : Bool} {depth : Nat} {d : Configuration}
    {found : Option Chain} {tally : Tally}
    (h : Suffices t pruning depth (t.candidates d) found tally) {p : Progress}
    (hp : p.path.head? = some d) :
    Progress.extend t pruning (depth + 1) p = some (found.isSome, p.carry found tally) := by
  obtain ⟨path, hpath⟩ := List.head?_eq_some_iff.mp hp
  simp only [Progress.extend, hpath]
  cases ht : t.transition? d with
  | none => exact h .lambda d [] (Table.candidates_of_stuck ht).symm p
  | some r => exact h r.key.guard d r.outcomes (Table.candidates_of_transition ht).symm p

theorem suffices_of_explores {t : Table} {pruning : Bool} {ds : List Configuration}
    {found : Option Chain} {tally : Tally} (h : t.Explores pruning ds found tally) :
    ∃ depth, Suffices t pruning depth ds found tally := by
  induction h with
  | exhausted =>
    refine ⟨0, fun guard c os hos p => ?_⟩
    obtain rfl := List.map_eq_nil_iff.mp hos
    rfl
  | prune hopeless _ ih =>
    obtain ⟨depth, ih⟩ := ih
    refine ⟨depth, fun guard c os hos p => ?_⟩
    obtain ⟨o, os, rfl, rfl, hrest⟩ := List.map_eq_cons_iff.mp hos
    simp only [tryEach, hopeless, if_true]
    rw [ih guard c os hrest, prune_push, carry_carry]
  | accept kept accepting =>
    refine ⟨0, fun guard c os hos p => ?_⟩
    obtain ⟨o, os, rfl, rfl, _⟩ := List.map_eq_cons_iff.mp hos
    simp [tryEach, kept, accepting, push_eq_carry]
  | enter kept unfinished _ ih =>
    obtain ⟨depth, ih⟩ := ih
    refine ⟨depth + 1, fun guard c os hos p => ?_⟩
    obtain ⟨o, os, rfl, rfl, _⟩ := List.map_eq_cons_iff.mp hos
    simp only [tryEach, kept, unfinished, Bool.false_eq_true, if_false]
    rw [ih.extend rfl, carry_push]
    rfl
  | backtrack kept unfinished _ _ ihInner ihLater =>
    obtain ⟨depth, ihInner⟩ := ihInner
    obtain ⟨depth', ihLater⟩ := ihLater
    -- the inner search is one level deeper than the later choices
    refine ⟨max depth depth' + 1, fun guard c os hos p => ?_⟩
    obtain ⟨o, os, rfl, rfl, hrest⟩ := List.map_eq_cons_iff.mp hos
    have inner := (ihInner.mono (Nat.le_max_left depth depth')).extend
      (p := p.push (c.successor guard o)) rfl
    have later := ihLater.mono (Nat.le_succ_of_le (Nat.le_max_right depth depth'))
    simp only [tryEach, kept, unfinished, Bool.false_eq_true, if_false]
    rw [inner]
    simp only [Option.isSome_none]
    rw [later guard c os hrest, backtrack_carry_push, carry_carry, Tally.add_assoc]

end Progress

namespace Recognizer

/-- A search of some depth ends with this verdict and this work. Greater depths
then end with the same (`Answers.unique`). -/
def Answers (r : Recognizer) (input : Word) (verdict : Verdict) (tally : Tally) : Prop :=
  ∃ depth, r.searchWithin depth input = some (verdict, tally)

theorem Answers.unique {r : Recognizer} {input : Word} {v v' : Verdict} {tally tally' : Tally}
    (h : r.Answers input v tally) (h' : r.Answers input v' tally') : v = v' ∧ tally = tally' := by
  obtain ⟨depth, h⟩ := h
  obtain ⟨depth', h'⟩ := h'
  exact Prod.mk.inj (searchWithin_unique h h')

/-- The verdict on what was found after the seed. -/
def verdict (r : Recognizer) (input : Word) : Option Chain → Verdict
  | none => .rejected
  | some chain => .accepted (.seed input r.start :: chain)

theorem isAccepted_verdict (r : Recognizer) (input : Word) (found : Option Chain) :
    (r.verdict input found).isAccepted = found.isSome := by
  cases found <;> rfl

theorem searchWithin_of_extend {r : Recognizer} {depth : Nat} {input : Word}
    {found : Option Chain} {tally : Tally}
    (h : Progress.extend r.table r.pruning depth (.start (.seed input r.start)) =
      some (found.isSome, (Progress.start (.seed input r.start)).carry found tally)) :
    r.searchWithin depth input = some (r.verdict input found, tally) := by
  rw [searchWithin, h]
  cases found <;> simp [Progress.carry, Progress.start, Progress.chain, verdict]

theorem answers_iff_explores {r : Recognizer} {input : Word} {v : Verdict} {tally : Tally} :
    r.Answers input v tally ↔
      ∃ found, r.table.Explores r.pruning (r.table.candidates (.seed input r.start)) found tally ∧
        v = r.verdict input found := by
  constructor
  · intro h
    obtain ⟨depth, h⟩ := h
    obtain ⟨_, hx, _⟩ := Option.map_eq_some_iff.mp h
    obtain ⟨found, tally', explores, rfl⟩ :=
      Progress.faithful_extend r.table r.pruning depth _ _ _ rfl hx
    obtain ⟨rfl, rfl⟩ := Prod.mk.inj (Option.some.inj ((searchWithin_of_extend hx).symm.trans h))
    exact ⟨found, explores, rfl⟩
  · intro h
    obtain ⟨found, explores, rfl⟩ := h
    obtain ⟨depth, enough⟩ := Progress.suffices_of_explores explores
    exact ⟨depth + 1, searchWithin_of_extend (enough.extend rfl)⟩

theorem ends_iff_explores {r : Recognizer} {input : Word} :
    r.Ends input ↔ ∃ found tally,
      r.table.Explores r.pruning (r.table.candidates (.seed input r.start)) found tally := by
  constructor
  · intro h
    obtain ⟨depth, h⟩ := h
    obtain ⟨⟨v, tally⟩, h⟩ := Option.isSome_iff_exists.mp h
    obtain ⟨found, explores, _⟩ := answers_iff_explores.mp ⟨depth, h⟩
    exact ⟨found, tally, explores⟩
  · intro h
    obtain ⟨found, tally, explores⟩ := h
    obtain ⟨depth, h⟩ := answers_iff_explores.mpr ⟨found, explores, rfl⟩
    exact ⟨depth, by rw [h]; rfl⟩

end Recognizer

end LetterGrammar
