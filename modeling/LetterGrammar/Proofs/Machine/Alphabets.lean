import Mathlib.Data.List.Induction
import Mathlib.Data.List.Nodup
import LetterGrammar.Machine.Compile

/-! The alphabets of a compiled grammar. Each symbol has one place: the nonterminals
come in the order of their first rules, the other letters in the order in which the
alternatives first have them, and the bottom marker comes last. No symbol is missing
that a transition mentions, and none is idle. -/

namespace LetterGrammar

/-- The letters of `source` that `keep` admits, each once, in the order in which
`source` first has them. -/
structure ListsOnce (source : Word) (keep : Char → Prop) (w : Word) : Prop where
  mem : ∀ c, c ∈ w ↔ c ∈ source ∧ keep c
  order : w.Pairwise fun a b => source.idxOf a < source.idxOf b

theorem ListsOnce.nodup {source w : Word} {keep : Char → Prop} (h : ListsOnce source keep w) :
    w.Nodup :=
  h.order.imp fun before same => by
    rw [same] at before
    exact Nat.lt_irrefl _ before

/-- What is read later does not move what has been read. -/
theorem pairwise_idxOf_eraseDups (source : Word) :
    source.eraseDups.Pairwise fun a b => source.idxOf a < source.idxOf b := by
  induction source using List.reverseRecOn with
  | nil => exact .nil
  | append_singleton source c ih =>
    have place {a : Char} (ha : a ∈ source.eraseDups) :
        (source ++ [c]).idxOf a = source.idxOf a :=
      List.idxOf_append_of_mem (List.mem_eraseDups.mp ha)
    have earlier : source.eraseDups.Pairwise fun a b =>
        (source ++ [c]).idxOf a < (source ++ [c]).idxOf b :=
      ih.imp_of_mem fun ha hb before => by rwa [place ha, place hb]
    rw [List.eraseDups_append]
    by_cases again : c ∈ source
    · have nothing : [c].removeAll source = [] := by simp [List.removeAll, again]
      rwa [nothing, List.eraseDups_nil, List.append_nil]
    · have new : [c].removeAll source = [c] := by simp [List.removeAll, again]
      rw [new, List.eraseDups_cons, List.filter_nil, List.eraseDups_nil]
      refine List.pairwise_append.mpr ⟨earlier, List.pairwise_singleton _ _, ?_⟩
      intro a ha b hb
      obtain rfl := List.mem_singleton.mp hb
      rw [place ha, List.idxOf_append_of_notMem again]
      have known := List.idxOf_lt_length_of_mem (List.mem_eraseDups.mp ha)
      omega

theorem listsOnce_eraseDups (source : Word) (keep : Char → Bool) :
    ListsOnce source (keep · = true) (source.eraseDups.filter keep) where
  mem c := by rw [List.mem_filter, List.mem_eraseDups]
  order := (pairwise_idxOf_eraseDups source).filter keep

theorem eraseDups_eq_self {w : Word} (h : w.Nodup) : w.eraseDups = w := by
  induction w with
  | nil => rfl
  | cons c w ih =>
    obtain ⟨new, rest⟩ := List.nodup_cons.mp h
    have others : w.filter (fun b => !b == c) = w := by
      refine List.filter_eq_self.mpr fun b hb => ?_
      have differs : b ≠ c := fun same => new (same ▸ hb)
      simpa using differs
    rw [List.eraseDups_cons, others, ih rest]

namespace Table

/-- The alphabets of a table are those of its transitions. No symbol of the stack alphabet
is idle, and there is no other that a transition pops, pushes or waits for. -/
structure Covers (t : Table) : Prop where
  top_iff : ∀ s, s ∈ t.stackAlphabet ↔ ∃ r ∈ t.transitions, r.key.top = s
  push : ∀ r ∈ t.transitions, ∀ o ∈ r.outcomes, ∀ s ∈ o.push, s ∈ t.stackAlphabet
  guard : ∀ r ∈ t.transitions, ∀ c, r.key.guard = .letter c → c ∈ t.inputAlphabet

end Table

namespace Grammar

variable {g : Grammar}

theorem letter_mem_stackAlphabet {a : Char} :
    .letter a ∈ g.compile.stackAlphabet ↔ a ∈ g.nonterminals ∨ a ∈ g.terminals := by
  simp [Table.stackAlphabet, compile, List.mem_eraseDups]

/-- Every letter of an alternative is a nonterminal or a terminal. -/
theorem letter_mem_stackAlphabet_of_alternative {a : Char} {r : Rule} {v : Word}
    (hr : r ∈ g.rules) (hv : v ∈ r.alternatives) (ha : a ∈ v) :
    .letter a ∈ g.compile.stackAlphabet := by
  have letter : a ∈ g.letters := mem_letters.mpr ⟨r, hr, v, hv, ha⟩
  rw [letter_mem_stackAlphabet, mem_terminals]
  by_cases head : a ∈ g.nonterminals
  · exact .inl head
  · exact .inr ⟨letter, head⟩

theorem letter_mem_stackAlphabet_iff_top {a : Char} :
    .letter a ∈ g.compile.stackAlphabet ↔
      ∃ t ∈ g.compile.transitions, t.key.top = .letter a := by
  rw [letter_mem_stackAlphabet]
  constructor
  · intro h
    rcases h with head | terminal
    · obtain ⟨r, hr, rfl⟩ := List.mem_map.mp head
      exact ⟨.expansion r, mem_transitions.mpr (.inl ⟨r, hr, rfl⟩), rfl⟩
    · exact ⟨.terminalMatch a, mem_transitions.mpr (.inr (.inl ⟨a, terminal, rfl⟩)), rfl⟩
  · intro h
    obtain ⟨t, ht, top⟩ := h
    rcases mem_transitions.mp ht with ⟨r, hr, rfl⟩ | ⟨c, hc, rfl⟩ | rfl
    · obtain rfl := StackSymbol.letter.inj top
      exact .inl (List.mem_map_of_mem hr)
    · obtain rfl := StackSymbol.letter.inj top
      exact .inr hc
    · cases top

theorem covers_compile (g : Grammar) : g.compile.Covers where
  top_iff s := by
    cases s with
    | letter a => exact letter_mem_stackAlphabet_iff_top
    | bottom =>
      have marker : .bottom ∈ g.compile.stackAlphabet := by simp [Table.stackAlphabet]
      exact iff_of_true marker ⟨.bottomPop, mem_transitions.mpr (.inr (.inr rfl)), rfl⟩
  push t ht o ho s hs := by
    rcases mem_transitions.mp ht with ⟨r, hr, rfl⟩ | ⟨c, hc, rfl⟩ | rfl
    · obtain ⟨v, hv, rfl⟩ := List.mem_map.mp ho
      obtain ⟨a, ha, rfl⟩ := List.mem_map.mp hs
      exact letter_mem_stackAlphabet_of_alternative hr hv (List.mem_reverse.mp ha)
    · -- a match and the popping of the marker push nothing
      obtain rfl := List.mem_singleton.mp ho
      cases hs
    · obtain rfl := List.mem_singleton.mp ho
      cases hs
  guard t ht c guarded := by
    rcases mem_transitions.mp ht with ⟨r, hr, rfl⟩ | ⟨a, ha, rfl⟩ | rfl
    · cases guarded
    · obtain rfl := Guard.letter.inj guarded
      exact ha
    · cases guarded

theorem listsOnce_nonterminals (g : Grammar) :
    ListsOnce g.nonterminals (fun _ => True) g.compile.nonterminals := by
  simpa [compile] using listsOnce_eraseDups g.nonterminals fun _ => true

theorem listsOnce_terminals (g : Grammar) :
    ListsOnce g.letters (· ∉ g.nonterminals) g.compile.inputAlphabet := by
  simpa [compile, terminals] using
    listsOnce_eraseDups g.letters fun c => !g.nonterminals.contains c

theorem disjoint_alphabets (g : Grammar) :
    g.compile.nonterminals.Disjoint g.compile.inputAlphabet := by
  intro c head terminal
  have settled := (((listsOnce_terminals g).mem c).mp terminal).2
  exact settled (((listsOnce_nonterminals g).mem c).mp head).1

theorem nodup_alphabets (g : Grammar) :
    (g.compile.nonterminals ++ g.compile.inputAlphabet).Nodup :=
  (listsOnce_nonterminals g).nodup.append (listsOnce_terminals g).nodup (disjoint_alphabets g)

theorem stackAlphabet_compile (g : Grammar) :
    g.compile.stackAlphabet =
      g.compile.nonterminals.map .letter ++ g.compile.inputAlphabet.map .letter ++ [.bottom] := by
  rw [Table.stackAlphabet, eraseDups_eq_self (nodup_alphabets g), List.map_append]

theorem nodup_stackAlphabet (g : Grammar) : g.compile.stackAlphabet.Nodup := by
  have letters : ((g.compile.nonterminals ++ g.compile.inputAlphabet).map
      StackSymbol.letter).Nodup :=
    (nodup_alphabets g).map fun _ _ same => StackSymbol.letter.inj same
  rw [stackAlphabet_compile, ← List.map_append]
  exact letters.append (List.nodup_singleton _) (by simp)

/-- The alphabets of a grammar's table are apart, list each of their letters once and in
reading order, and make up the stack alphabet, where the bottom marker comes last. They
hold what the transitions mention and nothing else. -/
theorem alphabets_compile (g : Grammar) :
    ListsOnce g.nonterminals (fun _ => True) g.compile.nonterminals ∧
      ListsOnce g.letters (· ∉ g.nonterminals) g.compile.inputAlphabet ∧
      g.compile.nonterminals.Disjoint g.compile.inputAlphabet ∧
      g.compile.stackAlphabet =
        g.compile.nonterminals.map .letter ++ g.compile.inputAlphabet.map .letter ++ [.bottom] ∧
      g.compile.stackAlphabet.Nodup ∧ g.compile.Covers :=
  ⟨listsOnce_nonterminals g, listsOnce_terminals g, disjoint_alphabets g, stackAlphabet_compile g,
    nodup_stackAlphabet g, covers_compile g⟩

end Grammar

end LetterGrammar
