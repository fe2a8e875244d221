import LetterGrammar.Proofs.Machine.Forms

/-! What the table of a grammar answers. Look-up takes the first transition that
applies, so in general the order of a table is part of its meaning. In the table of
a grammar the top of the stack alone decides the key of what applies to it:
nonterminals and terminals are apart, and the bottom marker is neither. Order then
counts only among transitions with the same key, and these are the expansions of
rules that one nonterminal heads. -/

namespace LetterGrammar

namespace Table

variable {t t' : Table} {state : State} {next : Char} {top : StackSymbol}

/-- All transitions that apply to the same query have the same key. -/
def Unambiguous (t : Table) : Prop :=
  ∀ state next top, ∀ r ∈ t.transitions, ∀ r' ∈ t.transitions,
    r.applies state next top = true → r'.applies state next top = true → r.key = r'.key

/-- The same transitions in an order that keeps those with the same key in theirs. -/
structure Rearranges (t t' : Table) : Prop where
  order : t.transitions.Perm t'.transitions
  sameKey : ∀ k, t.transitions.filter (·.key = k) = t'.transitions.filter (·.key = k)

theorem rearranges_iff :
    t.Rearranges t' ↔ t.transitions.Perm t'.transitions ∧
      ∀ k ∈ t.transitions.map Transition.key,
        t.transitions.filter (·.key = k) = t'.transitions.filter (·.key = k) := by
  constructor
  · intro h
    exact ⟨h.order, fun k _ => h.sameKey k⟩
  · rintro ⟨order, sameKey⟩
    refine ⟨order, fun k => ?_⟩
    by_cases hk : k ∈ t.transitions.map Transition.key
    · exact sameKey k hk
    · have unused : t.transitions.filter (·.key = k) = [] := by
        refine List.filter_eq_nil_iff.mpr fun r hr keyed => hk ?_
        exact List.mem_map.mpr ⟨r, hr, of_decide_eq_true keyed⟩
      have unused' := order.filter (·.key = k)
      rw [unused] at unused' ⊢
      exact unused'.nil_eq

instance : Decidable (t.Rearranges t') := decidable_of_iff _ rearranges_iff.symm

theorem Unambiguous.of_perm (h : t.Unambiguous) (order : t.transitions.Perm t'.transitions) :
    t'.Unambiguous := fun state next top r hr r' hr' =>
  h state next top r (order.mem_iff.mpr hr) r' (order.mem_iff.mpr hr')

/-- What applies to a query are the transitions with one key. -/
theorem Unambiguous.find?_eq_head? (h : t.Unambiguous) {r : Transition} (hr : r ∈ t.transitions)
    (applies : r.applies state next top = true) :
    t.find? state next top = (t.transitions.filter (·.key = r.key)).head? := by
  have sameKey : t.transitions.filter (·.applies state next top) =
      t.transitions.filter (·.key = r.key) := by
    refine List.filter_congr fun s hs => Bool.eq_iff_iff.mpr ?_
    rw [decide_eq_true_iff]
    constructor
    · intro applies'
      exact h state next top s hs r hr applies' applies
    · intro same
      rwa [Transition.applies, same]
  rw [find?, ← List.head?_filter, sameKey]

theorem Unambiguous.find?_rearranged (h : t.Unambiguous) (again : t.Rearranges t') :
    t'.find? state next top = t.find? state next top := by
  cases found : t.find? state next top with
  | none =>
    have idle := List.find?_eq_none.mp found
    exact List.find?_eq_none.mpr fun r hr => idle r (again.order.mem_iff.mpr hr)
  | some r =>
    have hr := List.mem_of_find?_eq_some found
    have applies := List.find?_some found
    have hr' := again.order.mem_iff.mp hr
    -- in both orders the answer is the first transition with the key of `r`
    rw [← found, h.find?_eq_head? hr applies, again.sameKey,
      (h.of_perm again.order).find?_eq_head? hr' applies]

end Table

namespace Grammar

variable {g : Grammar}

/-- The key of all transitions for a top. -/
def keyFor (g : Grammar) : StackSymbol → Key
  | .bottom => ⟨.initial, .lambda, .bottom⟩
  | .letter c => ⟨.initial, if c ∈ g.nonterminals then .lambda else .letter c, .letter c⟩

theorem key_eq_keyFor {r : Transition} (hr : r ∈ g.compile.transitions) :
    r.key = g.keyFor r.key.top := by
  rcases mem_transitions.mp hr with ⟨rule, hrule, rfl⟩ | ⟨c, hc, rfl⟩ | rfl
  · have head : rule.nonterminal ∈ g.nonterminals := List.mem_map_of_mem hrule
    simp [Transition.expansion, keyFor, head]
  · simp [Transition.terminalMatch, keyFor, (mem_terminals.mp hc).2]
  · rfl

theorem unambiguous_compile (g : Grammar) : g.compile.Unambiguous := by
  intro state next top r hr r' hr' applies applies'
  have top_eq : r.key.top = top := (Transition.applies_iff.mp applies).2.1
  have top_eq' : r'.key.top = top := (Transition.applies_iff.mp applies').2.1
  rw [key_eq_keyFor hr, key_eq_keyFor hr', top_eq, top_eq']

/-- All transitions start in the initial state. -/
theorem find?_compile_elsewhere {state : State} (elsewhere : state ≠ .initial) (next : Char)
    (top : StackSymbol) : g.compile.find? state next top = none := by
  refine List.find?_eq_none.mpr fun r hr applies => elsewhere ?_
  rw [← (Transition.applies_iff.mp applies).1, key_eq_keyFor hr]
  cases r.key.top <;> rfl

/-- What the table is for, told by its cases: the marker is popped and a nonterminal
expanded by its first rule, whatever comes next; a terminal waits for itself. -/
def transitionFor? (g : Grammar) (state : State) (next : Char) (top : StackSymbol) :
    Option Transition :=
  if state = .initial then
    match top with
    | .bottom => some .bottomPop
    | .letter c =>
      match g.ruleFor? c with
      | some r => some (.expansion r)
      | none => if c ∈ g.compile.inputAlphabet ∧ c = next then some (.terminalMatch c) else none
  else none

theorem find?_compile (g : Grammar) (state : State) (next : Char) (top : StackSymbol) :
    g.compile.find? state next top = g.transitionFor? state next top := by
  unfold transitionFor?
  split
  · next here =>
    subst here
    cases top with
    | bottom => exact find?_compile_bottom g next
    | letter c =>
      cases hr : g.ruleFor? c with
      | some r =>
        simp only [hr]
        exact find?_compile_rule hr
      | none =>
        simp only [hr]
        exact find?_compile_settled hr
  · next elsewhere => exact find?_compile_elsewhere elsewhere next top

/-- Look-up in the table of a grammar is told by its cases. No two transitions with
different keys compete for a query, so the answers stay the same in every order that
keeps transitions with the same key in theirs. -/
theorem lookup_compile (g : Grammar) :
    (∀ state next top, g.compile.find? state next top = g.transitionFor? state next top) ∧
      g.compile.Unambiguous ∧
      ∀ t, g.compile.Rearranges t →
        ∀ state next top, t.find? state next top = g.compile.find? state next top :=
  ⟨find?_compile g, unambiguous_compile g, fun _ again _ _ _ =>
    (unambiguous_compile g).find?_rearranged again⟩

/-- Two rules for `S`, which also stands in alternatives, and one terminal that only
the later rule brings. -/
def doubled : Grammar :=
  ⟨[⟨'T', [['b'], ['S', 'b']]⟩, ⟨'S', [['a', 'T'], ['S']]⟩, ⟨'S', [['c']]⟩]⟩

/-- The table of `doubled` from the back to the front, but for the two rules. -/
def doubledTurned : Table := { doubled.compile with
  transitions := [.bottomPop, .terminalMatch 'c', .terminalMatch 'a', .terminalMatch 'b',
    .expansion ⟨'S', [['a', 'T'], ['S']]⟩, .expansion ⟨'S', [['c']]⟩,
    .expansion ⟨'T', [['b'], ['S', 'b']]⟩] }

theorem doubled_lookup :
    doubled.compile.Rearranges doubledTurned ∧
      doubledTurned.find? .initial 'c' (.letter 'S') =
        some (.expansion ⟨'S', [['a', 'T'], ['S']]⟩) ∧
      doubledTurned.find? .initial 'c' (.letter 'c') = some (.terminalMatch 'c') ∧
      doubledTurned.find? .initial 'a' (.letter 'c') = none := by
  have again : doubled.compile.Rearranges doubledTurned := by decide
  obtain ⟨cases, _, same⟩ := lookup_compile doubled
  refine ⟨again, ?_, ?_, ?_⟩ <;> rw [same _ again, cases] <;> decide

end Grammar

end LetterGrammar
