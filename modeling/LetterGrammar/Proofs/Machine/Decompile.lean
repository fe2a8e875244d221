import LetterGrammar.Machine.Compile

/-! Compilation read backwards. The rules of a grammar are all in its table, in their
order: they are the transitions that ask nothing of the input and have a letter on top,
and an alternative is what one of their choices pushes, read from the last symbol to the
first. A transition for a terminal asks for a letter, and the one for the bottom marker
has no letter on top, so neither passes for a rule. -/

namespace LetterGrammar

/-- The word that the symbols spell from the last to the first, if all are letters. -/
def Word.ofPushOrder? (symbols : List StackSymbol) : Option Word :=
  symbols.reverse.mapM StackSymbol.letter?

theorem Word.ofPushOrder?_pushOrder (w : Word) : ofPushOrder? w.pushOrder = some w := by
  have letters : StackSymbol.letter? ∘ StackSymbol.letter = fun c => pure c := rfl
  rw [ofPushOrder?, pushOrder, ← List.map_reverse, List.reverse_reverse, List.mapM_map, letters,
    List.mapM_pure, List.map_id']
  rfl

namespace Transition

/-- Nothing is asked of the input, and a letter is on top. -/
def expands (t : Transition) : Bool :=
  match t.key.guard, t.key.top with
  | .lambda, .letter _ => true
  | _, _ => false

/-- The rule for the letter on top whose alternatives are pushed. -/
def rule? (t : Transition) : Option Rule := do
  let n ← t.key.top.letter?
  let alternatives ← t.outcomes.mapM fun o => Word.ofPushOrder? o.push
  return ⟨n, alternatives⟩

theorem rule?_expansion (r : Rule) : (expansion r).rule? = some r := by
  have pushed : (fun o : Outcome => Word.ofPushOrder? o.push) ∘ (fun w => ⟨.initial, w.pushOrder⟩) =
      fun w => pure w := funext Word.ofPushOrder?_pushOrder
  rw [rule?, expansion, List.mapM_map, pushed, List.mapM_pure, List.map_id']
  rfl

end Transition

/-- The rules that a table expands, in the order of its transitions. -/
def Table.grammar? (t : Table) : Option Grammar := do
  let rules ← (t.transitions.filter Transition.expands).mapM Transition.rule?
  return ⟨rules⟩

namespace Grammar

/-- The expansions are the transitions of the rules. -/
theorem filter_expands_compile (g : Grammar) :
    g.compile.transitions.filter Transition.expands = g.rules.map Transition.expansion := by
  have expansions : (g.rules.map Transition.expansion).filter Transition.expands =
      g.rules.map Transition.expansion := by
    refine List.filter_eq_self.mpr fun t ht => ?_
    obtain ⟨r, _, rfl⟩ := List.mem_map.mp ht
    rfl
  have readings : (g.terminals.map Transition.terminalMatch).filter Transition.expands = [] := by
    refine List.filter_eq_nil_iff.mpr fun t ht => ?_
    obtain ⟨c, _, rfl⟩ := List.mem_map.mp ht
    exact Bool.false_ne_true
  have marker : [Transition.bottomPop].filter Transition.expands = [] := rfl
  rw [compile, List.filter_append, List.filter_append, expansions, readings, marker,
    List.append_nil, List.append_nil]

theorem grammar?_compile (g : Grammar) : g.compile.grammar? = some g := by
  have rules : Transition.rule? ∘ Transition.expansion = fun r => pure r :=
    funext Transition.rule?_expansion
  rw [Table.grammar?, filter_expands_compile, List.mapM_map, rules, List.mapM_pure, List.map_id']
  rfl

/-- A grammar can be read off its table, so grammars with the same table are the same. -/
theorem compile_loses_nothing (g g' : Grammar) :
    g.compile.grammar? = some g ∧ (g.compile = g'.compile ↔ g = g') := by
  refine ⟨grammar?_compile g, ?_, congrArg compile⟩
  intro same
  have read := grammar?_compile g
  rw [same, grammar?_compile] at read
  exact (Option.some.inj read).symm

/-- A rule that comes twice, an empty alternative and a rule without any: all is kept. -/
example : (compile ⟨[⟨'S', [['a', 'S'], []]⟩, ⟨'A', []⟩, ⟨'S', [['a', 'S'], []]⟩]⟩).grammar? =
    some ⟨[⟨'S', [['a', 'S'], []]⟩, ⟨'A', []⟩, ⟨'S', [['a', 'S'], []]⟩]⟩ := by decide

end Grammar

end LetterGrammar
