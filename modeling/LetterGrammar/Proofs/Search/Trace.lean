import LetterGrammar.Proofs.Search.Exploration

/-! A search with its trace: every path that it was on, where its answer tells only
the path on which it ended. The traced search is written beside the search and is the
same one. At each depth it gives the same answer (`answer_trace`), and since a greater
depth only adds to what a smaller one has traced, a search that does not end has a
trace too. -/

namespace LetterGrammar

/-- What a search does with its path. -/
inductive Event where
  /-- A configuration is laid onto it. -/
  | lay
  /-- The search goes on from the newest configuration. -/
  | extend
  /-- The newest configuration is taken back. -/
  | drop
deriving DecidableEq

/-- An event, and the path right after it. -/
structure Moment where
  event : Event
  /-- The newest configuration comes first. -/
  path : List Configuration
deriving DecidableEq

/-- The path from its first configuration on. -/
def Moment.chain (m : Moment) : Chain := m.path.reverse

/-- The moments of a search, and where it stands after them. -/
structure Trace where
  moments : List Moment
  reached : Progress
  /-- Whether it has found acceptance; `none` where it is cut short by its depth. -/
  found? : Option Bool

namespace Trace

/-- What the search answers. -/
def answer (tr : Trace) : Option (Bool × Progress) := tr.found?.map fun b => (b, tr.reached)

/-- The trace, begun with other moments. -/
def after (tr : Trace) (ms : List Moment) : Trace := ⟨ms ++ tr.moments, tr.reached, tr.found?⟩

/-- Goes on from where the trace ends, if that is a failure. -/
def orElse (tr : Trace) (later : Progress → Trace) : Trace :=
  match tr.found? with
  | some false => (later tr.reached).after tr.moments
  | _ => tr

end Trace

namespace Progress

/-- `tryEach` with its trace. -/
def traceEach (explore : Progress → Trace) (pruning : Bool) (guard : Guard) (c : Configuration) :
    List Outcome → Progress → Trace
  | [], p => ⟨[], p, some false⟩
  | o :: os, p =>
    let next := c.successor guard o
    let tried := p.push next
    let laid : Moment := ⟨.lay, tried.path⟩
    if pruning && next.outgrowsInput then
      (traceEach explore pruning guard c os tried.prune).after [laid, ⟨.drop, tried.prune.path⟩]
    else if next.accepting then ⟨[laid], tried, some true⟩
    else ((explore tried).orElse fun left =>
      (traceEach explore pruning guard c os left.backtrack).after
        [⟨.drop, left.backtrack.path⟩]).after [laid]

/-- `extend` with its trace. -/
def trace (table : Table) (pruning : Bool) : Nat → Progress → Trace
  | 0, p => ⟨[⟨.extend, p.path⟩], p, none⟩
  | depth + 1, p =>
    let onward : Trace :=
      match p.path with
      | [] => ⟨[], p, some false⟩
      | c :: _ =>
        match table.transition? c with
        | none => ⟨[], p, some false⟩
        | some t => traceEach (trace table pruning depth) pruning t.key.guard c t.outcomes p
    onward.after [⟨.extend, p.path⟩]

end Progress

/-- The moments of a search, from the seed on. -/
def Recognizer.moments (r : Recognizer) (depth : Nat) (input : Word) : List Moment :=
  let p := Progress.start (.seed input r.start)
  ⟨.lay, p.path⟩ :: (Progress.trace r.table r.pruning depth p).moments

namespace Trace

variable {tr tr' : Trace} {later later' : Progress → Trace}

theorem answer_of_found {b : Bool} (found : tr.found? = some b) :
    tr.answer = some (b, tr.reached) := by
  rw [answer, found]
  rfl

theorem answer_of_cut (cut : tr.found? = none) : tr.answer = none := by
  rw [answer, cut]
  rfl

theorem reached_of_answer {b : Bool} {q : Progress} (h : tr.answer = some (b, q)) :
    tr.reached = q := by
  obtain ⟨_, _, answer⟩ := Option.map_eq_some_iff.mp h
  exact (Prod.mk.inj answer).2

@[simp] theorem answer_after (tr : Trace) (ms : List Moment) : (tr.after ms).answer = tr.answer :=
  rfl

theorem orElse_of_failed (failed : tr.found? = some false) :
    tr.orElse later = (later tr.reached).after tr.moments := by
  rw [orElse, failed]

theorem orElse_of_stopped (stopped : tr.found? ≠ some false) : tr.orElse later = tr := by
  rw [orElse]
  split
  · next failed => exact absurd failed stopped
  · rfl

/-- The same trace, or one without an answer and one that goes further. -/
def Grows (tr tr' : Trace) : Prop :=
  tr = tr' ∨ tr.found? = none ∧ tr.moments <+: tr'.moments

theorem Grows.after (h : tr.Grows tr') (ms : List Moment) : (tr.after ms).Grows (tr'.after ms) := by
  rcases h with rfl | ⟨cut, begins⟩
  · exact .inl rfl
  · exact .inr ⟨cut, (List.prefix_append_right_inj ms).mpr begins⟩

theorem prefix_moments_orElse (tr : Trace) (later : Progress → Trace) :
    tr.moments <+: (tr.orElse later).moments := by
  rw [orElse]
  split
  · exact List.prefix_append _ _
  · exact List.prefix_rfl

theorem mem_moments_orElse {m : Moment} (hm : m ∈ (tr.orElse later).moments) :
    m ∈ tr.moments ∨
      tr.answer = some (false, tr.reached) ∧ m ∈ (later tr.reached).moments := by
  rw [orElse] at hm
  split at hm
  · next failed =>
    exact (List.mem_append.mp hm).imp_right fun hm => ⟨answer_of_found failed, hm⟩
  · exact .inl hm

theorem Grows.orElse (h : tr.Grows tr') (hl : ∀ q, (later q).Grows (later' q)) :
    (tr.orElse later).Grows (tr'.orElse later') := by
  rcases h with rfl | ⟨cut, begins⟩
  · unfold Trace.orElse
    split
    · exact (hl _).after _
    · exact .inl rfl
  · -- what is cut short does not go on, whatever the longer trace does
    rw [orElse_of_stopped (by simp [cut])]
    exact .inr ⟨cut, begins.trans (prefix_moments_orElse tr' later')⟩

theorem Grows.moments (h : tr.Grows tr') : tr.moments <+: tr'.moments := by
  rcases h with rfl | ⟨_, begins⟩
  · exact List.prefix_rfl
  · exact begins

theorem Grows.trans {tr'' : Trace} (h : tr.Grows tr') (h' : tr'.Grows tr'') : tr.Grows tr'' := by
  rcases h with rfl | ⟨cut, begins⟩
  · exact h'
  · exact .inr ⟨cut, begins.trans h'.moments⟩

end Trace

namespace Progress

theorem answer_traceEach {explore : Progress → Trace} {plain : Progress → Option (Bool × Progress)}
    (same : ∀ p, (explore p).answer = plain p) (pruning : Bool) (guard : Guard) (c : Configuration)
    (os : List Outcome) (p : Progress) :
    (traceEach explore pruning guard c os p).answer = tryEach plain pruning guard c os p := by
  fun_induction traceEach explore pruning guard c os p with
  | case1 => rfl
  | case2 o os p next tried laid hopeless ih =>
    rw [tryEach, if_pos hopeless]
    exact ih
  | case3 o os p next tried laid kept accepting =>
    rw [tryEach, if_neg kept, if_pos accepting]
    rfl
  | case4 o os p next tried laid kept unfinished ih =>
    rw [tryEach, if_neg kept, if_neg unfinished, ← same tried, Trace.answer_after]
    cases h : (explore tried).found? with
    | none => rw [Trace.orElse_of_stopped (by simp [h]), Trace.answer_of_cut h]
    | some b =>
      rw [Trace.answer_of_found h]
      cases b with
      | true => rw [Trace.orElse_of_stopped (by simp [h]), Trace.answer_of_found h]
      | false =>
        rw [Trace.orElse_of_failed h]
        exact ih _

/-- At every depth the traced search answers what the search answers. -/
theorem answer_trace (t : Table) (pruning : Bool) (depth : Nat) (p : Progress) :
    (trace t pruning depth p).answer = extend t pruning depth p := by
  induction depth generalizing p with
  | zero => rfl
  | succ depth ih =>
    rw [trace, extend, Trace.answer_after]
    cases p.path with
    | nil => rfl
    | cons c below =>
      simp only
      cases t.transition? c with
      | none => rfl
      | some s => exact answer_traceEach ih pruning s.key.guard c s.outcomes p

theorem grows_traceEach {explore explore' : Progress → Trace}
    (grows : ∀ p, (explore p).Grows (explore' p)) (pruning : Bool) (guard : Guard)
    (c : Configuration) (os : List Outcome) (p : Progress) :
    (traceEach explore pruning guard c os p).Grows (traceEach explore' pruning guard c os p) := by
  fun_induction traceEach explore pruning guard c os p with
  | case1 => exact .inl rfl
  | case2 o os p next tried laid hopeless ih =>
    rw [traceEach, if_pos hopeless]
    exact ih.after _
  | case3 o os p next tried laid kept accepting =>
    rw [traceEach, if_neg kept, if_pos accepting]
    exact .inl rfl
  | case4 o os p next tried laid kept unfinished ih =>
    rw [traceEach, if_neg kept, if_neg unfinished]
    exact ((grows tried).orElse fun left => (ih left).after _).after _

theorem grows_trace_succ (t : Table) (pruning : Bool) (depth : Nat) (p : Progress) :
    (trace t pruning depth p).Grows (trace t pruning (depth + 1) p) := by
  induction depth generalizing p with
  | zero => exact .inr ⟨rfl, List.prefix_append _ _⟩
  | succ depth ih =>
    rw [trace, trace]
    refine Trace.Grows.after ?_ _
    cases p.path with
    | nil => exact .inl rfl
    | cons c below =>
      simp only
      cases t.transition? c with
      | none => exact .inl rfl
      | some s => exact grows_traceEach ih pruning s.key.guard c s.outcomes p

/-- A greater depth only adds to a search that has not come to an answer. -/
theorem grows_trace (t : Table) (pruning : Bool) {depth depth' : Nat} (hd : depth ≤ depth')
    (p : Progress) : (trace t pruning depth p).Grows (trace t pruning depth' p) := by
  induction hd with
  | refl => exact .inl rfl
  | step _ ih => exact ih.trans (grows_trace_succ t pruning _ p)

end Progress

/-- The depth decides where the moments stop and nothing else. -/
theorem Recognizer.moments_prefix (r : Recognizer) (input : Word) {depth depth' : Nat}
    (hd : depth ≤ depth') : r.moments depth input <+: r.moments depth' input := by
  have grows := Progress.grows_trace r.table r.pruning hd (.start (.seed input r.start))
  exact List.cons_prefix_cons.mpr ⟨rfl, grows.moments⟩

end LetterGrammar
