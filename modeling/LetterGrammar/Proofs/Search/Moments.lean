import LetterGrammar.Proofs.Search.Trace

/-! A search from moment to moment. Its path only ever grows by a candidate or loses
its newest configuration, and it goes on only from what is not cut. No moment is
missing from its trace: the moments lead from where it begins to where it stands, and
the tally has counted them. -/

namespace LetterGrammar

namespace Table

variable {t : Table} {pruning : Bool} {first : Configuration}

/-- A path on which each configuration is a candidate of the one before. -/
inductive Path (t : Table) (first : Configuration) : List Configuration → Prop where
  | first : Path t first [first]
  | lay {c d : Configuration} {path : List Configuration} (before : Path t first (c :: path))
      (candidate : d ∈ t.candidates c) : Path t first (d :: c :: path)

/-- The newest configuration of a path is its first, or has not been cut. -/
def Kept (pruning : Bool) (path : List Configuration) : Prop :=
  ∀ d c below, path = d :: c :: below → (pruning && d.outgrowsInput) = false

/-- What holds at a moment of a search from its first configuration. -/
structure Admits (t : Table) (pruning : Bool) (first : Configuration) (m : Moment) : Prop where
  path : t.Path first m.path
  kept : m.event = .extend → Kept pruning m.path

end Table

namespace Progress

variable {t : Table} {pruning : Bool} {first : Configuration}

/-- All moments of trying choices are admitted, if all moments of the searches that
follow them are. -/
theorem admits_of_mem_traceEach {explore : Progress → Trace}
    (faithful : Faithful t pruning fun p => (explore p).answer)
    (hd : ∀ p, t.Path first p.path → Table.Kept pruning p.path →
      ∀ m ∈ (explore p).moments, t.Admits pruning first m)
    {guard : Guard} {c : Configuration} {below : List Configuration}
    (os : List Outcome) (hos : ∀ o ∈ os, c.successor guard o ∈ t.candidates c) (p : Progress)
    (hp : p.path = c :: below) (path : t.Path first p.path) :
    ∀ m ∈ (traceEach explore pruning guard c os p).moments, t.Admits pruning first m := by
  induction os generalizing p with
  | nil => simp [traceEach]
  | cons o os ih =>
    obtain ⟨candidate, hos⟩ := List.forall_mem_cons.mp hos
    have onward : t.Path first (p.push (c.successor guard o)).path := by
      rw [hp] at path
      simpa only [push, hp] using path.lay candidate
    -- however the choice ends, the path is then what it was before
    have later (q : Progress) (back : q.path = p.path) :
        ∀ m ∈ (⟨.drop, q.path⟩ : Moment) :: (traceEach explore pruning guard c os q).moments,
          t.Admits pruning first m := by
      refine List.forall_mem_cons.mpr ⟨⟨back ▸ path, by simp⟩, ?_⟩
      exact ih hos q (back.trans hp) (back ▸ path)
    rw [traceEach]
    split
    · exact List.forall_mem_cons.mpr ⟨⟨onward, by simp⟩, later _ rfl⟩
    · next kept =>
      split
      · exact List.forall_mem_singleton.mpr ⟨onward, by simp⟩
      · refine List.forall_mem_cons.mpr ⟨⟨onward, by simp⟩, fun m hm => ?_⟩
        rcases Trace.mem_moments_orElse hm with hm | ⟨failed, hm⟩
        · refine hd _ onward (fun d c' below' hpath => ?_) m hm
          obtain rfl : c.successor guard o = d := (List.cons.inj hpath).1
          exact Bool.eq_false_iff.mpr kept
        · obtain ⟨found, inside, _, hr⟩ := faithful _ _ _ rfl failed
          obtain ⟨nothing, carried⟩ := Prod.mk.inj hr
          obtain rfl : found = none := by simpa using nothing
          refine later _ ?_ m hm
          rw [carried]
          rfl

/-- Every moment of a search has a path of candidates, and the search goes on only
from what is kept. -/
theorem admits_of_mem_trace {depth : Nat} {p : Progress} (path : t.Path first p.path)
    (kept : Table.Kept pruning p.path) :
    ∀ m ∈ (trace t pruning depth p).moments, t.Admits pruning first m := by
  induction depth generalizing p with
  | zero => exact List.forall_mem_singleton.mpr ⟨path, fun _ => kept⟩
  | succ depth ih =>
    rw [trace]
    refine List.forall_mem_cons.mpr ⟨⟨path, fun _ => kept⟩, ?_⟩
    split
    · simp
    · next c below hp =>
      split
      · simp
      · next s ht =>
        have faithful : Faithful t pruning fun p => (trace t pruning depth p).answer := by
          simpa only [answer_trace] using faithful_extend t pruning depth
        refine admits_of_mem_traceEach faithful (fun p path kept => ih path kept) _ ?_ p hp path
        intro o ho
        exact Table.mem_candidates.mpr ⟨s, ht, o, ho, rfl⟩

/-- These moments lead from `p` to `q`: the last of them has the path of `q`, and the
tally has grown by one configuration for each that was laid down and by one cut or
backtrack for each that was dropped. -/
structure Records (p q : Progress) (ms : List Moment) : Prop where
  path : ms.getLast?.elim p.path Moment.path = q.path
  laid : q.tally.configurations = p.tally.configurations + ms.countP (·.event = .lay)
  dropped : q.tally.pruned + q.tally.backtracks =
    p.tally.pruned + p.tally.backtracks + ms.countP (·.event = .drop)

theorem Records.refl (p : Progress) : Records p p [] := ⟨rfl, rfl, rfl⟩

theorem Records.append {p q r : Progress} {ms ms' : List Moment} (h : Records p q ms)
    (h' : Records q r ms') : Records p r (ms ++ ms') where
  path := by
    have last := h'.path
    rw [List.getLast?_append]
    cases hm : ms'.getLast? with
    | none =>
      rw [hm] at last
      exact h.path.trans last
    | some m =>
      rw [hm] at last
      exact last
  laid := by rw [List.countP_append, h'.laid, h.laid, Nat.add_assoc]
  dropped := by rw [List.countP_append, h'.dropped, h.dropped, Nat.add_assoc]

theorem Records.extend (p : Progress) : Records p p [⟨.extend, p.path⟩] := ⟨rfl, rfl, rfl⟩

theorem Records.push (p : Progress) (d : Configuration) :
    Records p (p.push d) [⟨.lay, (p.push d).path⟩] := ⟨rfl, rfl, rfl⟩

theorem Records.prune (p : Progress) : Records p p.prune [⟨.drop, p.prune.path⟩] :=
  ⟨rfl, rfl, Nat.succ_add _ _⟩

theorem Records.backtrack (p : Progress) : Records p p.backtrack [⟨.drop, p.backtrack.path⟩] :=
  ⟨rfl, rfl, rfl⟩

/-- The moments of a trace lead to where it stands. -/
def Recorded (p : Progress) (tr : Trace) : Prop := Records p tr.reached tr.moments

theorem Recorded.after {p q : Progress} {tr : Trace} {ms : List Moment} (h : Recorded q tr)
    (before : Records p q ms) : Recorded p (tr.after ms) := before.append h

theorem Recorded.orElse {p : Progress} {tr : Trace} {later : Progress → Trace}
    (h : Recorded p tr) (hl : ∀ left, Recorded left (later left)) :
    Recorded p (tr.orElse later) := by
  unfold Trace.orElse
  split
  · exact (hl tr.reached).after h
  · exact h

theorem recorded_traceEach {explore : Progress → Trace} (hd : ∀ p, Recorded p (explore p))
    (guard : Guard) (c : Configuration) (os : List Outcome) (p : Progress) :
    Recorded p (traceEach explore pruning guard c os p) := by
  fun_induction traceEach explore pruning guard c os p with
  | case1 p => exact Records.refl p
  | case2 o os p next tried laid hopeless ih =>
    exact ih.after ((Records.push p next).append (Records.prune tried))
  | case3 o os p next tried laid kept accepting => exact Records.push p next
  | case4 o os p next tried laid kept unfinished ih =>
    have later (left : Progress) := (ih left).after (Records.backtrack left)
    exact ((hd tried).orElse later).after (Records.push p next)

/-- No moment is missing, at any depth. -/
theorem recorded_trace (t : Table) (pruning : Bool) (depth : Nat) (p : Progress) :
    Recorded p (trace t pruning depth p) := by
  induction depth generalizing p with
  | zero => exact Records.extend p
  | succ depth ih =>
    rw [trace]
    refine Recorded.after ?_ (Records.extend p)
    split
    · exact Records.refl p
    · split
      · exact Records.refl p
      · exact recorded_traceEach ih _ _ _ p

end Progress

namespace Recognizer

variable {r : Recognizer} {depth : Nat} {input : Word}

theorem admits_of_mem_moments {m : Moment} (hm : m ∈ r.moments depth input) :
    r.table.Admits r.pruning (.seed input r.start) m := by
  have path : r.table.Path (.seed input r.start) [.seed input r.start] := .first
  have kept : Table.Kept r.pruning [Configuration.seed input r.start] := by simp [Table.Kept]
  rcases List.mem_cons.mp hm with rfl | hm
  · exact ⟨path, fun _ => kept⟩
  · exact Progress.admits_of_mem_trace path kept m hm

/-- A search that ends has laid down the seed and what its
tally counts as configurations, and has dropped what was cut and what was taken
back; a chain that it accepts is the chain of its last moment. -/
theorem moments_of_searchWithin {v : Verdict} {tally : Tally}
    (h : r.searchWithin depth input = some (v, tally)) :
    (r.moments depth input).countP (·.event = .lay) = tally.configurations + 1 ∧
      (r.moments depth input).countP (·.event = .drop) = tally.pruned + tally.backtracks ∧
      ∀ chain, v = .accepted chain → (r.moments depth input).getLast?.map Moment.chain = some chain := by
  obtain ⟨⟨b, q⟩, hq, hv⟩ := Option.map_eq_some_iff.mp h
  have records := Progress.recorded_trace r.table r.pruning depth (.start (.seed input r.start))
  rw [← Progress.answer_trace] at hq
  rw [Progress.Recorded, Trace.reached_of_answer hq] at records
  obtain rfl : q.tally = tally := by
    cases b <;> exact (Prod.mk.inj hv).2
  have laid := records.laid
  have dropped := records.dropped
  simp only [Progress.start, Tally.zero, Nat.zero_add] at laid dropped
  refine ⟨?_, ?_, ?_⟩
  · rw [moments, List.countP_cons_of_pos (by simp), laid]
    rfl
  · rw [moments, List.countP_cons_of_neg (by simp), dropped]
    rfl
  · intro chain accepted
    have chained : q.chain = chain := by
      subst accepted
      cases b <;> cases hv
      rfl
    have last := records.path
    rw [moments, List.getLast?_cons, Option.map_some, ← chained, Progress.chain, ← last]
    cases (Progress.trace _ _ _ _).moments.getLast? <;> rfl

end Recognizer

end LetterGrammar
