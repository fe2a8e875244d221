import LetterGrammar.Search.Recognizer

/-! A verdict does not depend on the depth that was allowed for it: what a
search finds within some depth, it finds within any greater one. -/

namespace LetterGrammar

namespace Progress

theorem tryEach_mono {explore explore' : Progress → Option (Bool × Progress)} {pruning : Bool}
    {guard : Guard} {c : Configuration}
    (h : ∀ p r, explore p = some r → explore' p = some r) (os : List Outcome) (p : Progress)
    (r : Bool × Progress) (hr : tryEach explore pruning guard c os p = some r) :
    tryEach explore' pruning guard c os p = some r := by
  induction os generalizing p with
  | nil => exact hr
  | cons o os ih =>
    simp only [tryEach] at hr ⊢
    split at hr
    · next hp => simpa [hp] using ih _ hr
    · next hp =>
      rw [if_neg hp]
      split at hr
      · next ha => simpa [ha] using hr
      · next ha =>
        rw [if_neg ha]
        split at hr
        · cases hr
        · next he => simpa [h _ _ he] using hr
        · next he => simpa [h _ _ he] using ih _ hr

theorem extend_succ {t : Table} {pruning : Bool} {depth : Nat} {p : Progress}
    {r : Bool × Progress} (h : extend t pruning depth p = some r) :
    extend t pruning (depth + 1) p = some r := by
  induction depth generalizing p r with
  | zero => simp [extend] at h
  | succ depth ih =>
    rw [extend] at h ⊢
    split at h
    · next hp => simpa [hp] using h
    · split at h
      · next ht => simpa [ht] using h
      · next ht => simpa [ht] using tryEach_mono (fun p r hp => ih hp) _ _ _ h

theorem extend_mono {t : Table} {pruning : Bool} {depth depth' : Nat} {p : Progress}
    {r : Bool × Progress} (hd : depth ≤ depth') (h : extend t pruning depth p = some r) :
    extend t pruning depth' p = some r := by
  induction hd with
  | refl => exact h
  | step _ ih => exact extend_succ ih

end Progress

namespace Recognizer

theorem searchWithin_mono {r : Recognizer} {depth depth' : Nat} {input : Word}
    {a : Verdict × Tally} (hd : depth ≤ depth') (h : r.searchWithin depth input = some a) :
    r.searchWithin depth' input = some a := by
  obtain ⟨x, hx, rfl⟩ := Option.map_eq_some_iff.mp h
  exact Option.map_eq_some_iff.mpr ⟨x, Progress.extend_mono hd hx, rfl⟩

theorem searchWithin_unique {r : Recognizer} {depth depth' : Nat} {input : Word}
    {a b : Verdict × Tally} (ha : r.searchWithin depth input = some a)
    (hb : r.searchWithin depth' input = some b) : a = b := by
  have ha := searchWithin_mono (Nat.le_max_left depth depth') ha
  have hb := searchWithin_mono (Nat.le_max_right depth depth') hb
  exact Option.some.inj (ha.symm.trans hb)

end Recognizer

end LetterGrammar
