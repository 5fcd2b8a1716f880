import Mathlib

/-!
# Leftmost positions

A search loop that goes upwards from a position and leaves at the first one with a property gives
the least such position, or finds none.  `LeftmostFrom P start r` says that `r` is that answer.
The loop is followed backwards: the answer of the rest of the search is the answer from the
position before, unless that one has the property (`LeftmostFrom.later`, `LeftmostFrom.here`).
-/

namespace TinyMsg

variable {P Q : ℕ → Prop} {start : ℕ} {r : Option ℕ}

/-- `r` is the least position from `start` on that has the property, `none` when there is none. -/
structure LeftmostFrom (P : ℕ → Prop) (start : ℕ) (r : Option ℕ) : Prop where
  /-- A position is the answer exactly when it is the least one. -/
  some_iff : ∀ i, r = some i ↔ start ≤ i ∧ P i ∧ ∀ j, start ≤ j → j < i → ¬ P j
  /-- There is no answer exactly when there is no position. -/
  none_iff : r = none ↔ ∀ i, start ≤ i → ¬ P i

/-- The search is over at a position with the property. -/
theorem LeftmostFrom.here (h : P start) : LeftmostFrom P start (some start) where
  some_iff i := by
    constructor
    · intro hi
      obtain rfl := Option.some.inj hi
      exact ⟨le_rfl, h, fun j hj hlt => absurd hlt (not_lt.mpr hj)⟩
    · rintro ⟨hle, -, hleast⟩
      rcases hle.eq_or_lt with rfl | hlt
      · rfl
      · exact absurd h (hleast start le_rfl hlt)
  none_iff := by
    constructor
    · intro hnone
      cases hnone
    · intro hnot
      exact absurd h (hnot start le_rfl)

/-- It goes on from a position without the property. -/
theorem LeftmostFrom.later (h : LeftmostFrom P (start + 1) r) (hnot : ¬ P start) :
    LeftmostFrom P start r where
  some_iff i := by
    rw [h.some_iff]
    constructor
    · rintro ⟨hle, hi, hleast⟩
      refine ⟨(Nat.le_succ _).trans hle, hi, fun j hj hlt => ?_⟩
      rcases hj.eq_or_lt with rfl | hj
      · exact hnot
      · exact hleast j hj hlt
    · rintro ⟨hle, hi, hleast⟩
      have hne : start ≠ i := by
        rintro rfl
        exact hnot hi
      exact ⟨lt_of_le_of_ne hle hne, hi, fun j hj => hleast j ((Nat.le_succ _).trans hj)⟩
  none_iff := by
    rw [h.none_iff]
    constructor
    · intro hrest i hi
      rcases hi.eq_or_lt with rfl | hi
      · exact hnot
      · exact hrest i hi
    · exact fun hall i hi => hall i ((Nat.le_succ _).trans hi)

/-- It finds nothing when there is nothing to find. -/
theorem LeftmostFrom.never (h : ∀ i, start ≤ i → ¬ P i) : LeftmostFrom P start none where
  some_iff i := by
    constructor
    · intro hi
      cases hi
    · rintro ⟨hle, hi, -⟩
      exact absurd hi (h i hle)
  none_iff := iff_of_true rfl h

/-- The occurrences in the rest of a list are those at the positions of the rest. -/
theorem infix_drop_iff {α : Type*} {s l : List α} {k : ℕ} :
    s <:+: l.drop k ↔ ∃ i, k ≤ i ∧ s <+: l.drop i := by
  constructor
  · rintro ⟨a, b, hab⟩
    refine ⟨k + a.length, Nat.le_add_right _ _, b, ?_⟩
    rw [← List.drop_drop, ← hab, List.append_assoc, List.drop_left]
  · rintro ⟨i, hle, hi⟩
    refine hi.isInfix.trans ?_
    rw [← Nat.add_sub_cancel' hle, ← List.drop_drop]
    exact (List.drop_suffix _ _).isInfix

end TinyMsg
