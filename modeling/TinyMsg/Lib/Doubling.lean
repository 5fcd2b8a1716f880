import Mathlib

/-!
# Capacities that double

A store that starts with room for `c` entries and doubles its capacity whenever it is full has
capacities `c * 2 ^ k`.  `Room ok c n` says that one of them is enough for `n` entries and is one
that the store can have (`ok`).  When smaller capacities than those that are `ok` are `ok` as well,
`Room.succ_iff` decides whether one more entry finds room by looking at the present capacity only.
-/

namespace TinyMsg

/-- Some number of doublings of `c` makes room for `n` entries, at a capacity that is `ok`. -/
def Room (ok : ℕ → Prop) (c n : ℕ) : Prop := ∃ k, n ≤ c * 2 ^ k ∧ ok (c * 2 ^ k)

section Room

variable {ok : ℕ → Prop} {c n k : ℕ}

/-- One more entry finds room when there is a free slot, or the capacity can be doubled. -/
theorem Room.succ_iff (hmono : ∀ a b, a ≤ b → ok b → ok a) (hok : ok (c * 2 ^ k))
    (hn : n ≤ c * 2 ^ k) :
    Room ok c (n + 1) ↔ n < c * 2 ^ k ∨ (0 < c ∧ ok (c * 2 ^ k * 2)) := by
  constructor
  · rintro ⟨j, hj, hokj⟩
    by_cases hlt : n < c * 2 ^ k
    · exact Or.inl hlt
    · right
      have hc : 0 < c := by
        apply Nat.pos_of_ne_zero
        rintro rfl
        omega
      refine ⟨hc, hmono _ _ ?_ hokj⟩
      -- the capacity with room is beyond the present one
      have hlarger : c * 2 ^ k < c * 2 ^ j := by omega
      have hpow : 2 ^ k < 2 ^ j := Nat.lt_of_mul_lt_mul_left hlarger
      have hkj : k < j := (Nat.pow_lt_pow_iff_right (by decide)).mp hpow
      rw [Nat.mul_assoc, ← pow_succ]
      exact Nat.mul_le_mul_left c (Nat.pow_le_pow_right (by decide) hkj)
  · rintro (hlt | ⟨hc, hok'⟩)
    · exact ⟨k, hlt, hok⟩
    · have hpos : 0 < c * 2 ^ k := Nat.mul_pos hc (by positivity)
      have heq : c * 2 ^ (k + 1) = c * 2 ^ k * 2 := by rw [pow_succ, Nat.mul_assoc]
      exact ⟨k + 1, by omega, heq ▸ hok'⟩

end Room

end TinyMsg
