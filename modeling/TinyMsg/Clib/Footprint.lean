import TinyMsg.Clib.ArrayCalls
import TinyMsg.Lib.Copy

/-!
# The slots that `ArrayRemove` touches

`arrayRemove` says what `ArrayRemove` does to the items.  Here it is put on record which slots it
reads and writes.  Behind the item at `index` there are `len - index - 1` items, and `ArrayRemove`
moves `len - index`: it reads the slot behind the last item too.  In a full array there is no such
slot.
-/

namespace TinyMsg

variable {α : Type}

/-- The `memmove` of `ArrayRemove`. -/
def arrayRemoveMove (a : Array α) (index : ℕ) : Copy := ⟨index + 1, index, a.len - index⟩

/-- The slots that `ArrayRemove` reads or writes: those of the `memmove`, and the one that is
cleared. -/
def arrayRemoveSlots (a : Array α) (index : ℤ) : List ℕ :=
  if index < 0 ∨ a.len ≤ index then []
  else
    (if a.len > 1 then (arrayRemoveMove a index.toNat).touched else []) ++ [a.len - 1]

/-- The other slots stay as they are. -/
theorem arrayRemoveAt_frame [Inhabited α] (a : Array α) (index : ℤ) {i : ℕ}
    (hi : i ∉ arrayRemoveSlots a index) : (arrayRemoveAt a index).items[i]? = a.items[i]? := by
  have hle := a.len_le_cap
  have hlen := a.items_length
  by_cases hneg : index < 0
  · rw [arrayRemoveAt, if_pos hneg]
  · rw [arrayRemoveAt, if_neg hneg]
    by_cases hout : a.len ≤ index
    · rw [arrayRemove, dif_neg (by omega)]
    · rw [arrayRemoveSlots, if_neg (not_or.mpr ⟨hneg, hout⟩), List.mem_append,
        List.mem_singleton, not_or] at hi
      obtain ⟨hmove, hclear⟩ := hi
      rw [arrayRemove, dif_pos (by omega)]
      change (List.set _ (a.len - 1) default)[i]? = _
      rw [List.getElem?_set_ne (Ne.symm hclear)]
      split
      case isTrue hmany =>
        rw [if_pos hmany, Copy.mem_touched, not_or] at hmove
        have hdest : ¬ (index.toNat ≤ i ∧ i < index.toNat + (a.len - index.toNat)) := hmove.2
        apply getElem?_overwrite (by omega)
        rw [List.length_take, List.length_drop]
        omega
      case isFalse => rfl

/-- `ArrayRemove` stays inside the block unless it removes an item of several from an array that
is full. -/
theorem arrayRemove_inside_iff (a : Array α) (index : ℤ) :
    (∀ i ∈ arrayRemoveSlots a index, i < a.cap) ↔
      index < 0 ∨ a.len ≤ index ∨ a.len ≤ 1 ∨ a.len < a.cap := by
  have hle := a.len_le_cap
  by_cases hout : index < 0 ∨ a.len ≤ index
  · rw [arrayRemoveSlots, if_pos hout]
    exact iff_of_true (fun i hi => by cases hi) (by omega)
  · rw [arrayRemoveSlots, if_neg hout]
    have hlast : a.len - 1 < a.cap := by omega
    by_cases hmany : a.len > 1
    · rw [if_pos hmany, List.forall_mem_append, List.forall_mem_singleton,
        and_iff_left hlast, Copy.touched_lt_iff]
      simp only [arrayRemoveMove]
      omega
    · rw [if_neg hmany, List.nil_append, List.forall_mem_singleton]
      exact iff_of_true hlast (by omega)

/-- 64 contexts in an array of 64: removing the first one reads slot 64. -/
theorem arrayRemove_reads_behind :
    ∃ a : Array ℕ, a.len = 64 ∧ a.cap = 64 ∧ ∃ i ∈ arrayRemoveSlots a 0, ¬ i < a.cap :=
  ⟨⟨List.replicate 64 0, 64, 64, le_rfl, List.length_replicate, by decide⟩, rfl, rfl, 64,
    by decide, by decide⟩

end TinyMsg
