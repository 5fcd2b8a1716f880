import Mathlib

/-!
# Blocks of memory as lists

A block of memory is a list of cells.  `overwrite block off vals` is the block after the cells
from `off` on have been replaced by `vals`, which is what `memcpy` into the block, or a store
through a pointer into it, leaves behind.  The lemmas say that the length is kept, that the cells
outside the range are kept, and what the initial segment that ends with the written cells is.
-/

namespace TinyMsg

variable {α : Type*}

/-- The block after the cells from `off` on have been overwritten by `vals`. -/
def overwrite (block : List α) (off : ℕ) (vals : List α) : List α :=
  block.take off ++ vals ++ block.drop (off + vals.length)

/-- A store inside the block keeps the length of the block. -/
theorem length_overwrite {block vals : List α} {off : ℕ}
    (h : off + vals.length ≤ block.length) : (overwrite block off vals).length = block.length := by
  simp only [overwrite, List.length_append, List.length_take, List.length_drop]
  omega

/-- A store leaves the cells before its offset alone. -/
theorem take_overwrite_of_le {block vals : List α} {off n : ℕ} (hn : n ≤ off)
    (h : off ≤ block.length) : (overwrite block off vals).take n = block.take n := by
  rw [overwrite, List.append_assoc,
    List.take_append_of_le_length (by rw [List.length_take]; omega), List.take_take,
    Nat.min_eq_left hn]

/-- The initial segment ending with the written cells: the old cells, then the new ones. -/
theorem take_overwrite_add {block : List α} {off : ℕ} (vals : List α) (h : off ≤ block.length) :
    (overwrite block off vals).take (off + vals.length) = block.take off ++ vals := by
  have hlen : (block.take off ++ vals).length = off + vals.length := by
    rw [List.length_append, List.length_take, Nat.min_eq_left h]
  rw [overwrite, ← hlen, List.take_left]

/-- A store leaves the cells outside its range alone. -/
theorem getElem?_overwrite {block vals : List α} {off i : ℕ} (h : off ≤ block.length)
    (hi : i < off ∨ off + vals.length ≤ i) : (overwrite block off vals)[i]? = block[i]? := by
  have hfront : (block.take off).length = off := by rw [List.length_take, Nat.min_eq_left h]
  rw [overwrite, List.append_assoc]
  rcases hi with hi | hi
  · rw [List.getElem?_append_left (by omega), List.getElem?_take_of_lt hi]
  · rw [List.getElem?_append_right (by omega), List.getElem?_append_right (by omega),
      List.getElem?_drop]
    congr 1
    omega

/-- A store seen from an offset in front of it. -/
theorem drop_overwrite_add {block vals : List α} {off k : ℕ} (h : off + k ≤ block.length) :
    (overwrite block (off + k) vals).drop off = overwrite (block.drop off) k vals := by
  have hfront : off ≤ (block.take (off + k)).length := by rw [List.length_take]; omega
  rw [overwrite, overwrite, List.append_assoc, List.drop_append_of_le_length hfront,
    List.drop_take, Nat.add_sub_cancel_left, List.drop_drop, Nat.add_assoc, List.append_assoc]

/-- The block from a store on: the new cells, then the old ones behind them. -/
theorem drop_overwrite {block : List α} {off : ℕ} (vals : List α) (h : off ≤ block.length) :
    (overwrite block off vals).drop off = vals ++ block.drop (off + vals.length) := by
  have hfront : (block.take off).length = off := by rw [List.length_take, Nat.min_eq_left h]
  rw [overwrite, List.append_assoc, List.drop_left' hfront]

/-- Two stores one behind the other, from the start of the block on. -/
theorem overwrite_overwrite (block front back : List α) :
    overwrite (overwrite block 0 front) front.length back =
      front ++ back ++ block.drop (front.length + back.length) := by
  simp only [overwrite, List.take_zero, List.nil_append, Nat.zero_add]
  rw [List.take_left, ← List.drop_drop, List.drop_left, List.drop_drop]

/-- Splicing `vals` over the same number of cells of `a ++ b ++ c` replaces `b`. -/
theorem overwrite_append {a b c vals : List α} (h : vals.length = b.length) :
    overwrite (a ++ b ++ c) a.length vals = a ++ vals ++ c := by
  rw [overwrite, h, ← List.length_append, List.drop_left, List.append_assoc a b c, List.take_left]

end TinyMsg
