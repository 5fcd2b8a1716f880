import Mathlib

/-!
# Copies inside a block

A `Copy` is the arguments of a `memmove` or a `memcpy` of which both pointers are into one block:
where it reads from, where it writes to, and how many cells.  A copy stays inside a block when both
ranges do (`Copy.touched_lt_iff`); `memcpy` also asks that they do not overlap (`Copy.Apart`).
-/

namespace TinyMsg

/-- The arguments of a copy of cells. -/
structure Copy where
  /-- The first cell that is read. -/
  src : ℕ
  /-- The first cell that is written. -/
  dst : ℕ
  /-- The number of cells. -/
  n : ℕ
  deriving DecidableEq

namespace Copy

variable {c : Copy} {cap i : ℕ}

/-- The cells that are read. -/
def source (c : Copy) : Set ℕ := Set.Ico c.src (c.src + c.n)

/-- The cells that are written. -/
def dest (c : Copy) : Set ℕ := Set.Ico c.dst (c.dst + c.n)

/-- What `memcpy` asks for: the ranges do not overlap. -/
def Apart (c : Copy) : Prop := Disjoint c.source c.dest

/-- The ranges do not overlap when one ends before the other begins, or when they are empty. -/
theorem apart_iff : c.Apart ↔ c.n = 0 ∨ c.src + c.n ≤ c.dst ∨ c.dst + c.n ≤ c.src := by
  rw [Apart, source, dest, Set.Ico_disjoint_Ico]
  omega

instance : DecidablePred Copy.Apart := fun _ => decidable_of_iff' _ apart_iff

/-- All cells that are read or written. -/
def touched (c : Copy) : List ℕ := List.range' c.src c.n ++ List.range' c.dst c.n

theorem mem_touched : i ∈ c.touched ↔ i ∈ c.source ∨ i ∈ c.dest := by
  rw [touched, List.mem_append, List.mem_range'_1, List.mem_range'_1]
  rfl

/-- A copy stays in front of an end when both ranges do, or when they are empty. -/
theorem touched_lt_iff :
    (∀ i ∈ c.touched, i < cap) ↔ c.n = 0 ∨ (c.src + c.n ≤ cap ∧ c.dst + c.n ≤ cap) := by
  simp only [mem_touched, source, dest, Set.mem_Ico]
  constructor
  · intro h
    by_cases hn : c.n = 0
    · exact Or.inl hn
    · -- the last cells of the ranges
      have hread := h (c.src + c.n - 1) (Or.inl (by omega))
      have hwrite := h (c.dst + c.n - 1) (Or.inr (by omega))
      omega
  · intro h i hi
    omega

end Copy

end TinyMsg
