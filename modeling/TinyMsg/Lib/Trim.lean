import Mathlib

/-!
# Trimming a list

`trim p l` is `l` without the items at its front and at its end that have the property `p`.  When
not all items have it, `l` is cut into three parts, of which `trim p l` is the one in the middle
(`takeWhile_trim_rtakeWhile`).
-/

namespace TinyMsg

variable {α : Type*} {p : α → Bool} {l : List α}

/-- The list without the items with the property at both ends. -/
def trim (p : α → Bool) (l : List α) : List α := (l.dropWhile p).rdropWhile p

/-- Trimming leaves nothing exactly when all items have the property. -/
theorem trim_eq_nil_iff : trim p l = [] ↔ ∀ x ∈ l, p x := by
  rw [trim, List.rdropWhile_eq_nil_iff]
  constructor
  · intro h x hx
    rw [← List.takeWhile_append_dropWhile (p := p) (l := l), List.mem_append] at hx
    rcases hx with hx | hx
    · exact List.mem_takeWhile_imp hx
    · exact h x hx
  · exact fun h x hx => h x ((List.dropWhile_sublist p).subset hx)

/-- The parts that trimming cuts off are in front of it and behind it. -/
theorem takeWhile_trim_rtakeWhile (h : trim p l ≠ []) :
    l.takeWhile p ++ trim p l ++ l.rtakeWhile p = l := by
  have hrest : l.rtakeWhile p = (l.dropWhile p).rtakeWhile p := by
    have hstop : ((l.dropWhile p).reverse.takeWhile p).length ≠ (l.dropWhile p).reverse.length := by
      intro hlen
      rw [List.length_reverse] at hlen
      have hall : (l.dropWhile p).rtakeWhile p = l.dropWhile p := by
        refine (List.rtakeWhile_suffix p _).eq_of_length ?_
        rwa [List.rtakeWhile, List.length_reverse]
      exact h (List.rdropWhile_eq_nil_iff.mpr (List.rtakeWhile_eq_self_iff.mp hall))
    calc l.rtakeWhile p
        = ((l.takeWhile p ++ l.dropWhile p).reverse.takeWhile p).reverse := by
          rw [List.takeWhile_append_dropWhile, List.rtakeWhile]
      _ = (l.dropWhile p).rtakeWhile p := by
          rw [List.reverse_append, List.takeWhile_append, if_neg hstop, List.rtakeWhile]
  rw [hrest, trim, List.append_assoc, List.rdropWhile_append_rtakeWhile,
    List.takeWhile_append_dropWhile]

/-- The trimmed list is read off the list behind what is cut off at the front. -/
theorem take_drop_takeWhile :
    (l.drop (l.takeWhile p).length).take (trim p l).length = trim p l := by
  have hdrop : l.drop (l.takeWhile p).length = l.dropWhile p := by
    have h : (l.takeWhile p ++ l.dropWhile p).drop (l.takeWhile p).length = l.dropWhile p :=
      List.drop_left
    rwa [List.takeWhile_append_dropWhile] at h
  rw [hdrop, trim]
  exact (List.prefix_iff_eq_take.mp (List.rdropWhile_prefix p _)).symm

/-- Trimming does not make a list longer. -/
theorem length_trim_le : (trim p l).length ≤ l.length :=
  (List.rdropWhile_prefix p _).length_le.trans (List.dropWhile_suffix p).length_le

/-- When nothing is lost, nothing is cut off at the front. -/
theorem dropWhile_eq_self_of_le (h : l.length ≤ (trim p l).length) : l.dropWhile p = l := by
  apply (List.dropWhile_suffix p).eq_of_length
  apply le_antisymm (List.dropWhile_suffix p).length_le
  calc l.length ≤ (trim p l).length := h
    _ ≤ (l.dropWhile p).length := (List.rdropWhile_prefix p _).length_le

/-- A list of the same length has lost nothing. -/
theorem trim_eq_self_of_length (h : (trim p l).length = l.length) : trim p l = l := by
  have hfront : l.dropWhile p = l := dropWhile_eq_self_of_le h.ge
  rw [trim, hfront] at h ⊢
  exact (List.rdropWhile_prefix p l).eq_of_length h

/-- Trimming changes nothing exactly when neither the first nor the last item has the property. -/
theorem trim_eq_self_iff :
    trim p l = l ↔ (∀ x ∈ l.head?, ¬ p x) ∧ ∀ x ∈ l.getLast?, ¬ p x := by
  have hends : (l.dropWhile p = l ↔ ∀ x ∈ l.head?, ¬ p x) ∧
      (l.rdropWhile p = l ↔ ∀ x ∈ l.getLast?, ¬ p x) := by
    constructor
    · cases l with
      | nil => exact iff_of_true rfl fun x hx => by cases hx
      | cons y l =>
        rw [List.dropWhile_eq_self_iff]
        constructor
        · rintro h x ⟨⟩
          exact h (Nat.succ_pos _)
        · exact fun h _ => h y rfl
    · rw [List.rdropWhile_eq_self_iff]
      constructor
      · intro h x hx
        obtain ⟨hne, rfl⟩ := List.mem_getLast?_eq_getLast hx
        exact h hne
      · exact fun h hne => h _ (List.getLast?_eq_some_getLast hne)
  rw [← hends.1, ← hends.2]
  constructor
  · intro h
    have hfront : l.dropWhile p = l := dropWhile_eq_self_of_le (congrArg List.length h).ge
    refine ⟨hfront, ?_⟩
    rwa [trim, hfront] at h
  · rintro ⟨hfront, hback⟩
    rw [trim, hfront, hback]

end TinyMsg
