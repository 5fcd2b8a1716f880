import Mathlib

/-!
# Splitting a list at a separator

`tokens sep s` cuts `s` at the leftmost occurrence of `sep`, and what is behind it in the same way.
Joining the tokens with the separator gives the list back (`intercalate_tokens`), no token contains
the separator (`not_infix_of_mem_tokens`), and there is one token more than there are occurrences
that a scan from left to right finds when it goes on behind each of them (`length_tokens`).
-/

namespace TinyMsg

variable {α : Type*} [DecidableEq α] {sep s a b t : List α}

/-- The leftmost occurrence leaves the list before it and the list behind it. -/
theorem dropInfix?_some (h : s.dropInfix? sep = some (a, b)) :
    s = a ++ sep ++ b ∧ ∀ a' b', s = a' ++ sep ++ b' → a.length ≤ a'.length := by
  obtain ⟨⟨sep', hs, heq⟩, hmin⟩ := List.dropInfix?_eq_some_iff.mp h
  rw [beq_iff_eq] at heq
  subst heq
  exact ⟨hs, fun a' b' hs' => hmin a' sep' b' hs' (beq_self_eq_true sep')⟩

/-- There is a leftmost occurrence if there is one. -/
theorem dropInfix?_none : s.dropInfix? sep = none ↔ ¬ sep <:+: s := by
  constructor
  · rintro hnone ⟨a₀, b₀, hs⟩
    classical
    have hex : ∃ n a b, s = a ++ sep ++ b ∧ a.length = n := ⟨_, a₀, b₀, hs.symm, rfl⟩
    obtain ⟨a, b, hs, hn⟩ := Nat.find_spec hex
    have hsome : s.dropInfix? sep = some (a, b) := by
      rw [List.dropInfix?_eq_some_iff]
      refine ⟨⟨sep, hs, beq_self_eq_true sep⟩, ?_⟩
      intro a' sep' b' hs' heq
      rw [beq_iff_eq] at heq
      subst heq
      rw [hn]
      exact Nat.find_min' hex ⟨a', b', hs', rfl⟩
    rw [hnone] at hsome
    cases hsome
  · intro hnot
    cases h : s.dropInfix? sep with
    | none => rfl
    | some p => exact absurd ⟨p.1, p.2, (dropInfix?_some h).1.symm⟩ hnot

/-- The leftmost occurrence, when the list starts with one. -/
theorem dropInfix?_eq_nil (h : sep ++ b = s) : s.dropInfix? sep = some ([], b) := by
  rw [List.dropInfix?_eq_some_iff]
  exact ⟨⟨sep, h.symm, beq_self_eq_true sep⟩, fun _ _ _ _ _ => Nat.zero_le _⟩

/-- The leftmost occurrence, when the list does not start with one. -/
theorem dropInfix?_cons {x : α} (h : ¬ sep <+: x :: s) :
    (x :: s).dropInfix? sep = (s.dropInfix? sep).map fun p => (x :: p.1, p.2) := by
  cases hs : s.dropInfix? sep with
  | none =>
    rw [Option.map_none, dropInfix?_none]
    rw [dropInfix?_none] at hs
    rw [List.infix_cons_iff]
    exact not_or.mpr ⟨h, hs⟩
  | some p =>
    obtain ⟨heq, hmin⟩ := dropInfix?_some (a := p.1) (b := p.2) hs
    rw [Option.map_some, List.dropInfix?_eq_some_iff]
    refine ⟨⟨sep, ?_, beq_self_eq_true sep⟩, ?_⟩
    · exact congrArg (x :: ·) heq
    · intro a' sep' b' hs' hsep
      rw [beq_iff_eq] at hsep
      subst hsep
      cases a' with
      | nil => exact absurd ⟨b', hs'.symm⟩ h
      | cons y a' =>
        obtain ⟨-, hs'⟩ := List.cons.inj hs'
        exact Nat.succ_le_succ (hmin a' b' hs')

/-! ## Tokens -/

/-- The tokens of a list; an empty separator does not occur. -/
def tokens (sep s : List α) : List (List α) :=
  if sep = [] then [s]
  else
    match _h : s.dropInfix? sep with
    | none => [s]
    | some (a, b) => a :: tokens sep b
termination_by s.length
decreasing_by
  have hs := congrArg List.length (dropInfix?_some _h).1
  rw [List.length_append, List.length_append] at hs
  have hpos : 0 < sep.length := List.length_pos_iff.mpr ‹_›
  omega

/-- A list without the separator is one token. -/
theorem tokens_eq_self (h : sep = [] ∨ ¬ sep <:+: s) : tokens sep s = [s] := by
  rw [tokens]
  split
  case isTrue => rfl
  case isFalse hsep =>
    have hnone := dropInfix?_none.mpr (h.resolve_left hsep)
    split
    · rfl
    · rename_i heq
      rw [hnone] at heq
      cases heq

/-- A list is cut at the leftmost occurrence of the separator. -/
theorem tokens_of_dropInfix? (hsep : sep ≠ []) (h : s.dropInfix? sep = some (a, b)) :
    tokens sep s = a :: tokens sep b := by
  rw [tokens, if_neg hsep]
  split
  · rename_i heq
    rw [h] at heq
    cases heq
  · rename_i heq
    rw [h] at heq
    obtain ⟨rfl, rfl⟩ := Prod.mk.inj (Option.some.inj heq)
    rfl

theorem tokens_ne_nil (sep s : List α) : tokens sep s ≠ [] := by
  rw [tokens]
  split
  · exact List.cons_ne_nil _ _
  · split <;> exact List.cons_ne_nil _ _

/-- Induction along the cuts. -/
theorem tokens_induction {P : List α → Prop} (hsep : sep ≠ []) (hnot : ∀ s, ¬ sep <:+: s → P s)
    (hcut : ∀ s a b, s.dropInfix? sep = some (a, b) → P b → P s) (s : List α) : P s := by
  induction hn : s.length using Nat.strong_induction_on generalizing s with
  | _ n ih =>
  cases h : s.dropInfix? sep with
  | none => exact hnot s (dropInfix?_none.mp h)
  | some p =>
    refine hcut s p.1 p.2 h (ih p.2.length ?_ p.2 rfl)
    have hs := congrArg List.length (dropInfix?_some (a := p.1) (b := p.2) h).1
    rw [List.length_append, List.length_append] at hs
    have hpos : 0 < sep.length := List.length_pos_iff.mpr hsep
    omega

/-- A token is a part of the list. -/
theorem length_le_of_mem_tokens (ht : t ∈ tokens sep s) : t.length ≤ s.length := by
  by_cases hsep : sep = []
  · rw [tokens_eq_self (Or.inl hsep), List.mem_singleton] at ht
    rw [ht]
  · induction s using tokens_induction hsep with
    | hnot s hnot =>
      rw [tokens_eq_self (Or.inr hnot), List.mem_singleton] at ht
      rw [ht]
    | hcut s a b h ih =>
      rw [tokens_of_dropInfix? hsep h, List.mem_cons] at ht
      rw [(dropInfix?_some h).1, List.length_append, List.length_append]
      rcases ht with rfl | ht
      · omega
      · have hle := ih ht
        omega

/-- Joining the tokens with the separator gives the list back. -/
theorem intercalate_tokens (sep s : List α) : sep.intercalate (tokens sep s) = s := by
  by_cases hsep : sep = []
  · rw [tokens_eq_self (Or.inl hsep), List.intercalate_singleton]
  · induction s using tokens_induction hsep with
    | hnot s hnot => rw [tokens_eq_self (Or.inr hnot), List.intercalate_singleton]
    | hcut s a b h ih =>
      rw [tokens_of_dropInfix? hsep h, List.intercalate_cons_of_ne_nil (tokens_ne_nil sep b), ih]
      exact (dropInfix?_some h).1.symm

/-- No token contains the separator. -/
theorem not_infix_of_mem_tokens (hsep : sep ≠ []) (ht : t ∈ tokens sep s) : ¬ sep <:+: t := by
  induction s using tokens_induction hsep with
  | hnot s hnot =>
    rw [tokens_eq_self (Or.inr hnot), List.mem_singleton] at ht
    exact ht ▸ hnot
  | hcut s a b h ih =>
    rw [tokens_of_dropInfix? hsep h, List.mem_cons] at ht
    rcases ht with rfl | ht
    · -- an occurrence in the first token would be further to the left
      rintro ⟨x, y, hxy⟩
      obtain ⟨hs, hmin⟩ := dropInfix?_some h
      have hle := hmin x (y ++ sep ++ b) (by rw [hs, ← hxy]; simp)
      have hlen := congrArg List.length hxy
      rw [List.length_append, List.length_append] at hlen
      have hpos : 0 < sep.length := List.length_pos_iff.mpr hsep
      omega
    · exact ih ht

/-! ## Occurrences -/

/-- The occurrences that a scan from left to right finds: it skips the first `skip` entries, and
behind an occurrence the rest of it. -/
def occurrencesFrom (sep : List α) : ℕ → List α → ℕ
  | _, [] => 0
  | skip + 1, _ :: s => occurrencesFrom sep skip s
  | 0, x :: s =>
    if sep <+: x :: s then 1 + occurrencesFrom sep (sep.length - 1) s else occurrencesFrom sep 0 s

/-- The number of occurrences that do not overlap, from left to right. -/
def occurrences (sep s : List α) : ℕ := occurrencesFrom sep 0 s

theorem occurrencesFrom_eq (sep : List α) (skip : ℕ) (s : List α) :
    occurrencesFrom sep skip s = occurrences sep (s.drop skip) := by
  induction s generalizing skip with
  | nil => rw [List.drop_nil]; cases skip <;> rfl
  | cons x s ih =>
    cases skip with
    | zero => rfl
    | succ skip => exact ih skip

/-- A list that starts with the separator has one occurrence more than the rest. -/
theorem occurrences_append (hsep : sep ≠ []) (b : List α) :
    occurrences sep (sep ++ b) = 1 + occurrences sep b := by
  obtain ⟨x, sep', rfl⟩ := List.exists_cons_of_ne_nil hsep
  have hprefix : x :: sep' <+: x :: (sep' ++ b) := List.prefix_append (x :: sep') b
  rw [occurrences, List.cons_append, occurrencesFrom, if_pos hprefix, occurrencesFrom_eq,
    List.length_cons, Nat.add_sub_cancel, List.drop_left]

/-- Nothing is found where there is nothing. -/
theorem occurrences_eq_zero (h : ¬ sep <:+: s) : occurrences sep s = 0 := by
  induction s with
  | nil => rfl
  | cons x s ih =>
    have hprefix : ¬ sep <+: x :: s := fun hp => h hp.isInfix
    rw [occurrences, occurrencesFrom, if_neg hprefix]
    exact ih fun hin => h (hin.trans (List.suffix_cons x s).isInfix)

/-- The scan finds the leftmost occurrence first. -/
theorem occurrences_of_dropInfix? (hsep : sep ≠ []) (h : s.dropInfix? sep = some (a, b)) :
    occurrences sep s = 1 + occurrences sep b := by
  obtain ⟨hs, hmin⟩ := dropInfix?_some h
  clear h
  induction a generalizing s with
  | nil =>
    rw [hs]
    exact occurrences_append hsep b
  | cons x a ih =>
    have hprefix : ¬ sep <+: s := by
      rintro ⟨b', hb'⟩
      exact absurd (hmin [] b' hb'.symm) (Nat.not_succ_le_zero _)
    have hnext : ∀ a' b', a ++ sep ++ b = a' ++ sep ++ b' → a.length ≤ a'.length := by
      intro a' b' hs'
      have hle := hmin (x :: a') b' (by rw [hs]; exact congrArg (x :: ·) hs')
      exact Nat.le_of_succ_le_succ hle
    have hcons : s = x :: (a ++ sep ++ b) := hs
    rw [hcons] at hprefix ⊢
    rw [occurrences, occurrencesFrom, if_neg hprefix]
    exact ih rfl hnext

/-- What occurs is found. -/
theorem occurrences_pos (hsep : sep ≠ []) (h : sep <:+: s) : 0 < occurrences sep s := by
  cases hcut : s.dropInfix? sep with
  | none => exact absurd h (dropInfix?_none.mp hcut)
  | some p =>
    rw [occurrences_of_dropInfix? (a := p.1) (b := p.2) hsep hcut]
    exact Nat.add_pos_left Nat.one_pos _

/-- There is one token more than there are occurrences of the separator. -/
theorem length_tokens (hsep : sep ≠ []) (s : List α) :
    (tokens sep s).length = occurrences sep s + 1 := by
  induction s using tokens_induction hsep with
  | hnot s hnot => rw [tokens_eq_self (Or.inr hnot), occurrences_eq_zero hnot]; rfl
  | hcut s a b h ih =>
    rw [tokens_of_dropInfix? hsep h, occurrences_of_dropInfix? hsep h, List.length_cons, ih]
    omega

/-- There are at most as many occurrences as entries. -/
theorem occurrences_le_length (hsep : sep ≠ []) (s : List α) : occurrences sep s ≤ s.length := by
  have hpos : 0 < sep.length := List.length_pos_iff.mpr hsep
  induction s using tokens_induction hsep with
  | hnot s hnot => rw [occurrences_eq_zero hnot]; exact Nat.zero_le _
  | hcut s a b h ih =>
    rw [occurrences_of_dropInfix? hsep h, (dropInfix?_some h).1, List.length_append,
      List.length_append]
    omega

theorem occurrences_replicate (x : α) (n : ℕ) : occurrences [x] (List.replicate n x) = n := by
  induction n with
  | zero => rfl
  | succ n ih =>
    have happend := occurrences_append (List.cons_ne_nil x []) (List.replicate n x)
    rw [ih, Nat.add_comm] at happend
    exact happend

/-- There are as many only when every entry is the separator. -/
theorem occurrences_eq_length (hsep : sep ≠ []) (hs : s ≠ []) (h : occurrences sep s = s.length) :
    ∃ x, sep = [x] ∧ s = List.replicate s.length x := by
  have hpos : 0 < sep.length := List.length_pos_iff.mpr hsep
  induction s using tokens_induction hsep with
  | hnot s hnot =>
    rw [occurrences_eq_zero hnot] at h
    exact absurd (List.length_eq_zero_iff.mp h.symm) hs
  | hcut s a b hcut ih =>
    have heq := (dropInfix?_some hcut).1
    have hlen := congrArg List.length heq
    rw [List.length_append, List.length_append] at hlen
    have hle := occurrences_le_length hsep b
    rw [occurrences_of_dropInfix? hsep hcut] at h
    obtain ⟨x, hx⟩ := List.length_eq_one_iff.mp (show sep.length = 1 by omega)
    have ha : a = [] := List.length_eq_zero_iff.mp (by omega)
    refine ⟨x, hx, ?_⟩
    have hb : b = List.replicate b.length x := by
      by_cases hnil : b = []
      · rw [hnil]
        rfl
      · obtain ⟨y, hy, hrest⟩ := ih hnil (by omega)
        obtain rfl : x = y := List.singleton_inj.mp (hx.symm.trans hy)
        exact hrest
    rw [heq, ha, hx, hb]
    simp [List.replicate_succ]

end TinyMsg
