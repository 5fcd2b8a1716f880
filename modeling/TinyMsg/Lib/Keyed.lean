import Mathlib

/-!
# Lists with distinct keys

A list of records whose keys are distinct stands for a finite map from keys to records.  `lookup`
reads it off.  The two ways to write the map are to change a record without changing its key and to
append a record with a new key.

The second part is about logs of writes.  `replay` folds a log over a map; what it leaves at a key
is decided by the last write about that key (`replay_apply`), so logs that agree on the last write
about each key lead to the same map.
-/

namespace TinyMsg

section Lookup

variable {α κ : Type*} [DecidableEq κ] {key : α → κ} {l : List α} {x : α} {i : ℕ} {k : κ}

/-- The record with key `k`. -/
def lookup (key : α → κ) (l : List α) (k : κ) : Option α := l.find? fun x => key x = k

@[simp] theorem lookup_nil (key : α → κ) (k : κ) : lookup key [] k = none := rfl

/-- A record that is found is in the list and has the key. -/
theorem lookup_some (h : lookup key l k = some x) : x ∈ l ∧ key x = k :=
  ⟨List.mem_of_find?_eq_some h, by simpa using List.find?_some h⟩

/-- Nothing is found for a key that no record has. -/
theorem lookup_eq_none_iff : lookup key l k = none ↔ ∀ x ∈ l, key x ≠ k := by
  simp [lookup, List.find?_eq_none]

/-- When the keys are distinct, every record is found under its key. -/
theorem lookup_of_mem (hl : (l.map key).Nodup) (hx : x ∈ l) : lookup key l (key x) = some x := by
  cases hlook : lookup key l (key x) with
  | none => exact absurd rfl (lookup_eq_none_iff.mp hlook x hx)
  | some y =>
    obtain ⟨hy, hkey⟩ := lookup_some hlook
    rw [List.inj_on_of_nodup_map hl hy hx hkey]

/-- When the keys are distinct, the records with a key are the one that is found. -/
theorem filter_key_eq (hl : (l.map key).Nodup) (k : κ) :
    (l.filter fun x => key x = k) = (lookup key l k).toList := by
  induction l with
  | nil => rfl
  | cons y l ih =>
    rw [List.map_cons, List.nodup_cons] at hl
    rw [List.filter_cons, lookup, List.find?_cons]
    by_cases hy : key y = k
    · have hrest : (l.filter fun x => key x = k) = [] := by
        refine List.filter_eq_nil_iff.mpr fun x hx => ?_
        have hne : key x ≠ k := fun hxk =>
          hl.1 ((hy.trans hxk.symm) ▸ List.mem_map_of_mem hx)
        simpa using hne
      simp [hy, hrest]
    · simp only [hy, decide_false, Bool.false_eq_true, if_false]
      exact ih hl.2

/-- When the keys are distinct, a key that a record has is the key of exactly one. -/
theorem countP_key_eq_one (hl : (l.map key).Nodup) (hx : x ∈ l) :
    l.countP (fun y => key y = key x) = 1 := by
  rw [List.countP_eq_length_filter, filter_key_eq hl, lookup_of_mem hl hx]
  rfl

omit [DecidableEq κ] in
/-- When the keys are distinct, records that all have the same key are at most one. -/
theorem countP_le_one {P : α → Bool} (hl : (l.map key).Nodup)
    (h : ∀ x ∈ l, ∀ y ∈ l, P x = true → P y = true → key x = key y) : l.countP P ≤ 1 := by
  have hnodup : ((l.filter P).map key).Nodup := hl.sublist (List.filter_sublist.map key)
  have hsame : ∀ x ∈ l.filter P, ∀ y ∈ l.filter P, key x = key y := fun x hx y hy =>
    h x (List.mem_of_mem_filter hx) y (List.mem_of_mem_filter hy) (List.of_mem_filter hx)
      (List.of_mem_filter hy)
  rw [List.countP_eq_length_filter]
  cases hf : l.filter P with
  | nil => exact Nat.zero_le _
  | cons x t =>
    cases t with
    | nil => exact le_rfl
    | cons y t =>
      rw [hf] at hnodup hsame
      have hxy : key x = key y := hsame x (by simp) y (by simp)
      rw [List.map_cons, List.nodup_cons, hxy] at hnodup
      exact absurd (by simp) hnodup.1

/-- What is found among the records that meet a condition. -/
theorem lookup_filter (hl : (l.map key).Nodup) (P : α → Bool) (k : κ) :
    lookup key (l.filter P) k = (lookup key l k).filter P := by
  have hcomm : (l.filter P).filter (fun x => key x = k) =
      (l.filter fun x => key x = k).filter P := by
    rw [List.filter_filter, List.filter_filter]
    exact List.filter_congr fun x _ => Bool.and_comm _ _
  have hnodup : ((l.filter P).map key).Nodup := hl.sublist (List.filter_sublist.map key)
  rw [filter_key_eq hnodup, filter_key_eq hl] at hcomm
  cases hx : lookup key l k with
  | none =>
    rw [hx] at hcomm
    exact Option.toList_eq_nil_iff.mp hcomm
  | some x =>
    rw [hx, Option.toList_some] at hcomm
    rw [Option.filter_some]
    cases hP : P x with
    | true => 
      rw [List.filter_cons_of_pos hP] at hcomm
      exact Option.toList_eq_singleton_iff.mp hcomm
    | false =>
      rw [List.filter_cons_of_neg (by simp [hP])] at hcomm
      exact Option.toList_eq_nil_iff.mp hcomm

/-- Leaving out records with other keys does not change what is found. -/
theorem lookup_filter_of {P : α → Bool} (h : ∀ x ∈ l, key x = k → P x = true) :
    lookup key (l.filter P) k = lookup key l k := by
  induction l with
  | nil => rfl
  | cons y l ih =>
    obtain ⟨hy, hl⟩ := List.forall_mem_cons.mp h
    rw [List.filter_cons, lookup, lookup, List.find?_cons]
    by_cases hk : key y = k
    · rw [if_pos (hy hk), List.find?_cons, decide_eq_true hk]
    · rw [decide_eq_false hk]
      split
      · rw [List.find?_cons, decide_eq_false hk]
        exact ih hl
      · exact ih hl

/-- When the keys are distinct, the order of the records does not matter. -/
theorem lookup_perm {l' : List α} (hl : (l.map key).Nodup) (h : l'.Perm l) (k : κ) :
    lookup key l' k = lookup key l k := by
  have hfound := h.filter fun x => key x = k
  rw [filter_key_eq hl, filter_key_eq ((h.map key).symm.nodup hl)] at hfound
  cases hx : lookup key l k with
  | none =>
    rw [hx] at hfound
    exact Option.toList_eq_nil_iff.mp hfound.eq_nil
  | some x =>
    rw [hx, Option.toList_some] at hfound
    exact Option.toList_eq_singleton_iff.mp (List.perm_singleton.mp hfound)

/-- What is found around a record. -/
theorem lookup_append_cons (l l' : List α) (x : α) (k : κ) :
    lookup key (l ++ x :: l') k =
      (lookup key l k).or (if key x = k then some x else lookup key l' k) := by
  unfold lookup
  rw [List.find?_append, List.find?_cons]
  by_cases hk : key x = k <;> simp [hk]

/-- The first index with the key belongs to the record that is found. -/
theorem findIdx?_lookup :
    (l.findIdx? fun x => key x = k) = some i →
      ∃ h : i < l.length, lookup key l k = some l[i] ∧ key l[i] = k := by
  intro hi
  obtain ⟨h, hkey, hbefore⟩ := List.findIdx?_eq_some_iff_getElem.mp hi
  have hk : key l[i] = k := by simpa using hkey
  refine ⟨h, ?_, hk⟩
  rw [lookup, List.find?_eq_some_iff_getElem]
  exact ⟨hkey, i, h, rfl, fun j hj => by simpa using hbefore j hj⟩

/-- There is no index exactly when no record is found. -/
theorem findIdx?_eq_none_iff_lookup :
    (l.findIdx? fun x => key x = k) = none ↔ lookup key l k = none := by
  rw [List.findIdx?_eq_none_iff, lookup_eq_none_iff]
  simp

/-- When the keys are distinct, erasing the first record with a key erases all of them. -/
theorem eraseP_eq_filter (hl : (l.map key).Nodup) (k : κ) :
    (l.eraseP fun x => key x = k) = l.filter fun x => key x ≠ k := by
  induction l with
  | nil => rfl
  | cons y l ih =>
    rw [List.map_cons, List.nodup_cons] at hl
    by_cases hy : key y = k
    · -- no later record has the key
      have hrest : ∀ x ∈ l, key x ≠ k := fun x hx hk =>
        hl.1 (List.mem_map.mpr ⟨x, hx, hk.trans hy.symm⟩)
      rw [List.eraseP_cons_of_pos (by simpa using hy), List.filter_cons_of_neg (by simpa using hy),
        List.filter_eq_self.mpr fun x hx => by simpa using hrest x hx]
    · rw [List.eraseP_cons_of_neg (by simpa using hy), List.filter_cons_of_pos (by simpa using hy),
        ih hl.2]

/-- When the keys are distinct, changing the record at one index changes the records with its
key. -/
theorem set_eq_map (hl : (l.map key).Nodup) (h : i < l.length) (hk : key l[i] = k) (f : α → α) :
    l.set i (f l[i]) = l.map fun y => if key y = k then f y else y := by
  subst hk
  refine List.ext_getElem (by simp) fun j hj hj' => ?_
  rw [List.getElem_map]
  by_cases hij : i = j
  · subst hij
    simp
  · have hlt : j < l.length := by simpa using hj
    have hkey : key l[j] ≠ key l[i] := by
      intro heq
      have hsame := List.inj_on_of_nodup_map hl (List.getElem_mem hlt) (List.getElem_mem h) heq
      exact hij ((List.Nodup.of_map key hl).getElem_inj_iff.mp hsame).symm
    rw [List.getElem_set_ne hij, if_neg hkey]

omit [DecidableEq κ] in
/-- Changing records without changing their keys keeps the keys. -/
theorem map_key_map {f : α → α} (hf : ∀ x, key (f x) = key x) (l : List α) :
    (l.map f).map key = l.map key := by
  rw [List.map_map]
  exact List.map_congr_left fun x _ => hf x

/-- Changing records without changing their keys changes what is found. -/
theorem lookup_map {f : α → α} (hf : ∀ x, key (f x) = key x) (l : List α) (k : κ) :
    lookup key (l.map f) k = (lookup key l k).map f := by
  rw [lookup, List.find?_map, lookup]
  congr 2
  funext x
  simp only [Function.comp_apply, hf]

/-- Appending a record with a new key adds it to the map. -/
theorem lookup_append (hx : lookup key l (key x) = none) (k : κ) :
    lookup key (l ++ [x]) k = if k = key x then some x else lookup key l k := by
  rw [lookup, List.find?_append]
  split
  case isTrue hk =>
    subst hk
    rw [lookup] at hx
    simp [hx]
  case isFalse hk =>
    have hne : key x ≠ k := fun h => hk h.symm
    simp [lookup, hne]

/-- Appending a record with a new key keeps the keys distinct. -/
theorem nodup_append_key (hl : (l.map key).Nodup) (hx : lookup key l (key x) = none) :
    ((l ++ [x]).map key).Nodup := by
  rw [List.map_append, List.map_singleton, List.nodup_append]
  refine ⟨hl, List.nodup_singleton _, ?_⟩
  intro a ha b hb
  obtain ⟨y, hy, rfl⟩ := List.mem_map.mp ha
  rw [List.mem_singleton.mp hb]
  exact lookup_eq_none_iff.mp hx y hy

end Lookup

/-! ## Logs of writes -/

section Log

variable {κ ν : Type*} [DecidableEq κ]

/-- A write of a map: the value that a key has from now on, `none` when it is removed. -/
structure Write (κ ν : Type*) where
  /-- The key written. -/
  key : κ
  /-- Its value from now on. -/
  value : Option ν

/-- The map after a write. -/
def Write.apply (m : κ → Option ν) (w : Write κ ν) : κ → Option ν := Function.update m w.key w.value

/-- The map after the writes of a log. -/
def replay (m : κ → Option ν) (log : List (Write κ ν)) : κ → Option ν := log.foldl Write.apply m

/-- The last write about a key. -/
def lastWrite (log : List (Write κ ν)) (k : κ) : Option (Write κ ν) :=
  (log.filter fun w => w.key = k).getLast?

theorem replay_concat (m : κ → Option ν) (log : List (Write κ ν)) (w : Write κ ν) :
    replay m (log ++ [w]) = Function.update (replay m log) w.key w.value := by
  rw [replay, List.foldl_append]
  rfl

/-- What a log leaves at a key is what the last write about the key says. -/
theorem replay_apply (m : κ → Option ν) (log : List (Write κ ν)) (k : κ) :
    replay m log k = ((lastWrite log k).map Write.value).getD (m k) := by
  induction log using List.reverseRecOn with
  | nil => rfl
  | append_singleton log w ih =>
    rw [replay_concat, lastWrite, List.filter_append]
    by_cases hk : w.key = k
    · subst hk
      simp
    · rw [Function.update_of_ne (Ne.symm hk), ih, lastWrite]
      simp [hk]

/-- A log with one write for each record of a list with distinct keys. -/
theorem replay_map {α : Type*} {key : α → κ} {l : List α} (hl : (l.map key).Nodup)
    (value : α → Option ν) (m : κ → Option ν) (k : κ) :
    replay m (l.map fun x => ⟨key x, value x⟩) k =
      ((lookup key l k).map value).getD (m k) := by
  have hfilter : ((l.map fun x => (⟨key x, value x⟩ : Write κ ν)).filter fun w => w.key = k) =
      (l.filter fun x => key x = k).map fun x => ⟨key x, value x⟩ := by
    rw [List.filter_map]
    rfl
  rw [replay_apply, lastWrite, hfilter, filter_key_eq hl]
  cases lookup key l k <;> rfl

end Log

end TinyMsg
