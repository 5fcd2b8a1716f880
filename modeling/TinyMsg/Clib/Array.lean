import TinyMsg.Clib.Buffer
import TinyMsg.Lib.Keyed

/-!
# `Array` of `clib.c`

An `Array` is a block of `cap` slots of which the first `len` hold items; `len` and `cap` are
16-bit.  A zeroed slot is the `default` of the item type.  `ArrayAppend` and `ArrayItem` assert
what they need, so they may stop with `Fault.assertion`; arena memory is taken to suffice.

The list an array stands for is `Array.toList`.  The C code walks arrays with the loop
`for (int i=0; i < a.len; i++) { T *p = ArrayItem(a, i); ... }`; its two forms, the search that
leaves at the first hit and the loop over all items, are `arrayFind` and `arrayFold`, and their
lemmas read them off the list.
-/

namespace TinyMsg

/-- `Array` of `clib.h`: a block of `cap` slots whose first `len` slots hold the items. -/
structure Array (α : Type) where
  /-- The slots at `items`. -/
  items : List α
  /-- The number of items. -/
  len : ℕ
  /-- The number of slots. -/
  cap : ℕ
  /-- The condition asserted by `ArrayAppend`. -/
  len_le_cap : len ≤ cap
  /-- The block has the number of slots that `cap` says. -/
  items_length : items.length = cap
  /-- `cap` is a `u16`. -/
  cap_lt : cap < 2 ^ 16

namespace Array

variable {α : Type}

/-- The items, in order. -/
def toList (a : Array α) : List α := a.items.take a.len

@[simp] theorem length_toList (a : Array α) : a.toList.length = a.len := by
  rw [toList, List.length_take, a.items_length, Nat.min_eq_left a.len_le_cap]

end Array

variable {α β : Type}

/-- An array whose struct is all zero, as a global variable starts out. -/
def arrayZero : Array α where
  items := []
  len := 0
  cap := 0
  len_le_cap := le_rfl
  items_length := rfl
  cap_lt := by decide

@[simp] theorem arrayZero_toList : (arrayZero : Array α).toList = [] := rfl

/-- `ArrayNew`: a capacity of `0` stands for `32`. -/
def arrayNew [Inhabited α] (cap : UInt16) : Array α where
  items := List.replicate (if cap = 0 then 32 else cap.toNat) default
  len := 0
  cap := if cap = 0 then 32 else cap.toNat
  len_le_cap := Nat.zero_le _
  items_length := List.length_replicate
  cap_lt := by
    split
    · decide
    · exact cap.toNat_lt

@[simp] theorem arrayNew_toList [Inhabited α] (cap : UInt16) :
    (arrayNew cap : Array α).toList = [] := rfl

/-- `ArrayItem`: the item at `index`, which is asserted to be one of the array's. -/
def arrayItem [Inhabited α] (a : Array α) (index : ℕ) : Exec α :=
  if index < a.len then .ok (a.items.getD index default) else .error .assertion

/-- `ArrayItem` inside the array is the item of the list. -/
theorem arrayItem_eq [Inhabited α] {a : Array α} {i : ℕ} (h : i < a.toList.length) :
    arrayItem a i = .ok a.toList[i] := by
  have hlen : i < a.len := by rwa [Array.length_toList] at h
  have hcap : i < a.items.length := by
    have := a.len_le_cap
    rw [a.items_length]
    omega
  rw [arrayItem, if_pos hlen, List.getD_eq_getElem _ _ hcap]
  simp only [Array.toList, List.getElem_take]

/-- The array after a store through the pointer `ArrayItem` returned for `index`. -/
def arrayStore (a : Array α) (index : ℕ) (x : α) : Array α :=
  { a with
    items := a.items.set index x
    items_length := by rw [List.length_set, a.items_length] }

@[simp] theorem arrayStore_toList (a : Array α) (index : ℕ) (x : α) :
    (arrayStore a index x).toList = a.toList.set index x := by
  change (a.items.set index x).take a.len = (a.items.take a.len).set index x
  rw [List.take_set]

@[simp] theorem arrayStore_len (a : Array α) (index : ℕ) (x : α) :
    (arrayStore a index x).len = a.len := rfl

@[simp] theorem arrayStore_cap (a : Array α) (index : ℕ) (x : α) :
    (arrayStore a index x).cap = a.cap := rfl

/-! ## Appending -/

/-- The array with room for one more item: itself, or, when it is full, a copy in a block twice as
large.  The doubled `cap` wraps at `2 ^ 16`; `ArrayAppend` then finds `len < cap` violated. -/
def arrayGrow [Inhabited α] (a : Array α) : Exec (Array α) :=
  if heq : a.len = a.cap then
    if h : a.len < a.cap * 2 % 2 ^ 16 then
      .ok
        { items := a.items ++ List.replicate (a.cap * 2 % 2 ^ 16 - a.cap) default
          len := a.len
          cap := a.cap * 2 % 2 ^ 16
          len_le_cap := h.le
          items_length := by
            have hle := a.len_le_cap
            rw [List.length_append, List.length_replicate, a.items_length]
            omega
          cap_lt := Nat.mod_lt _ (by decide) }
    else .error .assertion
  else .ok a

/-- `ArrayAppend`: make room if the array is full, then store the item behind the last one. -/
def arrayAppend [Inhabited α] (a : Array α) (x : α) : Exec (Array α) := do
  let a ← arrayGrow a
  if h : a.len < a.cap then
    .ok
      { items := overwrite a.items a.len [x]
        len := a.len + 1
        cap := a.cap
        len_le_cap := h
        items_length := by
          rw [length_overwrite (by rw [a.items_length]; exact h), a.items_length]
        cap_lt := a.cap_lt }
  else .error .assertion

/-- What growing does: the items stay, and there is a free slot; the block is the old one or twice
as large. -/
theorem arrayGrow_ok [Inhabited α] {a a' : Array α} (h : arrayGrow a = .ok a') :
    a'.toList = a.toList ∧ a'.len = a.len ∧ a.len < a'.cap ∧
      (a'.cap = a.cap ∨ a'.cap = 2 * a.cap) := by
  have hle := a.len_le_cap
  have hlt := a.cap_lt
  unfold arrayGrow at h
  split at h
  case isTrue heq =>
    split at h
    case isTrue hroom =>
      obtain rfl := Except.ok.inj h
      refine ⟨?_, rfl, hroom, ?_⟩
      · exact List.take_append_of_le_length (by rw [a.items_length]; exact a.len_le_cap)
      · change a.cap * 2 % 2 ^ 16 = a.cap ∨ a.cap * 2 % 2 ^ 16 = 2 * a.cap
        omega
    case isFalse => cases h
  case isFalse hne =>
    obtain rfl := Except.ok.inj h
    exact ⟨rfl, rfl, by omega, Or.inl rfl⟩

/-- Growing fails exactly when the array is full and its doubled capacity does not fit 16 bits
(or is zero). -/
theorem arrayGrow_error_iff [Inhabited α] (a : Array α) :
    arrayGrow a = .error .assertion ↔ a.len = a.cap ∧ (a.cap = 0 ∨ 2 ^ 15 ≤ a.cap) := by
  have hlt := a.cap_lt
  unfold arrayGrow
  split
  case isTrue heq =>
    split
    case isTrue h => simp only [reduceCtorEq, false_iff]; omega
    case isFalse h => simp only [true_iff]; omega
  case isFalse hne => simp only [reduceCtorEq, false_iff]; omega

/-- A result of `arrayGrow` is an array or the failed assertion. -/
theorem arrayGrow_cases [Inhabited α] (a : Array α) :
    (∃ a', arrayGrow a = .ok a') ∨ arrayGrow a = .error .assertion := by
  unfold arrayGrow
  split
  · split
    · exact Or.inl ⟨_, rfl⟩
    · exact Or.inr rfl
  · exact Or.inl ⟨_, rfl⟩

/-- What a successful `ArrayAppend` does: the item is added at the end. -/
theorem arrayAppend_ok [Inhabited α] {a a' : Array α} {x : α} (h : arrayAppend a x = .ok a') :
    a'.toList = a.toList ++ [x] ∧ a'.len = a.len + 1 ∧
      (a'.cap = a.cap ∨ a'.cap = 2 * a.cap) := by
  rw [arrayAppend, bind_eq_ok] at h
  obtain ⟨g, hg, h⟩ := h
  obtain ⟨hlist, hlen, -, hcap⟩ := arrayGrow_ok hg
  split at h
  case isTrue hroom =>
    obtain rfl := Except.ok.inj h
    refine ⟨?_, congrArg (· + 1) hlen, hcap⟩
    have hle : g.len ≤ g.items.length := by rw [g.items_length]; exact g.len_le_cap
    have htake := take_overwrite_add [x] hle
    rw [List.length_singleton] at htake
    exact htake.trans (congrArg (· ++ [x]) hlist)
  case isFalse => cases h

/-- The capacity is doubled exactly when the array is full. -/
theorem arrayAppend_cap [Inhabited α] {a a' : Array α} {x : α} (h : arrayAppend a x = .ok a') :
    a'.cap = if a.len = a.cap then 2 * a.cap else a.cap := by
  obtain ⟨-, hlen, hcap⟩ := arrayAppend_ok h
  have hle := a'.len_le_cap
  split
  case isTrue heq => exact hcap.resolve_left (by omega)
  case isFalse hne =>
    have hgrow : arrayGrow a = .ok a := by rw [arrayGrow, dif_neg hne]
    rw [arrayAppend, hgrow, ok_bind] at h
    split at h
    · exact Except.ok.inj h ▸ rfl
    · cases h

/-- `ArrayAppend` stops exactly when the array is full and cannot be doubled. -/
theorem arrayAppend_error_iff [Inhabited α] (a : Array α) (x : α) :
    arrayAppend a x = .error .assertion ↔ a.len = a.cap ∧ (a.cap = 0 ∨ 2 ^ 15 ≤ a.cap) := by
  rw [← arrayGrow_error_iff, arrayAppend]
  rcases arrayGrow_cases a with ⟨g, hg⟩ | hg
  · obtain ⟨-, hlen, hroom, -⟩ := arrayGrow_ok hg
    rw [hg, ok_bind, dif_pos (by omega)]
    simp only [reduceCtorEq]
  · rw [hg, error_bind]

/-- A result of `ArrayAppend` is an array or the failed assertion. -/
theorem arrayAppend_cases [Inhabited α] (a : Array α) (x : α) :
    (∃ a', arrayAppend a x = .ok a') ∨ arrayAppend a x = .error .assertion := by
  rw [arrayAppend]
  rcases arrayGrow_cases a with ⟨g, hg⟩ | hg
  · rw [hg, ok_bind]
    split
    · exact Or.inl ⟨_, rfl⟩
    · exact Or.inr rfl
  · rw [hg, error_bind]
    exact Or.inr rfl

/-- An array whose capacity has doubled from `64` takes items until there are `2 ^ 15`. -/
theorem arrayAppend_doubling [Inhabited α] {a : Array α} (hcap : ∃ k ≤ 9, a.cap = 64 * 2 ^ k)
    (x : α) :
    (∃ a', arrayAppend a x = .ok a' ∧ a.len < 2 ^ 15 ∧ ∃ k ≤ 9, a'.cap = 64 * 2 ^ k) ∨
      (arrayAppend a x = .error .assertion ∧ a.len = 2 ^ 15) := by
  obtain ⟨k, hk, hcap⟩ := hcap
  have hle := a.len_le_cap
  have hpow : 2 ^ k ≤ 2 ^ 9 := Nat.pow_le_pow_right (by decide) hk
  have hpos : 0 < 2 ^ k := by positivity
  rcases arrayAppend_cases a x with ⟨a', ha⟩ | herr
  · have hroom : ¬ (a.len = a.cap ∧ (a.cap = 0 ∨ 2 ^ 15 ≤ a.cap)) := by
      rw [← arrayAppend_error_iff a x, ha]
      exact nofun
    refine Or.inl ⟨a', ha, by omega, ?_⟩
    rcases (arrayAppend_ok ha).2.2 with hcap' | hcap'
    · exact ⟨k, hk, hcap'.trans hcap⟩
    · -- a doubled capacity still fits 16 bits
      have hlt := a'.cap_lt
      refine ⟨k + 1, ?_, by rw [pow_succ]; omega⟩
      by_contra hgt
      have hpow' : 2 ^ 9 ≤ 2 ^ k := Nat.pow_le_pow_right (by decide) (by omega)
      omega
  · obtain ⟨hfull, hbound⟩ := (arrayAppend_error_iff _ _).mp herr
    exact Or.inr ⟨herr, by omega⟩

/-! ## Removing -/

/-- `ArrayRemove`: move the items behind `index` down by one slot and clear the last slot in
use.  The C code moves `len - index` items, one more than are left; the slot it reads too much is
the one cleared afterwards. -/
def arrayRemove [Inhabited α] (a : Array α) (index : ℕ) : Array α :=
  if h : index < a.len then
    { items :=
        (if a.len > 1 then
          overwrite a.items index ((a.items.drop (index + 1)).take (a.len - index))
        else a.items).set (a.len - 1) default
      len := a.len - 1
      cap := a.cap
      len_le_cap := le_trans (Nat.sub_le _ _) a.len_le_cap
      items_length := by
        have hle := a.len_le_cap
        have hlen := a.items_length
        rw [List.length_set]
        split
        · rw [length_overwrite (by rw [List.length_take, List.length_drop]; omega), hlen]
        · exact hlen
      cap_lt := a.cap_lt }
  else a

/-- Removing erases the item at the index. -/
theorem arrayRemove_toList [Inhabited α] (a : Array α) (index : ℕ) :
    (arrayRemove a index).toList = a.toList.eraseIdx index := by
  have hle := a.len_le_cap
  have hlen := a.items_length
  unfold arrayRemove
  split
  case isTrue h =>
    change (List.set _ (a.len - 1) default).take (a.len - 1) = _
    rw [List.take_set_of_le le_rfl, Array.toList, List.eraseIdx_eq_take_drop_succ, List.take_take,
      Nat.min_eq_left h.le, List.drop_take]
    split
    · rw [overwrite, List.append_assoc, List.take_append, List.length_take, hlen,
        Nat.min_eq_left (by omega), List.take_take, Nat.min_eq_right (by omega),
        List.take_append_of_le_length (by rw [List.length_take, List.length_drop]; omega),
        List.take_take, Nat.min_eq_left (by omega)]
      congr 2
      omega
    · have h0 : index = 0 := by omega
      have h1 : a.len = 1 := by omega
      simp [h0, h1]
  case isFalse h =>
    rw [List.eraseIdx_of_length_le]
    rw [Array.length_toList]
    omega

/-! ## Walking an array -/

/-- The search loop with `n` items left, at index `i`. -/
def arrayFindFrom [Inhabited α] (a : Array α) (p : α → Bool) : ℕ → ℕ → Exec (Option ℕ)
  | 0, _ => .ok none
  | n + 1, i => do
    let x ← arrayItem a i
    if p x then .ok (some i) else arrayFindFrom a p n (i + 1)

/-- The index of the first item that meets `p`: the loops of the `find_...` functions. -/
def arrayFind [Inhabited α] (a : Array α) (p : α → Bool) : Exec (Option ℕ) :=
  arrayFindFrom a p a.len 0

/-- The search loop finds the first hit among the items still ahead. -/
theorem arrayFindFrom_eq [Inhabited α] {a : Array α} (p : α → Bool) {n i : ℕ}
    (h : i + n = a.len) :
    arrayFindFrom a p n i = .ok (((a.toList.drop i).findIdx? p).map (· + i)) := by
  induction n generalizing i with
  | zero => simp [arrayFindFrom, List.drop_eq_nil_of_le, ← h]
  | succ n ih =>
    have hi : i < a.toList.length := by rw [Array.length_toList]; omega
    rw [arrayFindFrom, arrayItem_eq hi, ok_bind, List.drop_eq_getElem_cons hi,
      List.findIdx?_cons, ih (by omega)]
    cases p a.toList[i] with
    | true => simp
    | false =>
      simp only [Bool.false_eq_true, if_false, Option.map_map]
      congr 2
      funext j
      simp only [Function.comp_apply]
      omega

/-- The search loop never trips the assertion in `ArrayItem`, and finds the first hit. -/
@[simp] theorem arrayFind_eq [Inhabited α] (a : Array α) (p : α → Bool) :
    arrayFind a p = .ok (a.toList.findIdx? p) := by
  rw [arrayFind, arrayFindFrom_eq p (Nat.zero_add _)]
  simp

/-- The first item that meets `p` and its index: a search loop that goes on to use the item. -/
def arrayFindItem [Inhabited α] (a : Array α) (p : α → Bool) : Exec (Option (ℕ × α)) := do
  match ← arrayFind a p with
  | some i =>
    let x ← arrayItem a i
    .ok (some (i, x))
  | none => .ok none

/-- The two outcomes of a search for a key. -/
theorem arrayFindItem_cases [Inhabited α] {κ : Type} [DecidableEq κ] (a : Array α) (key : α → κ)
    (k : κ) :
    (arrayFindItem a (fun x => key x = k) = .ok none ∧ lookup key a.toList k = none) ∨
      ∃ (i : ℕ) (h : i < a.toList.length),
        arrayFindItem a (fun x => key x = k) = .ok (some (i, a.toList[i])) ∧
          lookup key a.toList k = some a.toList[i] ∧ key a.toList[i] = k := by
  rw [arrayFindItem, arrayFind_eq, ok_bind]
  cases hi : a.toList.findIdx? fun x => key x = k with
  | none => exact Or.inl ⟨rfl, findIdx?_eq_none_iff_lookup.mp hi⟩
  | some i =>
    obtain ⟨h, hlook, hkey⟩ := findIdx?_lookup hi
    refine Or.inr ⟨i, h, ?_, hlook, hkey⟩
    simp only [arrayItem_eq h, ok_bind]

/-- The loop over all items with `n` items left, at index `i`. -/
def arrayFoldFrom [Inhabited α] (a : Array α) (f : β → α → Exec β) : ℕ → ℕ → β → Exec β
  | 0, _, b => .ok b
  | n + 1, i, b => do
    let x ← arrayItem a i
    let b ← f b x
    arrayFoldFrom a f n (i + 1) b

/-- The loop over all items of an array. -/
def arrayFold [Inhabited α] (a : Array α) (f : β → α → Exec β) (b : β) : Exec β :=
  arrayFoldFrom a f a.len 0 b

/-- The loop over the items still ahead is a run over them. -/
theorem arrayFoldFrom_eq [Inhabited α] {a : Array α} (f : β → α → Exec β) {n i : ℕ} (b : β)
    (h : i + n = a.len) : arrayFoldFrom a f n i b = run f b (a.toList.drop i) := by
  induction n generalizing i b with
  | zero => simp [arrayFoldFrom, List.drop_eq_nil_of_le, ← h]
  | succ n ih =>
    have hi : i < a.toList.length := by rw [Array.length_toList]; omega
    rw [arrayFoldFrom, arrayItem_eq hi, ok_bind, List.drop_eq_getElem_cons hi, run_cons]
    congr 1
    funext b'
    exact ih b' (by omega)

/-- The loop over an array is a run over its list. -/
@[simp] theorem arrayFold_eq [Inhabited α] (a : Array α) (f : β → α → Exec β) (b : β) :
    arrayFold a f b = run f b a.toList := by
  rw [arrayFold, arrayFoldFrom_eq f b (Nat.zero_add _), List.drop_zero]

end TinyMsg
