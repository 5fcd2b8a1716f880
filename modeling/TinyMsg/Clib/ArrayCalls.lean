import TinyMsg.Clib.Array
import TinyMsg.Lib.Doubling

/-!
# Calls of the array functions

An array after any sequence of calls of `ArrayAppend`, `ArrayRemove`, `ArrayReplace` and
`ArrayClear` stands for the list that the calls make, as long as there was room: `len` and `cap`
are 16-bit and the size of the block is computed as an `int`.  An array that is full doubles its
capacity, so there is room exactly when a capacity `cap * 2 ^ k` that fits both is long enough; the
capacity that `ArrayNew` was called with decides how far that goes.
-/

namespace TinyMsg

variable {α : Type}

/-! ## The functions -/

/-- `itemsize*cap` as an `int`, the size of a block. -/
def arrayBlock (itemsize cap : ℕ) : Exec Unit :=
  if itemsize * cap < 2 ^ 31 then .ok () else .error .undefined

/-- `ArrayNew` of items of a size. -/
def arrayNewOf [Inhabited α] (itemsize : ℕ) (cap : UInt16) : Exec (Array α) := do
  let a := arrayNew cap
  arrayBlock itemsize a.cap
  .ok a

/-- `ArrayAppend` of an item of a size. -/
def arrayAppendOf [Inhabited α] (itemsize : ℕ) (a : Array α) (x : α) : Exec (Array α) := do
  -- the size of the new block is computed before `cap` is truncated
  if a.len = a.cap then arrayBlock itemsize (a.cap * 2)
  arrayAppend a x

/-- `ArrayRemove` at any `int`. -/
def arrayRemoveAt [Inhabited α] (a : Array α) (index : ℤ) : Array α :=
  if index < 0 then a else arrayRemove a index.toNat

/-- `ArrayReplace` -/
def arrayReplace (a : Array α) (index : ℤ) (x : α) : Array α :=
  if index < 0 ∨ a.len ≤ index then a else arrayStore a index.toNat x

/-- `ArrayClear` -/
def arrayClear [Inhabited α] (a : Array α) : Array α where
  items := overwrite a.items 0 (List.replicate a.len default)
  len := 0
  cap := a.cap
  len_le_cap := Nat.zero_le _
  items_length := by
    rw [length_overwrite, a.items_length]
    rw [List.length_replicate, a.items_length, Nat.zero_add]
    exact a.len_le_cap
  cap_lt := a.cap_lt

/-- A call of an array function. -/
inductive ArrayCall (α : Type)
  /-- `ArrayAppend` -/
  | append (x : α)
  /-- `ArrayRemove` -/
  | remove (index : ℤ)
  /-- `ArrayReplace` -/
  | replace (index : ℤ) (x : α)
  /-- `ArrayClear` -/
  | clear

/-- The array after a call. -/
def arrayCall [Inhabited α] (itemsize : ℕ) (a : Array α) : ArrayCall α → Exec (Array α)
  | .append x => arrayAppendOf itemsize a x
  | .remove index => .ok (arrayRemoveAt a index)
  | .replace index x => .ok (arrayReplace a index x)
  | .clear => .ok (arrayClear a)

/-- A new array after a sequence of calls. -/
def runArray [Inhabited α] (itemsize : ℕ) (cap : UInt16) (calls : List (ArrayCall α)) :
    Exec (Array α) := do
  let a ← arrayNewOf itemsize cap
  run (arrayCall itemsize) a calls

/-! ## The list -/

/-- The list after a call: an index that is out of range changes nothing. -/
def listCall (l : List α) : ArrayCall α → List α
  | .append x => l ++ [x]
  | .remove index => if index < 0 then l else l.eraseIdx index.toNat
  | .replace index x => if index < 0 then l else l.set index.toNat x
  | .clear => []

/-- The list after a sequence of calls. -/
def listAfter (calls : List (ArrayCall α)) : List α := calls.foldl listCall []

/-- The capacity of a new array. -/
def initialCap (cap : UInt16) : ℕ := if cap = 0 then 32 else cap.toNat

/-- The capacity fits a `u16`, and the size of its block fits an `int`. -/
def ArrayCap (itemsize cap : ℕ) : Prop := cap < 2 ^ 16 ∧ itemsize * cap < 2 ^ 31

section Spec

variable [Inhabited α] {itemsize c : ℕ} {cap : UInt16} {a : Array α} {l : List α}

/-- A smaller capacity fits as well. -/
theorem ArrayCap.anti (itemsize m n : ℕ) (hmn : m ≤ n) (h : ArrayCap itemsize n) :
    ArrayCap itemsize m := by
  have hmul := Nat.mul_le_mul_left itemsize hmn
  exact ⟨hmn.trans_lt h.1, hmul.trans_lt h.2⟩

theorem arrayNew_cap (cap : UInt16) : (arrayNew cap : Array α).cap = initialCap cap := rfl

@[simp] theorem arrayRemoveAt_toList (a : Array α) (index : ℤ) :
    (arrayRemoveAt a index).toList =
      if index < 0 then a.toList else a.toList.eraseIdx index.toNat := by
  unfold arrayRemoveAt
  split
  · rfl
  · exact arrayRemove_toList a index.toNat

theorem arrayRemoveAt_cap (a : Array α) (index : ℤ) : (arrayRemoveAt a index).cap = a.cap := by
  unfold arrayRemoveAt arrayRemove
  split
  · rfl
  · split <;> rfl

omit [Inhabited α] in
@[simp] theorem arrayReplace_toList (a : Array α) (index : ℤ) (x : α) :
    (arrayReplace a index x).toList =
      if index < 0 then a.toList else a.toList.set index.toNat x := by
  unfold arrayReplace
  by_cases hneg : index < 0
  · rw [if_pos (Or.inl hneg), if_pos hneg]
  · rw [if_neg hneg]
    split
    case isTrue hout =>
      -- the index is behind the list
      have hlen : a.toList.length ≤ index.toNat := by
        rw [Array.length_toList]
        omega
      exact (List.set_eq_of_length_le hlen).symm
    case isFalse => exact arrayStore_toList a index.toNat x

omit [Inhabited α] in
theorem arrayReplace_cap (a : Array α) (index : ℤ) (x : α) :
    (arrayReplace a index x).cap = a.cap := by
  unfold arrayReplace
  split <;> rfl

@[simp] theorem arrayClear_toList (a : Array α) : (arrayClear a).toList = [] := rfl

/-- An array that stands for a list, at a capacity that has doubled from `c`. -/
structure Stands (itemsize c : ℕ) (l : List α) (a : Array α) : Prop where
  /-- The items are those of the list. -/
  toList : a.toList = l
  /-- The capacity has doubled, and fits. -/
  cap : ∃ k, a.cap = c * 2 ^ k ∧ ArrayCap itemsize (c * 2 ^ k)

omit [Inhabited α] in
theorem Stands.len (h : Stands itemsize c l a) : a.len = l.length := by
  rw [← h.toList, Array.length_toList]

omit [Inhabited α] in
/-- What stands for a list has room for it. -/
theorem Stands.room (h : Stands itemsize c l a) : Room (ArrayCap itemsize) c l.length := by
  obtain ⟨k, hcap, hok⟩ := h.cap
  have hle := a.len_le_cap
  rw [h.len, hcap] at hle
  exact ⟨k, hle, hok⟩

/-- An array takes one more item if it has a free slot or can be doubled, else the call stops. -/
theorem arrayAppendOf_cases (itemsize : ℕ) (a : Array α) (x : α) :
    (∃ a', arrayAppendOf itemsize a x = .ok a' ∧ a'.toList = a.toList ++ [x] ∧
        (a.len < a.cap ∧ a'.cap = a.cap ∨
          a.len = a.cap ∧ a'.cap = a.cap * 2 ∧ ArrayCap itemsize (a.cap * 2))) ∨
      (∃ stop, arrayAppendOf itemsize a x = .error stop) ∧
        a.len = a.cap ∧ ¬ (0 < a.cap ∧ ArrayCap itemsize (a.cap * 2)) := by
  have hle := a.len_le_cap
  have herr := arrayAppend_error_iff a x
  by_cases hfull : a.len = a.cap
  case pos =>
    by_cases hblock : itemsize * (a.cap * 2) < 2 ^ 31
    case pos =>
      have hrun : arrayAppendOf itemsize a x = arrayAppend a x := by
        rw [arrayAppendOf, if_pos hfull, arrayBlock, if_pos hblock, ok_bind]
      rw [hrun]
      rcases arrayAppend_cases a x with ⟨a', ha'⟩ | hstop
      · have hcap' := arrayAppend_cap ha'
        rw [if_pos hfull] at hcap'
        have hlt := a'.cap_lt
        refine Or.inl ⟨a', ha', (arrayAppend_ok ha').1, Or.inr ⟨hfull, by omega, by omega, hblock⟩⟩
      · have hbound := herr.mp hstop
        refine Or.inr ⟨⟨_, hstop⟩, hfull, ?_⟩
        rintro ⟨hpos, hlt, -⟩
        omega
    case neg =>
      refine Or.inr ⟨⟨.undefined, ?_⟩, hfull, fun h => hblock h.2.2⟩
      rw [arrayAppendOf, if_pos hfull, arrayBlock, if_neg hblock, error_bind]
  case neg =>
    have hrun : arrayAppendOf itemsize a x = arrayAppend a x := by
      rw [arrayAppendOf, if_neg hfull]
    rw [hrun]
    rcases arrayAppend_cases a x with ⟨a', ha'⟩ | hstop
    · have hcap' := arrayAppend_cap ha'
      rw [if_neg hfull] at hcap'
      exact Or.inl ⟨a', ha', (arrayAppend_ok ha').1, Or.inl ⟨by omega, hcap'⟩⟩
    · exact absurd (herr.mp hstop).1 hfull

/-- After a call the array stands for the list after the call. -/
theorem Stands.call (h : Stands itemsize c l a) {call : ArrayCall α} {a' : Array α}
    (hrun : arrayCall itemsize a call = .ok a') : Stands itemsize c (listCall l call) a' := by
  have hlist := h.toList
  cases call with
  | append x =>
    obtain ⟨k, hcap, hok⟩ := h.cap
    rcases arrayAppendOf_cases itemsize a x with
      ⟨b, hb, hlist', hcap'⟩ | ⟨⟨stop, hstop⟩, -, -⟩
    · obtain rfl := Except.ok.inj (hb.symm.trans hrun)
      refine ⟨by rw [hlist', hlist]; rfl, ?_⟩
      rcases hcap' with ⟨-, hsame⟩ | ⟨-, hdouble, hok'⟩
      · exact ⟨k, hsame.trans hcap, hok⟩
      · have hnext : c * 2 ^ (k + 1) = a.cap * 2 := by rw [hcap, pow_succ, Nat.mul_assoc]
        exact ⟨k + 1, hdouble.trans hnext.symm, hnext ▸ hok'⟩
    · cases hstop.symm.trans hrun
  | remove index =>
    obtain rfl := Except.ok.inj hrun
    exact ⟨by rw [arrayRemoveAt_toList, hlist]; rfl, by rw [arrayRemoveAt_cap]; exact h.cap⟩
  | replace index x =>
    obtain rfl := Except.ok.inj hrun
    exact ⟨by rw [arrayReplace_toList, hlist]; rfl, by rw [arrayReplace_cap]; exact h.cap⟩
  | clear =>
    obtain rfl := Except.ok.inj hrun
    exact ⟨rfl, h.cap⟩

/-- A call whose list has room does not stop. -/
theorem Stands.runs (h : Stands itemsize c l a) {call : ArrayCall α}
    (hroom : Room (ArrayCap itemsize) c (listCall l call).length) :
    ∃ a', arrayCall itemsize a call = .ok a' := by
  cases call with
  | append x =>
    obtain ⟨k, hcap, hok⟩ := h.cap
    have hle : l.length ≤ c * 2 ^ k := by
      rw [← h.len, ← hcap]
      exact a.len_le_cap
    rw [listCall, List.length_append, List.length_singleton,
      Room.succ_iff (ArrayCap.anti itemsize) hok hle, ← h.len, ← hcap] at hroom
    rcases arrayAppendOf_cases itemsize a x with ⟨a', ha', -⟩ | ⟨-, hfull, hnot⟩
    · exact ⟨a', ha'⟩
    · -- a full array that cannot be doubled has no room
      rcases hroom with hlt | ⟨hpos, hok'⟩
      · omega
      · refine absurd ⟨?_, hok'⟩ hnot
        rw [hcap]
        exact Nat.mul_pos hpos (by positivity)
  | remove index => exact ⟨_, rfl⟩
  | replace index x => exact ⟨_, rfl⟩
  | clear => exact ⟨_, rfl⟩

/-- A call whose list has no room stops. -/
theorem Stands.stops (h : Stands itemsize c l a) {call : ArrayCall α}
    (hroom : ¬ Room (ArrayCap itemsize) c (listCall l call).length) :
    ∃ stop, arrayCall itemsize a call = .error stop := by
  cases hrun : arrayCall itemsize a call with
  | ok a' => exact absurd (h.call hrun).room hroom
  | error stop => exact ⟨stop, rfl⟩

/-- From an array that stands for a list, the calls get through exactly when there is room for
every list they make on the way. -/
theorem Stands.run_iff (h : Stands itemsize c l a) (calls : List (ArrayCall α)) :
    (∃ a', run (arrayCall itemsize) a calls = .ok a' ∧
        Stands itemsize c (calls.foldl listCall l) a') ↔
      ∀ fs, fs <+: calls → Room (ArrayCap itemsize) c (fs.foldl listCall l).length := by
  apply run_refines_iff (P := fun l : List α => Room (ArrayCap itemsize) c l.length)
  · intro l a h
    exact h.room
  · intro l a call h hroom
    obtain ⟨a', ha'⟩ := h.runs hroom
    exact ⟨a', ha', h.call ha'⟩
  · intro l a call h hroom
    exact h.stops hroom
  · exact h

/-- A block that is too large stops `ArrayNew`. -/
theorem arrayNewOf_error (hblock : ¬ itemsize * initialCap cap < 2 ^ 31) :
    (arrayNewOf itemsize cap : Exec (Array α)) = .error .undefined := by
  rw [arrayNewOf, arrayBlock, arrayNew_cap, if_neg hblock, error_bind]

/-- A new array stands for the empty list, unless its block is too large. -/
theorem arrayNewOf_stands (hblock : itemsize * initialCap cap < 2 ^ 31) :
    ∃ a : Array α, arrayNewOf itemsize cap = .ok a ∧ Stands itemsize (initialCap cap) [] a := by
  refine ⟨arrayNew cap, ?_, rfl, 0, ?_, ?_⟩
  · rw [arrayNewOf, arrayBlock, arrayNew_cap, if_pos hblock]
    rfl
  · rw [pow_zero, Nat.mul_one, arrayNew_cap]
  · rw [pow_zero, Nat.mul_one]
    exact ⟨(arrayNew cap : Array α).cap_lt, hblock⟩

/-- The array after a sequence of calls stands for the list after them. -/
theorem Stands.run (h : Stands itemsize c l a) {calls : List (ArrayCall α)} {a' : Array α}
    (hrun : run (arrayCall itemsize) a calls = .ok a') :
    Stands itemsize c (calls.foldl listCall l) a' := by
  apply run_history (I := fun es a => Stands itemsize c (es.foldl listCall l) a) h _ hrun
  intro es b call b' hb hstep
  rw [List.foldl_concat]
  exact hb.call hstep

/-- A new array after a sequence of calls stands for the list after them. -/
theorem runArray_stands {calls : List (ArrayCall α)} (hrun : runArray itemsize cap calls = .ok a) :
    Stands itemsize (initialCap cap) (listAfter calls) a := by
  obtain ⟨b, hb, hrun⟩ := bind_eq_ok.mp hrun
  by_cases hblock : itemsize * initialCap cap < 2 ^ 31
  · obtain ⟨b', hb', hnew⟩ := arrayNewOf_stands (α := α) hblock
    obtain rfl := Except.ok.inj (hb'.symm.trans hb)
    exact hnew.run hrun
  · rw [arrayNewOf_error hblock] at hb
    cases hb

end Spec

/-! ## The theorem -/

/-- An array after a sequence of calls refines the list: no assertion fails, `len` is within `cap`,
and the items are those of the list.  That holds exactly when some doubling of the initial capacity
that fits `cap` and the size of a block has room for the longest list of the sequence. -/
theorem array_refines_list_iff [Inhabited α] (itemsize : ℕ) (cap : UInt16)
    (calls : List (ArrayCall α)) :
    (∃ a, runArray itemsize cap calls = .ok a ∧ a.len ≤ a.cap ∧ a.toList = listAfter calls) ↔
      ∀ fs, fs <+: calls → Room (ArrayCap itemsize) (initialCap cap) (listAfter fs).length := by
  constructor
  · rintro ⟨a, ha, -⟩ fs hfs
    obtain ⟨gs, rfl⟩ := hfs
    obtain ⟨b, hb, hrun⟩ := bind_eq_ok.mp ha
    rw [run_append, bind_eq_ok] at hrun
    obtain ⟨b', hb', -⟩ := hrun
    have hrun : runArray itemsize cap fs = .ok b' := by rw [runArray, hb, ok_bind, hb']
    exact (runArray_stands hrun).room
  · intro hroom
    have hblock : itemsize * initialCap cap < 2 ^ 31 := by
      obtain ⟨k, -, -, hsize⟩ := hroom [] List.nil_prefix
      refine lt_of_le_of_lt (Nat.mul_le_mul_left itemsize ?_) hsize
      exact Nat.le_mul_of_pos_right _ (by positivity)
    obtain ⟨a, ha, hnew⟩ := arrayNewOf_stands (α := α) hblock
    obtain ⟨a', ha', hstands⟩ := (hnew.run_iff calls).mpr hroom
    refine ⟨a', ?_, a'.len_le_cap, hstands.toList⟩
    rw [runArray, ha, ok_bind, ha']

/-- Appending the items of a list makes the list. -/
theorem listAfter_map_append (l : List α) : listAfter (l.map .append) = l := by
  induction l using List.reverseRecOn with
  | nil => rfl
  | append_singleton l x ih =>
    unfold listAfter at ih ⊢
    rw [List.map_append, List.map_singleton, List.foldl_concat, ih]
    rfl

/-- Appending an item `n` times makes a list of `n` items. -/
theorem listAfter_replicate (n : ℕ) (x : α) :
    listAfter (List.replicate n (.append x)) = List.replicate n x := by
  rw [← listAfter_map_append (List.replicate n x), List.map_replicate]

/-- The 32769th item does not fit an array that was made for 64: its capacity of 32768 doubles to
0, and the assertion behind the growth fails. -/
theorem array_stops_at_32769 :
    (∀ fs, fs <+: List.replicate 32769 (.append (0 : UInt32)) →
        (listAfter fs).length ≤ 65535) ∧
      runArray 4 64 (List.replicate 32769 (.append (0 : UInt32))) = .error .assertion := by
  have hlength : ∀ n fs, fs <+: List.replicate n (ArrayCall.append (0 : UInt32)) →
      (listAfter fs).length ≤ n := by
    intro n fs hfs
    obtain ⟨hle, heq⟩ := List.prefix_replicate_iff.mp hfs
    rw [heq, listAfter_replicate, List.length_replicate]
    exact hle
  refine ⟨fun fs hfs => (hlength 32769 fs hfs).trans (by decide), ?_⟩
  have hcap : initialCap 64 = 64 := by decide
  obtain ⟨a, ha, hnew⟩ : ∃ a : Array UInt32, arrayNewOf 4 64 = .ok a ∧ Stands 4 64 [] a :=
    hcap ▸ arrayNewOf_stands (by decide)
  -- the capacity goes up to 32768
  have hroom : ∀ fs, fs <+: List.replicate 32768 (ArrayCall.append (0 : UInt32)) →
      Room (ArrayCap 4) 64 (fs.foldl listCall []).length := by
    intro fs hfs
    exact ⟨9, hlength _ fs hfs, by decide, by decide⟩
  obtain ⟨b, hb, hfull⟩ := (hnew.run_iff _).mpr hroom
  have hlen : b.len = 32768 := by
    rw [hfull.len]
    change (listAfter _).length = _
    rw [listAfter_replicate, List.length_replicate]
  have hbcap : b.cap = 32768 := by
    obtain ⟨k, hk, hlt, -⟩ := hfull.cap
    have hle := b.len_le_cap
    have hk9 : 9 ≤ k := by
      by_contra hlt9
      have hpow : 2 ^ k ≤ 2 ^ 8 := Nat.pow_le_pow_right (by decide) (by omega)
      omega
    have hk10 : k < 10 := (Nat.pow_lt_pow_iff_right (by decide)).mp (by omega : 2 ^ k < 2 ^ 10)
    obtain rfl : k = 9 := by omega
    exact hk
  have hlast : arrayCall 4 b (.append 0) = .error .assertion := by
    rw [arrayCall, arrayAppendOf, arrayBlock, if_pos (hlen.trans hbcap.symm), hbcap,
      if_pos (by decide), ok_bind, arrayAppend_error_iff]
    omega
  rw [runArray, ha, ok_bind, List.replicate_succ' (n := 32768), run_concat, hb, ok_bind, hlast]

end TinyMsg
