import TinyMsg.Clib.Array
import TinyMsg.Clib.Buffer
import TinyMsg.Clib.Str

/-!
# `Arena` of `clib.c`

An arena hands out consecutive blocks of a fixed memory, and `ArenaAlloc` aborts the process when
the next block does not fit.  `Buffer` and `Array` take their memory to suffice.  Here the arena
that they draw on is made explicit: a function with the ending `In` is the function without it,
together with what it takes from the arena, and it may also stop with `Stop.noMemory`.

Nothing is ever given back to an arena but by `ArenaReset`; growing an array or a buffer takes a
new block of the new size.
-/

namespace TinyMsg

/-- Why a call does not come back when memory is limited. -/
inductive Stop
  /-- For a reason that has nothing to do with memory. -/
  | fault (e : Fault)
  /-- `ArenaAlloc` has aborted. -/
  | noMemory
  deriving DecidableEq, Repr

/-- A call that takes nothing from an arena. -/
def Exec.lift {α : Type} (x : Exec α) : Except Stop α := x.mapError Stop.fault

@[simp] theorem Exec.lift_ok {α : Type} (a : α) : Exec.lift (.ok a) = .ok a := rfl

@[simp] theorem Exec.lift_error {α : Type} (e : Fault) :
    Exec.lift (.error e : Exec α) = .error (.fault e) := rfl

/-- A call that takes nothing from an arena comes back with what it would without one. -/
theorem Exec.lift_eq_ok {α : Type} {x : Exec α} {a : α} : x.lift = .ok a ↔ x = .ok a := by
  cases x with
  | error e =>
    rw [Exec.lift_error]
    exact ⟨(by rintro ⟨⟩), (by rintro ⟨⟩)⟩
  | ok b =>
    rw [Exec.lift_ok]
    exact ⟨fun h => congrArg _ (Except.ok.inj h), fun h => congrArg _ (Except.ok.inj h)⟩

/-- It does not run out of memory. -/
theorem Exec.lift_ne_noMemory {α : Type} (x : Exec α) : x.lift ≠ .error .noMemory := by
  cases x with
  | error e =>
    rw [Exec.lift_error]
    rintro ⟨⟩
  | ok a => exact fun h => by cases h

/-- `Arena` of `clib.h`. -/
structure Arena where
  /-- `pos` -/
  pos : ℕ
  /-- `cap` -/
  cap : ℕ
  /-- `ArenaAlloc` never goes beyond the end. -/
  pos_le_cap : pos ≤ cap

/-- An arena of which nothing has been handed out. -/
def arenaFresh (cap : ℕ) : Arena := ⟨0, cap, Nat.zero_le cap⟩

/-- An arena whose struct is all zero, as a global variable starts out. -/
def arenaZero : Arena := arenaFresh 0

/-- `ArenaNew`: a capacity of `0` stands for `1024`. -/
def arenaNew (cap : ℕ) : Arena := arenaFresh (if cap = 0 then 1024 else cap)

/-- `ArenaAlloc` -/
def arenaAlloc (a : Arena) (size : ℕ) : Except Stop Arena :=
  if h : a.pos + size > a.cap then .error .noMemory
  else .ok ⟨a.pos + size, a.cap, not_lt.mp h⟩

/-- A block that fits is handed out. -/
theorem arenaAlloc_ok {a : Arena} {size : ℕ} (h : a.pos + size ≤ a.cap) :
    arenaAlloc a size = .ok ⟨a.pos + size, a.cap, h⟩ := by
  rw [arenaAlloc, dif_neg (not_lt.mpr h)]

/-- A block that does not fit is not. -/
theorem arenaAlloc_error {a : Arena} {size : ℕ} (h : a.cap < a.pos + size) :
    arenaAlloc a size = .error .noMemory := by
  rw [arenaAlloc, dif_pos h]

/-- An arena keeps its size. -/
theorem arenaAlloc_cap {a a' : Arena} {size : ℕ} (h : arenaAlloc a size = .ok a') :
    a'.cap = a.cap := by
  rw [arenaAlloc] at h
  split at h
  · cases h
  · exact (Except.ok.inj h) ▸ rfl

/-! ## Arrays -/

/-- `ArrayAppend`, in an arena: a full array takes a block twice as large. -/
def arrayAppendIn {α : Type} [Inhabited α] (itemsize : ℕ) (arena : Arena) (a : Array α) (x : α) :
    Except Stop (Arena × Array α) := do
  let arena ← if a.len = a.cap then arenaAlloc arena (itemsize * a.cap * 2) else .ok arena
  let a ← (arrayAppend a x).lift
  .ok (arena, a)

/-- An array that is not full takes nothing from the arena. -/
theorem arrayAppendIn_of_lt {α : Type} [Inhabited α] (itemsize : ℕ) (arena : Arena) {a a' : Array α}
    {x : α} (hroom : a.len < a.cap) (h : arrayAppend a x = .ok a') :
    arrayAppendIn itemsize arena a x = .ok (arena, a') := by
  rw [arrayAppendIn, if_neg hroom.ne, ok_bind, h]
  rfl

/-- A full array takes a block twice as large. -/
theorem arrayAppendIn_of_full {α : Type} [Inhabited α] (itemsize : ℕ) (arena : Arena)
    {a a' : Array α} {x : α} (hfull : a.len = a.cap) (h : arrayAppend a x = .ok a')
    (hfits : arena.pos + itemsize * a.cap * 2 ≤ arena.cap) :
    arrayAppendIn itemsize arena a x =
      .ok (⟨arena.pos + itemsize * a.cap * 2, arena.cap, hfits⟩, a') := by
  rw [arrayAppendIn, if_pos hfull, arenaAlloc_ok hfits, ok_bind, h]
  rfl

/-- It cannot when the arena is exhausted. -/
theorem arrayAppendIn_error {α : Type} [Inhabited α] (itemsize : ℕ) (arena : Arena) {a : Array α}
    (x : α) (hfull : a.len = a.cap) (hover : arena.cap < arena.pos + itemsize * a.cap * 2) :
    arrayAppendIn itemsize arena a x = .error .noMemory := by
  rw [arrayAppendIn, if_pos hfull, arenaAlloc_error hover]
  rfl

/-- An append in an arena that comes back is an append, and the arena keeps its size. -/
theorem arrayAppendIn_eq {α : Type} [Inhabited α] {itemsize : ℕ} {arena arena' : Arena}
    {a a' : Array α} {x : α} (h : arrayAppendIn itemsize arena a x = .ok (arena', a')) :
    arrayAppend a x = .ok a' ∧ arena'.cap = arena.cap := by
  have hlift : ∀ {b : Arena}, (do let a' ← (arrayAppend a x).lift; .ok (b, a')) =
      (.ok (arena', a') : Except Stop (Arena × Array α)) →
      arrayAppend a x = .ok a' ∧ arena'.cap = b.cap := by
    intro b hb
    obtain ⟨a₁, ha₁, hb⟩ := bind_eq_ok.mp hb
    obtain ⟨rfl, rfl⟩ := Prod.mk.inj (Except.ok.inj hb)
    exact ⟨Exec.lift_eq_ok.mp ha₁, rfl⟩
  rw [arrayAppendIn] at h
  split at h
  · obtain ⟨b, hb, h⟩ := bind_eq_ok.mp h
    obtain ⟨happend, hcap⟩ := hlift h
    exact ⟨happend, hcap.trans (arenaAlloc_cap hb)⟩
  · exact hlift h

/-- Appending runs out of memory exactly when a full array does not find its block. -/
theorem arrayAppendIn_ne_noMemory_iff {α : Type} [Inhabited α] (itemsize : ℕ) (arena : Arena)
    (a : Array α) (x : α) :
    arrayAppendIn itemsize arena a x ≠ .error .noMemory ↔
      (a.len = a.cap → arena.pos + itemsize * a.cap * 2 ≤ arena.cap) := by
  have hlift : ∀ b : Arena, (do let a' ← (arrayAppend a x).lift; .ok (b, a')) ≠
      (.error .noMemory : Except Stop (Arena × Array α)) :=
    fun b => mt bind_ok_eq_error.mp (arrayAppend a x).lift_ne_noMemory
  rw [arrayAppendIn]
  by_cases hfull : a.len = a.cap
  · rw [if_pos hfull]
    by_cases hfits : arena.pos + itemsize * a.cap * 2 ≤ arena.cap
    · rw [arenaAlloc_ok hfits]
      exact iff_of_true (hlift _) fun _ => hfits
    · rw [arenaAlloc_error (not_le.mp hfits)]
      exact iff_of_false (fun h => h rfl) fun h => hfits (h hfull)
  · rw [if_neg hfull]
    exact iff_of_true (hlift _) fun h => absurd h hfull

/-- The loop over all items with `n` items left, at index `i`, when the body may run out of
memory. -/
def arrayFoldInFrom {α β : Type} [Inhabited α] (a : Array α) (f : β → α → Except Stop β) :
    ℕ → ℕ → β → Except Stop β
  | 0, _, b => .ok b
  | n + 1, i, b => do
    let x ← (arrayItem a i).lift
    let b ← f b x
    arrayFoldInFrom a f n (i + 1) b

/-- The loop over all items of an array, when the body may run out of memory. -/
def arrayFoldIn {α β : Type} [Inhabited α] (a : Array α) (f : β → α → Except Stop β) (b : β) :
    Except Stop β := arrayFoldInFrom a f a.len 0 b

/-- The loop over the items still ahead is a run over them. -/
theorem arrayFoldInFrom_eq {α β : Type} [Inhabited α] {a : Array α} (f : β → α → Except Stop β)
    {n i : ℕ} (b : β) (h : i + n = a.len) :
    arrayFoldInFrom a f n i b = run f b (a.toList.drop i) := by
  induction n generalizing i b with
  | zero => simp [arrayFoldInFrom, List.drop_eq_nil_of_le, ← h]
  | succ n ih =>
    have hi : i < a.toList.length := by rw [Array.length_toList]; omega
    rw [arrayFoldInFrom, arrayItem_eq hi, Exec.lift_ok, ok_bind, List.drop_eq_getElem_cons hi,
      run_cons]
    congr 1
    funext b'
    exact ih b' (by omega)

/-- The loop over an array is a run over its list. -/
@[simp] theorem arrayFoldIn_eq {α β : Type} [Inhabited α] (a : Array α) (f : β → α → Except Stop β)
    (b : β) : arrayFoldIn a f b = run f b a.toList := by
  rw [arrayFoldIn, arrayFoldInFrom_eq f b (Nat.zero_add _), List.drop_zero]

/-! ## Buffers -/

/-- `BufferNew`, in an arena. -/
def bufferNewIn (arena : Arena) (cap : ℕ) : Except Stop (Arena × Buffer) := do
  let arena ← arenaAlloc arena (if cap = 0 then 1024 else cap)
  .ok (arena, bufferNew cap)

/-- `BufferAppend`, in an arena: a buffer that has to grow takes a block of its new size. -/
def bufferAppendIn (arena : Arena) (buf : Buffer) (bs : List UInt8) :
    Except Stop (Arena × Buffer) := do
  let newcap := appendCap buf bs.length
  let arena ← if newcap > buf.cap then arenaAlloc arena newcap else .ok arena
  .ok (arena, bufferAppend buf bs)

section Buffers

variable {arena arena' : Arena} {buf buf' : Buffer} {bs : List UInt8}

/-- What is appended does not depend on the arena. -/
theorem bufferAppendIn_eq (h : bufferAppendIn arena buf bs = .ok (arena', buf')) :
    buf' = bufferAppend buf bs := by
  rw [bufferAppendIn] at h
  split at h
  · obtain ⟨_, -, heq⟩ := bind_eq_ok.mp h
    exact (Prod.mk.inj (Except.ok.inj heq)).2.symm
  · exact (Prod.mk.inj (Except.ok.inj h)).2.symm

/-- The doubling loop doubles the capacity some number of times, and only as long as the bytes do
not fit. -/
theorem growCap_eq (bslen : ℕ) {len newcap : ℕ} (fuel : ℕ) (hlen : len ≤ newcap) :
    ∃ j, growCap bslen len fuel newcap = newcap * 2 ^ j ∧
      ∀ i < j, newcap * 2 ^ i < len + bslen := by
  induction fuel generalizing newcap with
  | zero => exact ⟨0, (Nat.mul_one _).symm, fun i hi => absurd hi (Nat.not_lt_zero i)⟩
  | succ fuel ih =>
    rw [growCap]
    by_cases hroom : bslen > newcap - len
    · rw [if_pos hroom]
      obtain ⟨j, hcap, hfull⟩ := ih (show len ≤ newcap * 2 by omega)
      refine ⟨j + 1, by rw [hcap, pow_succ', Nat.mul_assoc], fun i hi => ?_⟩
      cases i with
      | zero =>
        rw [pow_zero]
        omega
      | succ i =>
        rw [pow_succ', ← Nat.mul_assoc]
        exact hfull i (Nat.lt_of_succ_lt_succ hi)
    · rw [if_neg hroom]
      exact ⟨0, (Nat.mul_one _).symm, fun i hi => absurd hi (Nat.not_lt_zero i)⟩

/-- The new capacity is the least that the bytes fit in, among those that doubling reaches. -/
theorem appendCap_le_iff (buf : Buffer) (bslen k : ℕ) :
    appendCap buf bslen ≤ buf.cap * 2 ^ k ↔ buf.len + bslen ≤ buf.cap * 2 ^ k := by
  have hroom := len_add_le_appendCap buf bslen
  constructor
  · exact hroom.trans
  · intro hfits
    obtain ⟨j, hcap, hfull⟩ := growCap_eq bslen (buf.len + bslen) buf.len_le_cap
    rw [appendCap, hcap]
    refine Nat.mul_le_mul_left _ (Nat.pow_le_pow_right (by decide) ?_)
    by_contra hlt
    exact absurd (hfull k (not_le.mp hlt)) (not_lt.mpr hfits)

/-- It is reached by doubling. -/
theorem appendCap_eq (buf : Buffer) (bslen : ℕ) : ∃ j, appendCap buf bslen = buf.cap * 2 ^ j := by
  obtain ⟨j, hcap, -⟩ := growCap_eq bslen (buf.len + bslen) buf.len_le_cap
  exact ⟨j, hcap⟩

/-- Bytes that fit take nothing from the arena and leave the capacity. -/
theorem bufferAppendIn_of_le (arena : Arena) {buf : Buffer} {bs : List UInt8}
    (h : buf.len + bs.length ≤ buf.cap) :
    bufferAppendIn arena buf bs = .ok (arena, bufferAppend buf bs) ∧
      (bufferAppend buf bs).cap = buf.cap := by
  have hle : appendCap buf bs.length ≤ buf.cap := by
    have hiff := appendCap_le_iff buf bs.length 0
    rw [pow_zero, Nat.mul_one] at hiff
    exact hiff.mpr h
  refine ⟨?_, le_antisymm hle (cap_le_appendCap buf bs.length)⟩
  rw [bufferAppendIn, if_neg (not_lt.mpr hle), ok_bind]

/-- An append succeeds when there is room for the new block. -/
theorem bufferAppendIn_ok (arena : Arena) (buf : Buffer) (bs : List UInt8)
    (h : arena.pos + appendCap buf bs.length ≤ arena.cap) :
    ∃ r, bufferAppendIn arena buf bs = .ok r := by
  rw [bufferAppendIn]
  split
  · rw [arenaAlloc_ok h]
    exact ⟨_, rfl⟩
  · exact ⟨_, rfl⟩

/-- Bytes that do not fit need a new block. -/
theorem bufferAppendIn_error (hgrow : buf.cap < buf.len + bs.length)
    (h : arena.cap < arena.pos + appendCap buf bs.length) :
    bufferAppendIn arena buf bs = .error .noMemory := by
  rw [bufferAppendIn, if_pos (lt_of_lt_of_le hgrow (len_add_le_appendCap buf bs.length)),
    arenaAlloc_error h]
  rfl

end Buffers

/-! ## Strings -/

/-- `StringNew`, in an arena. -/
def stringNewIn (arena : Arena) (s : CStr) : Except Stop (Arena × String) := do
  let str := stringNew s
  let arena ← arenaAlloc arena (str.len + 1)
  .ok (arena, str)

/-- `StringFormat`, given what the format prints: the length is stored into a `u16` before the
block is taken, and the second `vsnprintf` writes as much as that. -/
def stringFormatIn (arena : Arena) (printed : CStr) : Except Stop (Arena × String) :=
  stringNewIn arena printed

/-- `StringDup`, in an arena. -/
def stringDupIn (arena : Arena) (src : String) : Except Stop (Arena × String) := do
  let arena ← arenaAlloc arena (src.len + 1)
  .ok (arena, stringDup src)

section Strings

variable {arena arena' : Arena} {s : CStr} {src str : String}

/-- What a string is made of does not depend on the arena. -/
theorem stringNewIn_eq (h : stringNewIn arena s = .ok (arena', str)) :
    str = stringNew s ∧ arena'.cap = arena.cap := by
  obtain ⟨_, halloc, heq⟩ := bind_eq_ok.mp h
  obtain ⟨rfl, rfl⟩ := Prod.mk.inj (Except.ok.inj heq)
  exact ⟨rfl, arenaAlloc_cap halloc⟩

/-- A copy does not depend on the arena. -/
theorem stringDupIn_eq (h : stringDupIn arena src = .ok (arena', str)) :
    str = stringDup src ∧ arena'.cap = arena.cap := by
  obtain ⟨_, halloc, heq⟩ := bind_eq_ok.mp h
  obtain ⟨rfl, rfl⟩ := Prod.mk.inj (Except.ok.inj heq)
  exact ⟨rfl, arenaAlloc_cap halloc⟩

/-- A string that fits takes its 16-bit length and the NUL. -/
theorem stringNewIn_ok (h : arena.pos + (strlen s % 2 ^ 16 + 1) ≤ arena.cap) :
    stringNewIn arena s =
      .ok (⟨arena.pos + (strlen s % 2 ^ 16 + 1), arena.cap, h⟩, stringNew s) := by
  have halloc := arenaAlloc_ok h
  rw [stringNewIn]
  change (arenaAlloc arena (strlen s % 2 ^ 16 + 1) >>= _) = _
  rw [halloc, ok_bind]

/-- A string that does not fit cannot be made. -/
theorem stringNewIn_error (h : arena.cap < arena.pos + (strlen s % 2 ^ 16 + 1)) :
    stringNewIn arena s = .error .noMemory := by
  have halloc := arenaAlloc_error h
  rw [stringNewIn]
  change (arenaAlloc arena (strlen s % 2 ^ 16 + 1) >>= _) = _
  rw [halloc, error_bind]

end Strings

end TinyMsg
