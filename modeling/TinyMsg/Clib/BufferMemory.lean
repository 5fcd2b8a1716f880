import TinyMsg.Clib.Arena

/-!
# `Buffer` in the memory of an arena

`Buffer` of this development carries its block and its invariant, and its doubling loop counts with
natural numbers.  Here the functions are those of `clib.c` once more, closer to the machine: an
arena is its bytes with a position, a `Buffer` is a struct with the offset of its block, `u32` is
`unsigned long`, so sums, differences and doublings wrap at `2 ^ 64`, and the doubling loop, the
assertions and `ArenaAlloc` may each keep a call from coming back.

`BufferAt` says that a struct in an arena stands for a `Buffer`.  Each call keeps it as long as the
arena has room for the block that the call takes (`bufferOp_ok`), and what a `Buffer` stands for is
a queue of bytes (`bufferCall_contents`).
-/

namespace TinyMsg

/-! ## The functions -/

/-- Why a call of a buffer function does not come back. -/
inductive BufferStop
  /-- An `assert()` has failed. -/
  | assertion
  /-- `ArenaAlloc` has aborted. -/
  | noMemory
  /-- The doubling loop goes on. -/
  | growing
  deriving DecidableEq, Repr

/-- A sum or a product of `u32` numbers. -/
def wrapU32 (n : ℕ) : ℕ := n % 2 ^ 64

/-- A difference of `u32` numbers. -/
def subU32 (m n : ℕ) : ℕ := wrapU32 (m + 2 ^ 64 - n)

/-- `Arena` of `clib.h`, with the memory at `bs`. -/
structure ArenaMem where
  /-- The memory. -/
  bs : List UInt8
  /-- `pos` -/
  pos : ℕ
  /-- `cap` -/
  cap : ℕ
  deriving DecidableEq

/-- `Buffer` of `clib.h`. -/
structure BufferStruct where
  /-- The pointer to the arena is not null. -/
  arena : Bool
  /-- The offset of the block in the memory of the arena. -/
  bs : ℕ
  /-- `len` -/
  len : ℕ
  /-- `cap` -/
  cap : ℕ
  deriving DecidableEq

/-- `ArenaAlloc`: the arena and the offset of the block. -/
def arenaAllocMem (a : ArenaMem) (size : ℕ) : Except BufferStop (ArenaMem × ℕ) :=
  if wrapU32 (a.pos + size) > a.cap then .error .noMemory
  else .ok ({ a with pos := wrapU32 (a.pos + size) }, a.pos)

/-- `ArenaRealloc`: a new block with a copy of the old one. -/
def arenaReallocMem (a : ArenaMem) (oldbs oldsize newsize : ℕ) :
    Except BufferStop (ArenaMem × ℕ) := do
  let (a, newbs) ← arenaAllocMem a newsize
  .ok ({ a with bs := overwrite a.bs newbs ((a.bs.drop oldbs).take oldsize) }, newbs)

/-- `BufferNew` -/
def bufferNewMem (a : ArenaMem) (cap : ℕ) : Except BufferStop (ArenaMem × BufferStruct) := do
  let cap := if cap = 0 then 1024 else cap
  let (a, bs) ← arenaAllocMem a cap
  .ok (a, ⟨true, bs, 0, cap⟩)

/-- `BufferClear` -/
def bufferClearMem (a : ArenaMem) (buf : BufferStruct) : ArenaMem × BufferStruct :=
  ({ a with bs := overwrite a.bs buf.bs (List.replicate buf.len 0) }, { buf with len := 0 })

/-- The loop that doubles `newcap` in `BufferAppend`, if it ends within `fuel` rounds. -/
def growLoop (bslen len : ℕ) : ℕ → ℕ → Except BufferStop ℕ
  | 0, _ => .error .growing
  | fuel + 1, newcap =>
    if bslen > subU32 newcap len then growLoop bslen len fuel (wrapU32 (newcap * 2))
    else .ok newcap

/-- The part of `BufferAppend` that takes a larger block. -/
def bufferGrowMem (a : ArenaMem) (buf : BufferStruct) (newcap : ℕ) :
    Except BufferStop (ArenaMem × BufferStruct) :=
  if newcap > buf.cap then
    if ¬ buf.arena then .error .assertion
    else do
      let (a, newbs) ← arenaReallocMem a buf.bs buf.cap newcap
      .ok (a, { buf with bs := newbs, cap := newcap })
  else .ok (a, buf)

/-- `BufferAppend` -/
def bufferAppendMem (fuel : ℕ) (a : ArenaMem) (buf : BufferStruct) (bs : List UInt8) :
    Except BufferStop (ArenaMem × BufferStruct) :=
  if ¬ buf.len ≤ buf.cap then .error .assertion
  else do
    let newcap ← growLoop bs.length buf.len fuel buf.cap
    let (a, buf) ← bufferGrowMem a buf newcap
    if ¬ bs.length ≤ subU32 buf.cap buf.len then .error .assertion
    else
      .ok ({ a with bs := overwrite a.bs (buf.bs + buf.len) bs },
        { buf with len := wrapU32 (buf.len + bs.length) })

/-- `BufferAppendChar` -/
def bufferAppendCharMem (fuel : ℕ) (a : ArenaMem) (buf : BufferStruct) (c : UInt8) :
    Except BufferStop (ArenaMem × BufferStruct) := bufferAppendMem fuel a buf [c]

/-- `BufferAppendByte` -/
def bufferAppendByteMem (fuel : ℕ) (a : ArenaMem) (buf : BufferStruct) (b : UInt8) :
    Except BufferStop (ArenaMem × BufferStruct) := bufferAppendMem fuel a buf [b]

/-- `BufferShift` by a number of bytes, with a copy like that of `memmove`.  The parameter is an
`int`, and each call passes a size or a count.  A negative one becomes a number beyond every `len`
in `n > buf->len`, so it would drop all bytes, as a large number of bytes does. -/
def bufferShiftMem (a : ArenaMem) (buf : BufferStruct) (n : ℕ) :
    Except BufferStop (ArenaMem × BufferStruct) :=
  if ¬ buf.len ≤ buf.cap then .error .assertion
  else
    let n := if n > buf.len then buf.len else n
    let moved := overwrite a.bs buf.bs ((a.bs.drop (buf.bs + n)).take (subU32 buf.len n))
    let len := subU32 buf.len n
    .ok ({ a with bs := overwrite moved (buf.bs + len) (List.replicate (subU32 buf.cap len) 0) },
      { buf with len := len })

/-- A call on a buffer. -/
inductive BufferOp
  /-- `BufferAppend` -/
  | append (bs : List UInt8)
  /-- `BufferAppendChar` -/
  | appendChar (c : UInt8)
  /-- `BufferAppendByte` -/
  | appendByte (b : UInt8)
  /-- `BufferShift`, by an amount that is not negative. -/
  | shift (n : ℕ)
  /-- `BufferClear` -/
  | clear

/-- A call in the memory of the arena. -/
def bufferOp (fuel : ℕ) (s : ArenaMem × BufferStruct) :
    BufferOp → Except BufferStop (ArenaMem × BufferStruct)
  | .append bs => bufferAppendMem fuel s.1 s.2 bs
  | .appendChar c => bufferAppendCharMem fuel s.1 s.2 c
  | .appendByte b => bufferAppendByteMem fuel s.1 s.2 b
  | .shift n => bufferShiftMem s.1 s.2 n
  | .clear => .ok (bufferClearMem s.1 s.2)

/-- A new buffer and calls on it. -/
def runBuffer (fuel : ℕ) (a : ArenaMem) (cap : ℕ) (ops : List BufferOp) :
    Except BufferStop (ArenaMem × BufferStruct) := do
  let s ← bufferNewMem a cap
  run (bufferOp fuel) s ops

/-! ## The queue -/

/-- What a call is to a queue of bytes: bytes are appended at the end, the first `min n len` bytes
are dropped, or all are. -/
def queueOp (queue : List UInt8) : BufferOp → List UInt8
  | .append bs => queue ++ bs
  | .appendChar c => queue ++ [c]
  | .appendByte b => queue ++ [b]
  | .shift n => queue.drop (min n queue.length)
  | .clear => []

/-- A call on a `Buffer`. -/
def bufferCall (buf : Buffer) : BufferOp → Buffer
  | .append bs => bufferAppend buf bs
  | .appendChar c => bufferAppendByte buf c
  | .appendByte b => bufferAppendByte buf b
  | .shift n => bufferShift buf n
  | .clear => bufferClear buf

/-- A call does to the contents what it does to a queue. -/
theorem bufferCall_contents (buf : Buffer) (op : BufferOp) :
    (bufferCall buf op).contents = queueOp buf.contents op := by
  cases op with
  | append bs => exact bufferAppend_contents buf bs
  | appendChar c => exact bufferAppendByte_contents buf c
  | appendByte b => exact bufferAppendByte_contents buf b
  | shift n =>
    rw [bufferCall, bufferShift_contents, queueOp]
    rcases Nat.le_total n buf.contents.length with h | h
    · rw [Nat.min_eq_left h]
    · rw [Nat.min_eq_right h, List.drop_eq_nil_of_le h, List.drop_length]
  | clear => rfl

/-- So do several. -/
theorem bufferCalls_contents (buf : Buffer) (ops : List BufferOp) :
    (ops.foldl bufferCall buf).contents = ops.foldl queueOp buf.contents := by
  induction ops generalizing buf with
  | nil => rfl
  | cons op ops ih => rw [List.foldl_cons, List.foldl_cons, ih, bufferCall_contents]

/-- The number of bytes that a call appends. -/
def BufferOp.appended : BufferOp → ℕ
  | .append bs => bs.length
  | .appendChar _ | .appendByte _ => 1
  | .shift _ | .clear => 0

/-- The size of the block that a call takes from the arena: the new capacity, if it is a larger
one. -/
def taken (buf : Buffer) (op : BufferOp) : ℕ :=
  if appendCap buf op.appended > buf.cap then appendCap buf op.appended else 0

/-- The sizes of all blocks that calls take. -/
def takenBy : Buffer → List BufferOp → ℕ
  | _, [] => 0
  | buf, op :: ops => taken buf op + takenBy (bufferCall buf op) ops

/-- The memory of an arena suffices for a buffer and the calls on it. -/
def Suffices (a : ArenaMem) (cap : ℕ) (ops : List BufferOp) : Prop :=
  a.pos + (bufferNew cap).cap + takenBy (bufferNew cap) ops ≤ a.cap

/-! ## The state -/

/-- What holds of an arena. -/
structure ArenaMem.Valid (a : ArenaMem) : Prop where
  /-- `ArenaAlloc` never goes beyond the end. -/
  pos_le : a.pos ≤ a.cap
  /-- The memory has the size that `cap` says. -/
  length : a.bs.length = a.cap
  /-- `cap` is a `u32`. -/
  cap_lt : a.cap < 2 ^ 64

/-- The struct is a buffer in the arena with these bytes in use. -/
structure BufferHolds (a : ArenaMem) (buf : BufferStruct) (queue : List UInt8) : Prop where
  /-- The arena is one. -/
  valid : a.Valid
  /-- The buffer can grow. -/
  arena : buf.arena = true
  /-- `len` is the number of bytes. -/
  len : buf.len = queue.length
  /-- What `BufferAppend` and `BufferShift` assert. -/
  len_le : buf.len ≤ buf.cap
  /-- The block has been handed out. -/
  inside : buf.bs + buf.cap ≤ a.pos
  /-- The bytes are the first ones of the block. -/
  bytes : (a.bs.drop buf.bs).take buf.len = queue

/-- The struct in the arena stands for a `Buffer`. -/
structure BufferAt (a : ArenaMem) (b : BufferStruct) (buf : Buffer) : Prop where
  /-- The bytes in use are the contents. -/
  holds : BufferHolds a b buf.contents
  /-- The capacity is the same. -/
  cap : b.cap = buf.cap

theorem wrapU32_of_lt {n : ℕ} (h : n < 2 ^ 64) : wrapU32 n = n := Nat.mod_eq_of_lt h

theorem subU32_of_le {m n : ℕ} (h : n ≤ m) (hm : m < 2 ^ 64) : subU32 m n = m - n := by
  rw [subU32, wrapU32]
  omega

section Calls

variable {a : ArenaMem} {b : BufferStruct} {buf : Buffer} {queue bs : List UInt8} {fuel : ℕ}

/-- A block that fits is handed out. -/
theorem arenaAllocMem_ok {size : ℕ} (ha : a.Valid) (hroom : a.pos + size ≤ a.cap) :
    arenaAllocMem a size = .ok ({ a with pos := a.pos + size }, a.pos) := by
  have hsum : wrapU32 (a.pos + size) = a.pos + size :=
    wrapU32_of_lt (hroom.trans_lt ha.cap_lt)
  rw [arenaAllocMem, hsum, if_neg (not_lt.mpr hroom)]

/-- The doubling loop ends after as many rounds as it takes. -/
theorem growLoop_eq {bslen len newcap j : ℕ} (hlen : len ≤ newcap)
    (hfull : ∀ i < j, newcap * 2 ^ i < len + bslen) (hroom : len + bslen ≤ newcap * 2 ^ j)
    (hlt : newcap * 2 ^ j < 2 ^ 64) (hfuel : j < fuel) :
    growLoop bslen len fuel newcap = .ok (newcap * 2 ^ j) := by
  have hle : newcap ≤ newcap * 2 ^ j := Nat.le_mul_of_pos_right _ (Nat.two_pow_pos j)
  induction j generalizing newcap fuel with
  | zero =>
    obtain ⟨fuel, rfl⟩ := Nat.exists_eq_succ_of_ne_zero (Nat.ne_zero_of_lt hfuel)
    rw [pow_zero, Nat.mul_one] at hroom ⊢
    rw [growLoop, subU32_of_le hlen (by omega), if_neg (by omega)]
  | succ j ih =>
    obtain ⟨fuel, rfl⟩ := Nat.exists_eq_succ_of_ne_zero (Nat.ne_zero_of_lt hfuel)
    have hdouble : newcap * 2 * 2 ^ j = newcap * 2 ^ (j + 1) := by rw [pow_succ', Nat.mul_assoc]
    have hgrow := hfull 0 (Nat.succ_pos j)
    have hnext : newcap * 2 ≤ newcap * 2 * 2 ^ j :=
      Nat.le_mul_of_pos_right _ (Nat.two_pow_pos j)
    rw [pow_zero, Nat.mul_one] at hgrow
    rw [growLoop, subU32_of_le hlen (by omega), if_pos (by omega), wrapU32_of_lt (by omega),
      ih (by omega) ?_ (by omega) (by omega) (by omega) hnext, hdouble]
    intro i hi
    rw [Nat.mul_assoc, ← pow_succ']
    exact hfull (i + 1) (Nat.succ_lt_succ hi)

/-- The capacity that `BufferAppend` settles on is found within 64 rounds. -/
theorem growLoop_appendCap (hlt : appendCap buf bs.length < 2 ^ 64) (hfuel : 64 ≤ fuel) :
    growLoop bs.length buf.len fuel buf.cap = .ok (appendCap buf bs.length) := by
  obtain ⟨j, hcap, hfull⟩ := growCap_eq bs.length (buf.len + bs.length) buf.len_le_cap
  have hroom := len_add_le_appendCap buf bs.length
  rw [appendCap, hcap] at hroom hlt ⊢
  refine growLoop_eq buf.len_le_cap hfull hroom hlt ?_
  -- a capacity that is doubled 64 times is not a `u32` any more
  by_contra hmany
  have hpow : 2 ^ 64 ≤ 2 ^ j := Nat.pow_le_pow_right (by decide) (by omega)
  have hpos := Nat.mul_le_mul buf.cap_pos hpow
  omega

/-- A larger block with a copy of the old one holds the same bytes. -/
theorem BufferHolds.realloc (h : BufferHolds a b queue) {newcap : ℕ} (hcap : b.cap < newcap)
    (hroom : a.pos + newcap ≤ a.cap) :
    ∃ a', arenaReallocMem a b.bs b.cap newcap = .ok (a', a.pos) ∧
      BufferHolds a' { b with bs := a.pos, cap := newcap } queue ∧ a'.pos = a.pos + newcap ∧
        a'.cap = a.cap := by
  have hsize := h.valid.length
  have hpos := h.valid.pos_le
  have hin := h.inside
  have hle := h.len_le
  have hold : ((a.bs.drop b.bs).take b.cap).length = b.cap := by
    rw [List.length_take, List.length_drop]
    omega
  refine ⟨⟨overwrite a.bs a.pos ((a.bs.drop b.bs).take b.cap), a.pos + newcap, a.cap⟩, ?_, ?_, rfl,
    rfl⟩
  · rw [arenaReallocMem, arenaAllocMem_ok h.valid hroom, ok_bind]
  refine ⟨⟨hroom, ?_, h.valid.cap_lt⟩, h.arena, h.len, hle.trans hcap.le, le_rfl, ?_⟩
  · change (overwrite a.bs a.pos ((a.bs.drop b.bs).take b.cap)).length = a.cap
    rw [length_overwrite (by omega), hsize]
  · change ((overwrite a.bs a.pos ((a.bs.drop b.bs).take b.cap)).drop a.pos).take b.len = queue
    rw [drop_overwrite _ (by omega), List.take_append_of_le_length (by omega), List.take_take,
      Nat.min_eq_left hle, h.bytes]

/-- Bytes that fit are stored behind those in use. -/
theorem BufferHolds.store (h : BufferHolds a b queue) (hfits : b.len + bs.length ≤ b.cap) :
    BufferHolds { a with bs := overwrite a.bs (b.bs + b.len) bs }
      { b with len := wrapU32 (b.len + bs.length) } (queue ++ bs) := by
  have hsize := h.valid.length
  have hpos := h.valid.pos_le
  have hin := h.inside
  have hlt := h.valid.cap_lt
  have hsum : wrapU32 (b.len + bs.length) = b.len + bs.length := wrapU32_of_lt (by omega)
  refine ⟨⟨hpos, ?_, hlt⟩, h.arena, ?_, ?_, hin, ?_⟩
  · change (overwrite a.bs (b.bs + b.len) bs).length = a.cap
    rw [length_overwrite (by omega), hsize]
  · change wrapU32 (b.len + bs.length) = _
    rw [hsum, List.length_append, h.len]
  · change wrapU32 (b.len + bs.length) ≤ b.cap
    rw [hsum]
    exact hfits
  · change ((overwrite a.bs (b.bs + b.len) bs).drop b.bs).take (wrapU32 (b.len + bs.length)) = _
    rw [hsum, drop_overwrite_add (by omega),
      take_overwrite_add bs (by rw [List.length_drop]; omega), h.bytes]

/-- The rest of the bytes is moved to the front of the block. -/
theorem BufferHolds.shift (h : BufferHolds a b queue) (n : ℕ) :
    ∃ a' b', bufferShiftMem a b n = .ok (a', b') ∧
      BufferHolds a' b' (queue.drop n) ∧ b'.cap = b.cap ∧ a'.pos = a.pos ∧ a'.cap = a.cap := by
  have hsize := h.valid.length
  have hpos := h.valid.pos_le
  have hin := h.inside
  have hle := h.len_le
  have hlt := h.valid.cap_lt
  obtain ⟨k, hk⟩ : ∃ k, k = if n > b.len then b.len else n := ⟨_, rfl⟩
  have hkle : k ≤ b.len := by
    rw [hk]
    split <;> omega
  have hdrop : queue.drop n = queue.drop k := by
    rw [hk]
    split
    · rw [List.drop_eq_nil_of_le (by rw [← h.len]; omega),
        List.drop_eq_nil_of_le (by rw [← h.len])]
    · rfl
  obtain ⟨moved, hmoved⟩ :
      ∃ moved, moved = overwrite a.bs b.bs ((a.bs.drop (b.bs + k)).take (b.len - k)) := ⟨_, rfl⟩
  have hrest : ((a.bs.drop (b.bs + k)).take (b.len - k)).length = b.len - k := by
    rw [List.length_take, List.length_drop]
    omega
  have hmsize : moved.length = a.bs.length := by
    rw [hmoved]
    exact length_overwrite (by omega)
  refine ⟨⟨overwrite moved (b.bs + (b.len - k)) (List.replicate (b.cap - (b.len - k)) 0), a.pos,
    a.cap⟩, ⟨b.arena, b.bs, b.len - k, b.cap⟩, ?_, ?_, rfl, rfl, rfl⟩
  · unfold bufferShiftMem
    simp only [← hk]
    rw [if_neg (not_not.mpr hle), subU32_of_le hkle (by omega), subU32_of_le (by omega) (by omega),
      hmoved]
  refine ⟨⟨hpos, ?_, hlt⟩, h.arena, ?_, ?_, hin, ?_⟩
  · change (overwrite moved _ _).length = a.cap
    rw [length_overwrite (by rw [List.length_replicate]; omega), hmsize, hsize]
  · change b.len - k = (queue.drop n).length
    rw [hdrop, List.length_drop, h.len]
  · change b.len - k ≤ b.cap
    omega
  · change ((overwrite moved (b.bs + (b.len - k)) _).drop b.bs).take (b.len - k) = queue.drop n
    rw [drop_overwrite_add (by omega),
      take_overwrite_of_le le_rfl (by rw [List.length_drop]; omega), hmoved,
      drop_overwrite _ (by omega), List.take_append_of_le_length hrest.ge, List.take_take,
      Nat.min_self, hdrop, ← h.bytes, List.drop_take, List.drop_drop]

/-- Clearing leaves no bytes. -/
theorem BufferHolds.clear (h : BufferHolds a b queue) :
    BufferHolds (bufferClearMem a b).1 (bufferClearMem a b).2 [] := by
  have hsize := h.valid.length
  have hpos := h.valid.pos_le
  have hin := h.inside
  have hle := h.len_le
  refine ⟨⟨hpos, ?_, h.valid.cap_lt⟩, h.arena, rfl, Nat.zero_le _, hin, List.take_zero⟩
  change (overwrite a.bs b.bs (List.replicate b.len 0)).length = a.cap
  rw [length_overwrite (by rw [List.length_replicate]; omega), hsize]

/-! ## The calls -/

/-- A new buffer has a block and no bytes. -/
theorem bufferNewMem_ok (ha : a.Valid) {cap : ℕ} (hroom : a.pos + (bufferNew cap).cap ≤ a.cap) :
    ∃ a' b, bufferNewMem a cap = .ok (a', b) ∧ BufferAt a' b (bufferNew cap) ∧
      a'.pos = a.pos + (bufferNew cap).cap ∧ a'.cap = a.cap := by
  refine ⟨⟨a.bs, a.pos + (bufferNew cap).cap, a.cap⟩, ⟨true, a.pos, 0, (bufferNew cap).cap⟩, ?_,
    ?_, rfl, rfl⟩
  · have halloc := arenaAllocMem_ok ha hroom
    rw [bufferNewMem]
    change (arenaAllocMem a (bufferNew cap).cap >>= _) = _
    rw [halloc, ok_bind]
    rfl
  · refine ⟨⟨⟨hroom, ha.length, ha.cap_lt⟩, rfl, rfl, Nat.zero_le _, le_rfl, ?_⟩, rfl⟩
    exact List.take_zero

/-- The block is as large as the new capacity, if there is room for a larger one. -/
theorem BufferHolds.grow (h : BufferHolds a b queue) {newcap : ℕ} (hcap : b.cap ≤ newcap)
    (hroom : a.pos + (if newcap > b.cap then newcap else 0) ≤ a.cap) :
    ∃ a' b', bufferGrowMem a b newcap = .ok (a', b') ∧ BufferHolds a' b' queue ∧ b'.cap = newcap ∧
      a'.pos = a.pos + (if newcap > b.cap then newcap else 0) ∧ a'.cap = a.cap := by
  rw [bufferGrowMem]
  by_cases hlarger : newcap > b.cap
  · rw [if_pos hlarger] at hroom ⊢
    obtain ⟨a', hrealloc, hholds, hpos, hsize⟩ := h.realloc hlarger hroom
    refine ⟨a', _, ?_, hholds, rfl, ?_, hsize⟩
    · rw [if_neg (not_not.mpr h.arena), hrealloc, ok_bind]
    · rw [if_pos hlarger, hpos]
  · rw [if_neg hlarger] at hroom ⊢
    refine ⟨a, b, rfl, h, ?_, ?_, rfl⟩
    · omega
    · rw [if_neg hlarger, Nat.add_zero]

/-- `BufferAppend` appends, if there is room for the block that it takes. -/
theorem bufferAppendMem_ok (h : BufferAt a b buf) (hfuel : 64 ≤ fuel)
    (hroom : a.pos + taken buf (.append bs) ≤ a.cap) :
    ∃ a' b', bufferAppendMem fuel a b bs = .ok (a', b') ∧ BufferAt a' b' (bufferAppend buf bs) ∧
      a'.pos = a.pos + taken buf (.append bs) ∧ a'.cap = a.cap := by
  have htaken : taken buf (.append bs) =
      if appendCap buf bs.length > b.cap then appendCap buf bs.length else 0 := by
    rw [h.cap]
    rfl
  have hlen : b.len = buf.len := h.holds.len.trans buf.length_contents
  have hfits := len_add_le_appendCap buf bs.length
  have hmore := cap_le_appendCap buf bs.length
  have hu32 : appendCap buf bs.length < 2 ^ 64 := by
    have hlt := h.holds.valid.cap_lt
    have hpos := h.holds.valid.pos_le
    have hin := h.holds.inside
    rw [htaken] at hroom
    split at hroom <;> omega
  rw [htaken] at hroom ⊢
  obtain ⟨a', b', hgrow, hholds, hcap, hpos, hsize⟩ :=
    h.holds.grow (h.cap.trans_le hmore) hroom
  have hroom' : b'.len + bs.length ≤ b'.cap := by
    rw [hholds.len, buf.length_contents, hcap]
    exact hfits
  have hstore := hholds.store hroom'
  rw [← bufferAppend_contents] at hstore
  refine ⟨_, _, ?_, ⟨hstore, hcap⟩, hpos, hsize⟩
  have hloop : growLoop bs.length buf.len fuel buf.cap = .ok (appendCap buf bs.length) :=
    growLoop_appendCap hu32 hfuel
  have hlast : bs.length ≤ subU32 b'.cap b'.len := by
    rw [subU32_of_le hholds.len_le (by omega), hholds.len, buf.length_contents]
    omega
  rw [← hlen, ← h.cap] at hloop
  rw [bufferAppendMem, if_neg (not_not.mpr h.holds.len_le), hloop, ok_bind, hgrow, ok_bind]
  exact if_neg (not_not.mpr hlast)

/-- A call comes back, if there is room for the block that it takes, and the struct stands for the
`Buffer` after the call. -/
theorem bufferOp_ok (h : BufferAt a b buf) (hfuel : 64 ≤ fuel) (op : BufferOp)
    (hroom : a.pos + taken buf op ≤ a.cap) :
    ∃ a' b', bufferOp fuel (a, b) op = .ok (a', b') ∧ BufferAt a' b' (bufferCall buf op) ∧
      a'.pos = a.pos + taken buf op ∧ a'.cap = a.cap := by
  have hnothing : appendCap buf 0 = buf.cap := by
    have hiff := appendCap_le_iff buf 0 0
    rw [pow_zero, Nat.mul_one, Nat.add_zero] at hiff
    exact le_antisymm (hiff.mpr buf.len_le_cap) (cap_le_appendCap buf 0)
  have htaken : ∀ op : BufferOp, op.appended = 0 → taken buf op = 0 := by
    intro op hop
    rw [taken, hop, hnothing, if_neg (lt_irrefl _)]
  cases op with
  | append bs => exact bufferAppendMem_ok h hfuel hroom
  | appendChar c => exact bufferAppendMem_ok h hfuel hroom
  | appendByte c => exact bufferAppendMem_ok h hfuel hroom
  | shift n =>
    obtain ⟨a', b', hshift, hholds, hcap, hpos, hsize⟩ := h.holds.shift n
    rw [htaken _ rfl, Nat.add_zero]
    exact ⟨a', b', hshift, ⟨(bufferShift_contents buf n).symm ▸ hholds, hcap.trans h.cap⟩, hpos,
      hsize⟩
  | clear =>
    rw [htaken _ rfl, Nat.add_zero]
    exact ⟨_, _, rfl, ⟨h.holds.clear, h.cap⟩, rfl, rfl⟩

/-- So do several. -/
theorem run_bufferOp_ok (h : BufferAt a b buf) (hfuel : 64 ≤ fuel) (ops : List BufferOp)
    (hroom : a.pos + takenBy buf ops ≤ a.cap) :
    ∃ a' b', run (bufferOp fuel) (a, b) ops = .ok (a', b') ∧
      BufferAt a' b' (ops.foldl bufferCall buf) := by
  induction ops generalizing a b buf with
  | nil => exact ⟨a, b, rfl, h⟩
  | cons op ops ih =>
    rw [takenBy] at hroom
    obtain ⟨a₁, b₁, hop, hat, hpos, hcap⟩ := bufferOp_ok h hfuel op (by omega)
    obtain ⟨a₂, b₂, hrun, hat₂⟩ := ih hat (by omega)
    exact ⟨a₂, b₂, by rw [run_cons, hop, ok_bind, hrun], hat₂⟩

/-- The first calls take no more than all. -/
theorem takenBy_le {ops fs : List BufferOp} (hfs : fs <+: ops) (buf : Buffer) :
    takenBy buf fs ≤ takenBy buf ops := by
  induction fs generalizing buf ops with
  | nil => exact Nat.zero_le _
  | cons op fs ih =>
    obtain ⟨rest, rfl⟩ := hfs
    exact Nat.add_le_add_left (ih (List.prefix_append fs rest) _) _

end Calls

/-! ## Buffers are queues -/

/-- A new buffer and any calls on it, in an arena whose memory suffices: after each call the
doubling loop has ended, within 64 rounds, no assertion has failed, `len` is at most `cap`, and the
bytes in use are those of the queue. -/
theorem buffer_refines_queue (a : ArenaMem) (cap fuel : ℕ) (ops : List BufferOp) (ha : a.Valid)
    (hmem : Suffices a cap ops) (hfuel : 64 ≤ fuel) :
    ∀ fs, fs <+: ops → ∃ a' buf, runBuffer fuel a cap fs = .ok (a', buf) ∧ buf.len ≤ buf.cap ∧
      (a'.bs.drop buf.bs).take buf.len = fs.foldl queueOp [] := by
  intro fs hfs
  have hless := takenBy_le hfs (bufferNew cap)
  rw [Suffices] at hmem
  have hroom : a.pos + (bufferNew cap).cap ≤ a.cap := by omega
  obtain ⟨a₁, b₁, hnew, hat, hpos, hcap⟩ := bufferNewMem_ok ha hroom
  obtain ⟨a₂, b₂, hrun, hat₂⟩ := run_bufferOp_ok hat hfuel fs (by omega)
  refine ⟨a₂, b₂, by rw [runBuffer, hnew, ok_bind, hrun], hat₂.holds.len_le, ?_⟩
  rw [hat₂.holds.bytes, bufferCalls_contents, bufferNew_contents]

/-- A buffer of two bytes in an arena of 64, which grows to eight. -/
theorem buffer_refines_queue_grown :
    ∃ a' buf, runBuffer 64 ⟨List.replicate 64 0, 0, 64⟩ 2
        [.append [1, 2, 3], .shift 2, .append [4, 5, 6, 7], .appendByte 8] = .ok (a', buf) ∧
      buf.len ≤ buf.cap ∧ (a'.bs.drop buf.bs).take buf.len = [3, 4, 5, 6, 7, 8] := by
  refine buffer_refines_queue _ 2 64
    [.append [1, 2, 3], .shift 2, .append [4, 5, 6, 7], .appendByte 8, .clear] ?_ ?_ le_rfl _
    (List.prefix_append _ [BufferOp.clear])
  · exact ⟨by decide, List.length_replicate, by decide⟩
  · rw [Suffices]
    decide

end TinyMsg
