import TinyMsg.Lib.Block
import TinyMsg.Lib.Run

/-!
# `Buffer` of `clib.c`

A `Buffer` is a block of `cap` bytes in an arena of which the first `len` are in use.  The
conditions that `BufferAppend` and `BufferShift` assert on entry, `len <= cap`, and the size of the
block are fields of the structure, so every value of the type satisfies them.  Arena memory is
taken to suffice: the `abort()` in `ArenaAlloc` is not modelled here.  Cells that the C code leaves
as the arena hands them out are zero in the model; no function below reads them.

The queue of bytes that a buffer stands for is `Buffer.contents`; each operation comes with the
lemma that says what it does to the contents.
-/

namespace TinyMsg

/-- Why a call does not come back: an `assert()` of the program failed, the call has no meaning in
C, or the answers given for the system calls are not ones the kernel gives. -/
inductive Fault
  /-- An `assert()` failed and the process aborts. -/
  | assertion
  /-- A `va_arg` asks for an argument that was not passed, or an `fd_set` is used at a descriptor
  that it has no room for. -/
  | undefined
  /-- The kernel handed out a descriptor it cannot hand out. -/
  | kernel
  deriving DecidableEq, Repr

/-- Computations that may stop at an `assert()`. -/
abbrev Exec (α : Type) := Except Fault α

/-- `Buffer` of `clib.h`: a block of `cap` bytes whose first `len` bytes are in use. -/
structure Buffer where
  /-- The block at `bs`. -/
  bs : List UInt8
  /-- The number of bytes in use. -/
  len : ℕ
  /-- The size of the block. -/
  cap : ℕ
  /-- The condition asserted by `BufferAppend` and `BufferShift`. -/
  len_le_cap : len ≤ cap
  /-- `BufferNew` never makes an empty block. -/
  cap_pos : 0 < cap
  /-- The block has the size that `cap` says. -/
  bs_length : bs.length = cap
  deriving DecidableEq

namespace Buffer

/-- The bytes in use. -/
def contents (buf : Buffer) : List UInt8 := buf.bs.take buf.len

@[simp] theorem length_contents (buf : Buffer) : buf.contents.length = buf.len := by
  rw [contents, List.length_take, buf.bs_length, Nat.min_eq_left buf.len_le_cap]

/-- A buffer is empty exactly when it has no contents. -/
theorem contents_eq_nil_iff (buf : Buffer) : buf.contents = [] ↔ buf.len = 0 := by
  rw [← List.length_eq_zero_iff, length_contents]

end Buffer

/-- `BufferNew`: a capacity of `0` stands for `1024`. -/
def bufferNew (cap : ℕ) : Buffer where
  bs := List.replicate (if cap = 0 then 1024 else cap) 0
  len := 0
  cap := if cap = 0 then 1024 else cap
  len_le_cap := Nat.zero_le _
  cap_pos := by split <;> omega
  bs_length := List.length_replicate

@[simp] theorem bufferNew_contents (cap : ℕ) : (bufferNew cap).contents = [] := rfl

@[simp] theorem bufferNew_len (cap : ℕ) : (bufferNew cap).len = 0 := rfl

/-- The loop of `BufferAppend` that doubles `newcap` while `bslen > newcap - len`, run for at most
`fuel` rounds. -/
def growCap (bslen len : ℕ) : ℕ → ℕ → ℕ
  | 0, newcap => newcap
  | fuel + 1, newcap =>
    if bslen > newcap - len then growCap bslen len fuel (newcap * 2) else newcap

/-- The doubling loop never shrinks the capacity. -/
theorem le_growCap (bslen len fuel newcap : ℕ) : newcap ≤ growCap bslen len fuel newcap := by
  induction fuel generalizing newcap with
  | zero => exact le_rfl
  | succ fuel ih =>
    rw [growCap]
    split
    · exact le_trans (by omega) (ih (newcap * 2))
    · exact le_rfl

/-- With enough rounds the doubling loop ends with room for `bslen` more bytes. -/
theorem growCap_room {bslen len fuel newcap : ℕ} (hlen : len ≤ newcap)
    (hfuel : len + bslen ≤ newcap * 2 ^ fuel) :
    len + bslen ≤ growCap bslen len fuel newcap := by
  induction fuel generalizing newcap with
  | zero => simpa [growCap] using hfuel
  | succ fuel ih =>
    rw [growCap]
    split
    · refine ih (by omega) ?_
      rwa [Nat.mul_assoc, ← pow_succ']
    · omega

/-- The capacity `BufferAppend` settles on.  `len + bslen` rounds are enough for the loop, since
the capacity is positive and doubles in each. -/
def appendCap (buf : Buffer) (bslen : ℕ) : ℕ :=
  growCap bslen buf.len (buf.len + bslen) buf.cap

/-- The condition asserted after the doubling loop: the bytes fit. -/
theorem len_add_le_appendCap (buf : Buffer) (bslen : ℕ) :
    buf.len + bslen ≤ appendCap buf bslen := by
  refine growCap_room buf.len_le_cap ?_
  calc buf.len + bslen ≤ 2 ^ (buf.len + bslen) := Nat.lt_two_pow_self.le
    _ ≤ buf.cap * 2 ^ (buf.len + bslen) := Nat.le_mul_of_pos_left _ buf.cap_pos

/-- The capacity never shrinks. -/
theorem cap_le_appendCap (buf : Buffer) (bslen : ℕ) : buf.cap ≤ appendCap buf bslen :=
  le_growCap _ _ _ _

/-- `BufferAppend`: grow the block by doubling if needed, then copy the bytes behind those in
use. -/
def bufferAppend (buf : Buffer) (bs : List UInt8) : Buffer where
  bs := overwrite (buf.bs ++ List.replicate (appendCap buf bs.length - buf.cap) 0) buf.len bs
  len := buf.len + bs.length
  cap := appendCap buf bs.length
  len_le_cap := len_add_le_appendCap buf bs.length
  cap_pos := lt_of_lt_of_le buf.cap_pos (cap_le_appendCap buf bs.length)
  bs_length := by
    have hcap := cap_le_appendCap buf bs.length
    have hroom := len_add_le_appendCap buf bs.length
    have hlen : (buf.bs ++ List.replicate (appendCap buf bs.length - buf.cap) 0).length =
        appendCap buf bs.length := by
      rw [List.length_append, List.length_replicate, buf.bs_length]
      omega
    rw [length_overwrite (by omega), hlen]

/-- Appending adds the bytes at the end of the queue. -/
@[simp] theorem bufferAppend_contents (buf : Buffer) (bs : List UInt8) :
    (bufferAppend buf bs).contents = buf.contents ++ bs := by
  have hlen : buf.len ≤ buf.bs.length := by rw [buf.bs_length]; exact buf.len_le_cap
  change (overwrite _ buf.len bs).take (buf.len + bs.length) = _
  rw [take_overwrite_add bs (by rw [List.length_append]; omega),
    List.take_append_of_le_length hlen]
  rfl

@[simp] theorem bufferAppend_len (buf : Buffer) (bs : List UInt8) :
    (bufferAppend buf bs).len = buf.len + bs.length := rfl

/-- `BufferAppendByte`, and `BufferAppendChar`, which stores the same byte. -/
def bufferAppendByte (buf : Buffer) (b : UInt8) : Buffer := bufferAppend buf [b]

@[simp] theorem bufferAppendByte_contents (buf : Buffer) (b : UInt8) :
    (bufferAppendByte buf b).contents = buf.contents ++ [b] := bufferAppend_contents buf [b]

/-- `BufferShift`: drop the first `n` bytes (all of them when there are fewer), moving the rest to
the front and clearing the block behind it.  The move is the one `memmove` makes. -/
def bufferShift (buf : Buffer) (n : ℕ) : Buffer where
  bs :=
    let k := min n buf.len
    let moved := overwrite buf.bs 0 ((buf.bs.drop k).take (buf.len - k))
    overwrite moved (buf.len - k) (List.replicate (buf.cap - (buf.len - k)) 0)
  len := buf.len - min n buf.len
  cap := buf.cap
  len_le_cap := le_trans (Nat.sub_le _ _) buf.len_le_cap
  cap_pos := buf.cap_pos
  bs_length := by
    have hbs := buf.bs_length
    have hcap := buf.len_le_cap
    rw [length_overwrite, length_overwrite]
    · exact hbs
    · rw [List.length_take, List.length_drop]; omega
    · rw [length_overwrite, List.length_replicate]
      · omega
      · rw [List.length_take, List.length_drop]; omega

/-- Shifting drops bytes at the front of the queue. -/
@[simp] theorem bufferShift_contents (buf : Buffer) (n : ℕ) :
    (bufferShift buf n).contents = buf.contents.drop n := by
  have hbs := buf.bs_length
  have hcap := buf.len_le_cap
  obtain ⟨k, hk⟩ : ∃ k, k = min n buf.len := ⟨_, rfl⟩
  have hmove : 0 + ((buf.bs.drop k).take (buf.len - k)).length = buf.len - k := by
    rw [List.length_take, List.length_drop]; omega
  have hfirst : (overwrite buf.bs 0 ((buf.bs.drop k).take (buf.len - k))).take (buf.len - k) =
      (buf.bs.drop k).take (buf.len - k) := by
    have h := take_overwrite_add ((buf.bs.drop k).take (buf.len - k))
      (Nat.zero_le buf.bs.length)
    rwa [hmove, List.take_zero, List.nil_append] at h
  have hdrop : buf.contents.drop n = buf.contents.drop k := by
    rcases Nat.le_total n buf.len with h | h
    · rw [hk, Nat.min_eq_left h]
    · rw [hk, Nat.min_eq_right h, List.drop_eq_nil_of_le (by rw [Buffer.length_contents]; exact h),
        List.drop_eq_nil_of_le (by rw [Buffer.length_contents])]
  change (overwrite (overwrite buf.bs 0 ((buf.bs.drop (min n buf.len)).take
    (buf.len - min n buf.len))) (buf.len - min n buf.len) _).take (buf.len - min n buf.len) = _
  rw [← hk, take_overwrite_of_le le_rfl (by rw [length_overwrite (by omega)]; omega), hfirst,
    hdrop, Buffer.contents, List.drop_take]

@[simp] theorem bufferShift_len (buf : Buffer) (n : ℕ) :
    (bufferShift buf n).len = buf.len - n := by
  change buf.len - min n buf.len = _
  omega

/-- `BufferClear`: clear the bytes in use. -/
def bufferClear (buf : Buffer) : Buffer where
  bs := overwrite buf.bs 0 (List.replicate buf.len 0)
  len := 0
  cap := buf.cap
  len_le_cap := Nat.zero_le _
  cap_pos := buf.cap_pos
  bs_length := by
    rw [length_overwrite, buf.bs_length]
    rw [List.length_replicate, buf.bs_length, Nat.zero_add]
    exact buf.len_le_cap

@[simp] theorem bufferClear_contents (buf : Buffer) : (bufferClear buf).contents = [] := rfl

@[simp] theorem bufferClear_len (buf : Buffer) : (bufferClear buf).len = 0 := rfl

/-- A store through a pointer to the byte at `off`; a store that ends outside the block is not
made. -/
def bufferStore (buf : Buffer) (off : ℕ) (vals : List UInt8) : Buffer :=
  if h : off + vals.length ≤ buf.cap then
    { buf with
      bs := overwrite buf.bs off vals
      bs_length := by rw [length_overwrite (by rwa [buf.bs_length]), buf.bs_length] }
  else buf

/-- A store to bytes in use overwrites them in the queue. -/
theorem bufferStore_contents {buf : Buffer} {off : ℕ} {vals : List UInt8}
    (h : off + vals.length ≤ buf.len) :
    (bufferStore buf off vals).contents = overwrite buf.contents off vals := by
  have hcap := buf.len_le_cap
  have hbs := buf.bs_length
  rw [bufferStore, dif_pos (by omega)]
  change (overwrite buf.bs off vals).take buf.len = overwrite (buf.bs.take buf.len) off vals
  rw [overwrite, overwrite, List.take_take, Nat.min_eq_left (by omega), List.take_append,
    List.length_append, List.length_take, Nat.min_eq_left (by omega),
    List.take_of_length_le (by rw [List.length_append, List.length_take]; omega), List.drop_take]

@[simp] theorem bufferStore_len (buf : Buffer) (off : ℕ) (vals : List UInt8) :
    (bufferStore buf off vals).len = buf.len := by
  rw [bufferStore]
  split <;> rfl

end TinyMsg
