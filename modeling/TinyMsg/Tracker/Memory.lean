import TinyMsg.Clib.Array
import TinyMsg.Clib.Buffer
import TinyMsg.Cnet.HostAddr

/-!
# The contexts of the tracker in their arena

`socketctx_arena` holds the blocks of the array `socketctxs` and of the buffers of its contexts.
The receive loop keeps pointers into these blocks while `handle_msg` may make the array grow, so
the arena is explicit: a block has the offset it was allocated at, growing an array or a buffer
allocates a new block, and the old block stays as it was.  A pointer to a context is the offset of
a block and an index (`CtxPtr`); when the array has moved it reads and writes the old block.

What an operation of `clib.c` does to the struct and the block it is handed is the operation of
`Clib/Buffer` and `Clib/Array`; here it is loaded from the arena and put back.  The capacity of the
arena is taken to suffice.
-/

namespace TinyMsg

/-! ## The blocks -/

/-- The struct `Buffer` of a context: its block is in the arena. -/
structure BufferRef where
  /-- The offset of the block. -/
  bs : ℕ
  /-- `len` -/
  len : ℕ
  /-- `cap` -/
  cap : ℕ
  /-- The condition asserted by `BufferAppend` and `BufferShift`. -/
  len_le_cap : len ≤ cap
  /-- `BufferNew` never makes an empty block. -/
  cap_pos : 0 < cap

/-- `SocketCtx` of `tmcommon.h`. -/
structure SocketCtx where
  /-- `fd` -/
  fd : ℕ
  /-- `fromaddr` -/
  fromaddr : HostAddr
  /-- `toaddr` -/
  toaddr : HostAddr
  /-- `readbuf` -/
  readbuf : BufferRef
  /-- `writebuf` -/
  writebuf : BufferRef
  /-- `msglen` -/
  msglen : ℕ
  /-- `shut_rd` -/
  shutRd : Bool

/-- A slot that holds no context; what its buffers are does not matter. -/
instance : Inhabited SocketCtx :=
  ⟨⟨0, 0, 0, ⟨0, 0, 1, by decide, by decide⟩, ⟨0, 0, 1, by decide, by decide⟩, 0, false⟩⟩

/-- `sizeof(SocketCtx)` -/
def socketCtxSize : ℕ := 96

/-- The struct `Array` of the contexts: its block is in the arena. -/
structure ArrayRef where
  /-- The offset of the block. -/
  items : ℕ
  /-- `len` -/
  len : ℕ
  /-- `cap` -/
  cap : ℕ
  /-- The condition asserted by `ArrayAppend`. -/
  len_le_cap : len ≤ cap
  /-- `cap` is a `u16`. -/
  cap_lt : cap < 2 ^ 16

/-- The arena: its blocks by their offsets. -/
structure Memory where
  /-- `pos` -/
  pos : ℕ
  /-- The blocks of buffers. -/
  bytes : ℕ → List UInt8
  /-- The blocks of the array of contexts. -/
  ctxs : ℕ → List SocketCtx

/-- `ArenaNew` -/
def memoryNew : Memory := ⟨0, fun _ => [], fun _ => []⟩

/-- A pointer to a context. -/
structure CtxPtr where
  /-- The offset of the block. -/
  block : ℕ
  /-- The slot. -/
  index : ℕ
  deriving DecidableEq

/-- Reading through a pointer. -/
def Memory.ctx (m : Memory) (p : CtxPtr) : SocketCtx := (m.ctxs p.block).getD p.index default

/-- Writing through a pointer. -/
def Memory.setCtx (m : Memory) (p : CtxPtr) (c : SocketCtx) : Memory :=
  { m with ctxs := Function.update m.ctxs p.block ((m.ctxs p.block).set p.index c) }

/-! ## Buffers -/

/-- The buffer that a struct stands for. -/
def Memory.buffer (m : Memory) (r : BufferRef) : Buffer where
  bs := (m.bytes r.bs).takeD r.cap 0
  len := r.len
  cap := r.cap
  len_le_cap := r.len_le_cap
  cap_pos := r.cap_pos
  bs_length := List.takeD_length _ _ _

/-- A buffer in a new block. -/
def Memory.allocBuffer (m : Memory) (buf : Buffer) : Memory × BufferRef :=
  ({ m with pos := m.pos + buf.cap, bytes := Function.update m.bytes m.pos buf.bs },
    ⟨m.pos, buf.len, buf.cap, buf.len_le_cap, buf.cap_pos⟩)

/-- `BufferNew` -/
def Memory.bufferNew (m : Memory) (cap : ℕ) : Memory × BufferRef :=
  m.allocBuffer (TinyMsg.bufferNew cap)

/-- What an operation left of the buffer `r` is put back: into its block, or, when the capacity
has grown, into a new one. -/
def Memory.putBuffer (m : Memory) (r : BufferRef) (buf : Buffer) : Memory × BufferRef :=
  if buf.cap = r.cap then
    ({ m with bytes := Function.update m.bytes r.bs buf.bs },
      ⟨r.bs, buf.len, buf.cap, buf.len_le_cap, buf.cap_pos⟩)
  else m.allocBuffer buf

/-- What is put back is what is loaded next. -/
@[simp] theorem Memory.buffer_putBuffer (m : Memory) (r : BufferRef) (buf : Buffer) :
    (m.putBuffer r buf).1.buffer (m.putBuffer r buf).2 = buf := by
  have hbs : buf.bs.takeD buf.cap 0 = buf.bs := by
    rw [List.takeD_eq_take _ buf.bs_length.ge, List.take_of_length_le buf.bs_length.le]
  unfold Memory.putBuffer Memory.allocBuffer
  split <;> simp [Memory.buffer, hbs]

@[simp] theorem Memory.putBuffer_len (m : Memory) (r : BufferRef) (buf : Buffer) :
    (m.putBuffer r buf).2.len = buf.len := by
  unfold Memory.putBuffer Memory.allocBuffer
  split <;> rfl

/-- Putting a buffer back leaves the contexts alone. -/
@[simp] theorem Memory.putBuffer_ctxs (m : Memory) (r : BufferRef) (buf : Buffer) :
    (m.putBuffer r buf).1.ctxs = m.ctxs := by
  unfold Memory.putBuffer Memory.allocBuffer
  split <;> rfl

theorem Memory.pos_le_putBuffer (m : Memory) (r : BufferRef) (buf : Buffer) :
    m.pos ≤ (m.putBuffer r buf).1.pos := by
  unfold Memory.putBuffer Memory.allocBuffer
  split
  · exact le_rfl
  · exact Nat.le_add_right _ _

/-! ## The array -/

/-- The array that a struct stands for. -/
def Memory.array (m : Memory) (a : ArrayRef) : Array SocketCtx where
  items := (m.ctxs a.items).takeD a.cap default
  len := a.len
  cap := a.cap
  len_le_cap := a.len_le_cap
  items_length := List.takeD_length _ _ _
  cap_lt := a.cap_lt

/-- An array in a new block. -/
def Memory.allocArray (m : Memory) (a : Array SocketCtx) : Memory × ArrayRef :=
  ({ m with
      pos := m.pos + socketCtxSize * a.cap
      ctxs := Function.update m.ctxs m.pos a.items },
    ⟨m.pos, a.len, a.cap, a.len_le_cap, a.cap_lt⟩)

/-- `ArrayNew` of contexts. -/
def Memory.arrayNew (m : Memory) (cap : UInt16) : Memory × ArrayRef :=
  m.allocArray (TinyMsg.arrayNew cap)

/-- What an operation left of the array `r` is put back: into its block, or, when the capacity has
grown, into a new one. -/
def Memory.putArray (m : Memory) (r : ArrayRef) (a : Array SocketCtx) : Memory × ArrayRef :=
  if a.cap = r.cap then
    ({ m with ctxs := Function.update m.ctxs r.items a.items },
      ⟨r.items, a.len, a.cap, a.len_le_cap, a.cap_lt⟩)
  else m.allocArray a

/-- The contexts, in order. -/
def Memory.list (m : Memory) (a : ArrayRef) : List SocketCtx := (m.array a).toList

@[simp] theorem Memory.length_list (m : Memory) (a : ArrayRef) : (m.list a).length = a.len :=
  Array.length_toList _

/-- What is put back is what is loaded next. -/
@[simp] theorem Memory.list_putArray (m : Memory) (r : ArrayRef) (a : Array SocketCtx) :
    (m.putArray r a).1.list (m.putArray r a).2 = a.toList := by
  have hitems : a.items.takeD a.cap default = a.items := by
    rw [List.takeD_eq_take _ a.items_length.ge, List.take_of_length_le a.items_length.le]
  unfold Memory.putArray Memory.allocArray Memory.list Memory.array Array.toList
  split <;> simp [hitems]

/-! ## The functions on contexts -/

/-- `SocketCtx_new`: the context is appended to the array; the pointer to it is returned. -/
def socketCtxNew (m : Memory) (ctxs : ArrayRef) (fd : ℕ) (fromaddr toaddr : HostAddr)
    (initReadbufSize initWritebufSize : ℕ) : Exec (Memory × ArrayRef × CtxPtr) := do
  let (m, readbuf) := m.bufferNew initReadbufSize
  let (m, writebuf) := m.bufferNew initWritebufSize
  let a ← arrayAppend (m.array ctxs) ⟨fd, fromaddr, toaddr, readbuf, writebuf, 0, false⟩
  let (m, ctxs) := m.putArray ctxs a
  if ctxs.len = 0 then .error .assertion
  else
    let retctx ← arrayItem (m.array ctxs) (ctxs.len - 1)
    if retctx.fd = fd then .ok (m, ctxs, ⟨ctxs.items, ctxs.len - 1⟩) else .error .assertion

/-- `SocketCtx_find_by_fd2` -/
def socketCtxFindByFd2 (m : Memory) (ctxs : ArrayRef) (fd : ℕ) : Exec (Option ℕ) :=
  arrayFind (m.array ctxs) fun c => c.fd = fd

/-- `SocketCtx_find_by_fd` -/
def socketCtxFindByFd (m : Memory) (ctxs : ArrayRef) (fd : ℕ) : Exec (Option CtxPtr) := do
  let found ← arrayFind (m.array ctxs) fun c => c.fd = fd
  .ok (found.map fun i => ⟨ctxs.items, i⟩)

/-- `SocketCtx_find_by_toaddr` -/
def socketCtxFindByToaddr (m : Memory) (ctxs : ArrayRef) (toaddr : HostAddr) :
    Exec (Option CtxPtr) := do
  let found ← arrayFind (m.array ctxs) fun c => c.toaddr = toaddr
  .ok (found.map fun i => ⟨ctxs.items, i⟩)

/-- `ArrayRemove` of the context with a descriptor, as in `SocketCtx_close_and_remove`; the index
`-1` removes nothing. -/
def socketCtxRemove (m : Memory) (ctxs : ArrayRef) (fd : ℕ) : Exec (Memory × ArrayRef) := do
  match ← socketCtxFindByFd2 m ctxs fd with
  | some index => .ok (m.putArray ctxs (arrayRemove (m.array ctxs) index))
  | none => .ok (m, ctxs)

/-! ## What the functions do -/

/-- The array has a block of the size that its struct says, below the arena's `pos`. -/
structure Memory.ArrayWF (m : Memory) (a : ArrayRef) : Prop where
  /-- The block was handed out. -/
  items_lt : a.items < m.pos
  /-- The block has the number of slots that `cap` says. -/
  block_length : (m.ctxs a.items).length = a.cap
  /-- `ArrayNew` never makes an empty block. -/
  cap_pos : 0 < a.cap

/-- A pointer to a context of the array, or into a block that the array has left. -/
structure Memory.Valid (m : Memory) (a : ArrayRef) (p : CtxPtr) : Prop where
  /-- The block was handed out. -/
  block_lt : p.block < m.pos
  /-- The slot is in the block. -/
  index_lt : p.index < (m.ctxs p.block).length
  /-- In the block of the array, the slot is in use. -/
  live : p.block = a.items → p.index < a.len

section Spec

variable {m m' : Memory} {a a' : ArrayRef} {p q : CtxPtr} {c : SocketCtx}

/-- The contexts are the first slots of the block. -/
theorem Memory.ArrayWF.list_eq (h : m.ArrayWF a) : m.list a = (m.ctxs a.items).take a.len := by
  change ((m.ctxs a.items).takeD a.cap default).take a.len = _
  rw [List.takeD_eq_take _ h.block_length.ge, List.take_of_length_le h.block_length.le]

/-- Reading through a pointer into the array. -/
theorem Memory.ArrayWF.ctx_live (h : m.ArrayWF a) (hp : p.block = a.items)
    (hi : p.index < (m.list a).length) : m.ctx p = (m.list a)[p.index] := by
  have hlen : p.index < (m.ctxs a.items).length := by
    rw [h.list_eq, List.length_take] at hi
    omega
  simp only [Memory.ctx, hp, List.getD_eq_getElem _ _ hlen, h.list_eq, List.getElem_take]

/-- The list of contexts depends on the block of the array only. -/
theorem Memory.list_congr (h : m'.ctxs a.items = m.ctxs a.items) : m'.list a = m.list a := by
  unfold Memory.list Memory.array
  simp only [h]

/-- What is written through a pointer is read through it. -/
theorem Memory.ctx_setCtx_self (h : p.index < (m.ctxs p.block).length) :
    (m.setCtx p c).ctx p = c := by
  simp [Memory.setCtx, Memory.ctx, h]

/-- Writing through a pointer to another slot does not show. -/
theorem Memory.ctx_setCtx_ne (h : q ≠ p) : (m.setCtx p c).ctx q = m.ctx q := by
  obtain ⟨b, i⟩ := p
  obtain ⟨b', j⟩ := q
  unfold Memory.setCtx Memory.ctx
  by_cases hb : b' = b
  · subst hb
    have hij : i ≠ j := fun hij => h (hij ▸ rfl)
    simp [List.getElem?_set_ne hij]
  · simp [Function.update_of_ne hb]

/-- Writing through a pointer changes no block in size. -/
@[simp] theorem Memory.length_setCtx (m : Memory) (p : CtxPtr) (c : SocketCtx) (b : ℕ) :
    ((m.setCtx p c).ctxs b).length = (m.ctxs b).length := by
  by_cases hb : b = p.block
  · subst hb
    simp [Memory.setCtx]
  · simp [Memory.setCtx, Function.update_of_ne hb]

@[simp] theorem Memory.setCtx_pos (m : Memory) (p : CtxPtr) (c : SocketCtx) :
    (m.setCtx p c).pos = m.pos := rfl

theorem Memory.ArrayWF.setCtx (h : m.ArrayWF a) (p : CtxPtr) (c : SocketCtx) :
    (m.setCtx p c).ArrayWF a :=
  ⟨h.items_lt, by rw [Memory.length_setCtx, h.block_length], h.cap_pos⟩

theorem Memory.Valid.setCtx (hq : m.Valid a q) (p : CtxPtr) (c : SocketCtx) :
    (m.setCtx p c).Valid a q :=
  ⟨hq.block_lt, by rw [Memory.length_setCtx]; exact hq.index_lt, hq.live⟩

/-- Writing through a pointer into the array changes the context at its index. -/
theorem Memory.ArrayWF.list_setCtx_live (h : m.ArrayWF a) (hp : p.block = a.items) :
    (m.setCtx p c).list a = (m.list a).set p.index c := by
  rw [(h.setCtx p c).list_eq, h.list_eq, ← List.take_set]
  simp [Memory.setCtx, hp]

/-- Writing through a pointer into a block that the array has left changes no context. -/
theorem Memory.list_setCtx_stale (hp : p.block ≠ a.items) : (m.setCtx p c).list a = m.list a :=
  Memory.list_congr (Function.update_of_ne (Ne.symm hp) _ _)

/-- `SocketCtx_find_by_fd` points to the first context with the descriptor. -/
theorem socketCtxFindByFd_eq (m : Memory) (a : ArrayRef) (fd : ℕ) :
    socketCtxFindByFd m a fd =
      .ok (((m.list a).findIdx? fun c => c.fd = fd).map fun i => ⟨a.items, i⟩) := by
  rw [socketCtxFindByFd, arrayFind_eq, ok_bind]
  rfl

/-- `SocketCtx_find_by_toaddr` points to the first context with the address. -/
theorem socketCtxFindByToaddr_eq (m : Memory) (a : ArrayRef) (toaddr : HostAddr) :
    socketCtxFindByToaddr m a toaddr =
      .ok (((m.list a).findIdx? fun c => c.toaddr = toaddr).map fun i => ⟨a.items, i⟩) := by
  rw [socketCtxFindByToaddr, arrayFind_eq, ok_bind]
  rfl

/-- The pointers of before point to what they pointed to. -/
def Memory.Keeps (m : Memory) (a : ArrayRef) (m' : Memory) (a' : ArrayRef) : Prop :=
  ∀ q, m.Valid a q → m'.Valid a' q ∧ m'.ctx q = m.ctx q

theorem Memory.Keeps.trans {m'' : Memory} {a'' : ArrayRef} (h : m.Keeps a m' a')
    (h' : m'.Keeps a' m'' a'') : m.Keeps a m'' a'' := fun q hq =>
  ⟨(h' q (h q hq).1).1, (h' q (h q hq).1).2.trans (h q hq).2⟩

/-- An allocation leaves the array in order. -/
theorem Memory.ArrayWF.of_ctxs (h : m.ArrayWF a) (hctxs : m'.ctxs = m.ctxs)
    (hpos : m.pos ≤ m'.pos) : m'.ArrayWF a :=
  ⟨h.items_lt.trans_le hpos, by rw [hctxs, h.block_length], h.cap_pos⟩

/-- An allocation leaves what pointers point to. -/
theorem Memory.keeps_of_ctxs (hctxs : m'.ctxs = m.ctxs) (hpos : m.pos ≤ m'.pos) :
    m.Keeps a m' a := fun q hq =>
  ⟨⟨hq.block_lt.trans_le hpos, by rw [hctxs]; exact hq.index_lt, hq.live⟩,
    by simp only [Memory.ctx, hctxs]⟩

/-- A longer array put back: it is in a block of its size, and what the pointers of before point
to is still there, wherever the array is now. -/
theorem Memory.ArrayWF.putArray (h : m.ArrayWF a) {arr : Array SocketCtx}
    (hext : m.list a <+: arr.toList) (hcap : a.cap ≤ arr.cap) :
    (m.putArray a arr).1.ArrayWF (m.putArray a arr).2 ∧
      m.Keeps a (m.putArray a arr).1 (m.putArray a arr).2 := by
  have hpos := h.cap_pos
  have hlen : a.len ≤ arr.len := by
    rw [← arr.length_toList, ← m.length_list]
    exact hext.length_le
  unfold Memory.putArray
  split
  case isTrue heq =>
    have hwf : Memory.ArrayWF { m with ctxs := Function.update m.ctxs a.items arr.items }
        ⟨a.items, arr.len, arr.cap, arr.len_le_cap, arr.cap_lt⟩ :=
      ⟨h.items_lt, by simp [arr.items_length], hpos.trans_le hcap⟩
    have hlist : Memory.list { m with ctxs := Function.update m.ctxs a.items arr.items }
        ⟨a.items, arr.len, arr.cap, arr.len_le_cap, arr.cap_lt⟩ = arr.toList := by
      rw [hwf.list_eq]
      simp [Array.toList]
    refine ⟨hwf, fun q hq => ?_⟩
    by_cases hb : q.block = a.items
    · have hi := hq.live hb
      have hidx : q.index < (m.list a).length := by rwa [m.length_list]
      have hcap' := arr.len_le_cap
      refine ⟨⟨hq.block_lt, by simp [hb, arr.items_length]; omega, fun _ => by
        change q.index < arr.len; omega⟩, ?_⟩
      -- the slots in use before are the same in the longer list
      rw [h.ctx_live hb hidx, hwf.ctx_live hb (by rw [hlist]; exact hidx.trans_le hext.length_le)]
      simp only [hlist]
      exact (hext.getElem hidx).symm
    · refine ⟨⟨hq.block_lt, by simpa [Function.update_of_ne hb] using hq.index_lt,
        fun hb' => absurd hb' hb⟩, ?_⟩
      simp [Memory.ctx, Function.update_of_ne hb]
  case isFalse hne =>
    have hlt : m.pos < m.pos + socketCtxSize * arr.cap :=
      Nat.lt_add_of_pos_right (Nat.mul_pos (by decide) (by omega))
    refine ⟨⟨hlt, by simp [Memory.allocArray, arr.items_length], hpos.trans_le hcap⟩,
      fun q hq => ?_⟩
    have hb : q.block ≠ m.pos := hq.block_lt.ne
    refine ⟨⟨hq.block_lt.trans hlt, ?_, fun hb' => absurd hb' hb⟩, ?_⟩
    · simpa [Memory.allocArray, Function.update_of_ne hb] using hq.index_lt
    · simp [Memory.allocArray, Memory.ctx, Function.update_of_ne hb]

/-- The array is where it was, or at the end of what was handed out. -/
theorem Memory.putArray_items (m : Memory) (a : ArrayRef) (arr : Array SocketCtx) :
    (m.putArray a arr).2.items = a.items ∨ (m.putArray a arr).2.items = m.pos := by
  unfold Memory.putArray
  split
  · exact Or.inl rfl
  · exact Or.inr rfl

/-- What `SocketCtx_new` does: the context is the last one of the array, the pointer points to it,
and what other pointers point to stays. -/
structure CtxAdded (m m' : Memory) (a a' : ArrayRef) (p : CtxPtr) (c : SocketCtx) : Prop where
  /-- The array is in order. -/
  array : m'.ArrayWF a'
  /-- The context is added at the end. -/
  list : m'.list a' = m.list a ++ [c]
  /-- The pointer is the one into the array at the last index. -/
  ptr : p = ⟨a'.items, a.len⟩
  /-- No pointer of before points to it. -/
  fresh : ¬ m.Valid a p
  /-- Other pointers still point to what they pointed to. -/
  keeps : m.Keeps a m' a'

/-- The context that `SocketCtx_new` appends. -/
def ctxNew (fd : ℕ) (fromaddr toaddr : HostAddr) (readbuf writebuf : BufferRef) : SocketCtx :=
  ⟨fd, fromaddr, toaddr, readbuf, writebuf, 0, false⟩

/-- `SocketCtx_new` appends the context to the array after it has allocated the buffers. -/
theorem socketCtxNew_eq (m : Memory) (a : ArrayRef) (fd : ℕ) (fromaddr toaddr : HostAddr)
    (nr nw : ℕ) :
    socketCtxNew m a fd fromaddr toaddr nr nw = (do
      let arr ← arrayAppend (((m.bufferNew nr).1.bufferNew nw).1.array a)
        (ctxNew fd fromaddr toaddr (m.bufferNew nr).2 ((m.bufferNew nr).1.bufferNew nw).2)
      let put := ((m.bufferNew nr).1.bufferNew nw).1.putArray a arr
      if put.2.len = 0 then .error .assertion
      else
        let retctx ← arrayItem (put.1.array put.2) (put.2.len - 1)
        if retctx.fd = fd then .ok (put.1, put.2, ⟨put.2.items, put.2.len - 1⟩)
        else .error .assertion) := rfl

/-- `SocketCtx_new` adds a context with empty buffers, unless the array is full and cannot grow. -/
theorem socketCtxNew_cases (h : m.ArrayWF a) (fd : ℕ) (fromaddr toaddr : HostAddr) (nr nw : ℕ) :
    (∃ m' a' p readbuf writebuf,
      socketCtxNew m a fd fromaddr toaddr nr nw = .ok (m', a', p) ∧
      readbuf.len = 0 ∧ writebuf.len = 0 ∧
      CtxAdded m m' a a' p (ctxNew fd fromaddr toaddr readbuf writebuf)) ∨
    (socketCtxNew m a fd fromaddr toaddr nr nw = .error .assertion ∧ a.len = a.cap ∧
      2 ^ 15 ≤ a.cap) := by
  obtain ⟨m₂, readbuf, writebuf, hbufs, hr, hw, hctxs, hpos⟩ : ∃ m₂ readbuf writebuf,
      (m₂, readbuf, writebuf) = (((m.bufferNew nr).1.bufferNew nw).1, (m.bufferNew nr).2,
        ((m.bufferNew nr).1.bufferNew nw).2) ∧
      readbuf.len = 0 ∧ writebuf.len = 0 ∧ m₂.ctxs = m.ctxs ∧ m.pos ≤ m₂.pos :=
    ⟨_, _, _, rfl, rfl, rfl, rfl, (Nat.le_add_right _ _).trans (Nat.le_add_right _ _)⟩
  have h₂ := h.of_ctxs hctxs hpos
  have hlist₂ : m₂.list a = m.list a := Memory.list_congr (by rw [hctxs])
  have hrun : socketCtxNew m a fd fromaddr toaddr nr nw = (do
      let arr ← arrayAppend (m₂.array a) (ctxNew fd fromaddr toaddr readbuf writebuf)
      let (m, a) := m₂.putArray a arr
      if a.len = 0 then .error .assertion
      else
        let retctx ← arrayItem (m.array a) (a.len - 1)
        if retctx.fd = fd then .ok (m, a, ⟨a.items, a.len - 1⟩) else .error .assertion) := by
    obtain ⟨rfl, rfl, rfl⟩ := hbufs
    rfl
  rw [hrun]
  rcases arrayAppend_cases (m₂.array a) (ctxNew fd fromaddr toaddr readbuf writebuf) with
    ⟨arr, harr⟩ | herr
  · left
    obtain ⟨htoList, hlen, hcap⟩ := arrayAppend_ok harr
    have hcap' : a.cap ≤ arr.cap := by
      have hcapEq : (m₂.array a).cap = a.cap := rfl
      omega
    obtain ⟨hwf, hkeep⟩ := h₂.putArray ⟨_, htoList.symm⟩ hcap'
    have hlist := m₂.list_putArray a arr
    have hitems := m₂.putArray_items a arr
    rw [harr, ok_bind]
    generalize m₂.putArray a arr = put at hwf hkeep hlist hitems
    obtain ⟨m₃, a₃⟩ := put
    replace hlist : m₃.list a₃ = m.list a ++ [ctxNew fd fromaddr toaddr readbuf writebuf] := by
      rw [hlist, htoList, ← hlist₂]
      rfl
    have hlen₃ : a₃.len = a.len + 1 := by
      rw [← m₃.length_list, hlist, List.length_append, m.length_list, List.length_singleton]
    have hlast : a.len < (m₃.array a₃).toList.length := by
      rw [Array.length_toList]
      change a.len < a₃.len
      omega
    have hitem : arrayItem (m₃.array a₃) a.len =
        .ok (ctxNew fd fromaddr toaddr readbuf writebuf) := by
      rw [arrayItem_eq hlast]
      refine congrArg _ ((List.getElem_eq_iff hlast).mpr ?_)
      change (m₃.list a₃)[a.len]? = _
      rw [hlist, ← m.length_list, List.getElem?_concat_length]
    refine ⟨m₃, a₃, ⟨a₃.items, a.len⟩, readbuf, writebuf, ?_, hr, hw, hwf, hlist, rfl, ?_,
      (Memory.keeps_of_ctxs hctxs hpos).trans hkeep⟩
    · simp only [hlen₃, Nat.add_sub_cancel, Nat.succ_ne_zero, if_false, hitem, ok_bind, ctxNew,
        if_true]
    · intro hvalid
      rcases hitems with hitems | hitems
      · exact lt_irrefl _ (hvalid.live hitems)
      · have hblock : a₃.items = m₂.pos := hitems
        exact absurd hvalid.block_lt (hblock ▸ hpos.not_gt)
  · right
    obtain ⟨hfull, hbound⟩ := (arrayAppend_error_iff _ _).mp herr
    exact ⟨by rw [herr]; rfl, hfull, hbound.resolve_left h.cap_pos.ne'⟩

/-- What `SocketCtx_new` leaves: the buffers are in new blocks, the context is the last one, and the
array moves only when it was full. -/
theorem socketCtxNew_ok {fd : ℕ} {fromaddr toaddr : HostAddr} {nr nw : ℕ}
    (h : socketCtxNew m a fd fromaddr toaddr nr nw = .ok (m', a', p)) :
    m'.list a' = m.list a ++ [ctxNew fd fromaddr toaddr (m.bufferNew nr).2
        ((m.bufferNew nr).1.bufferNew nw).2] ∧
      m'.bytes = ((m.bufferNew nr).1.bufferNew nw).1.bytes ∧
      ((m.bufferNew nr).1.bufferNew nw).1.pos ≤ m'.pos ∧
      a'.cap = (if a.len = a.cap then 2 * a.cap else a.cap) ∧
      (a'.cap = a.cap → a'.items = a.items) := by
  rw [socketCtxNew_eq] at h
  obtain ⟨arr, harr, h⟩ := bind_eq_ok.mp h
  obtain ⟨hlist, -, -⟩ := arrayAppend_ok harr
  have hcap := arrayAppend_cap harr
  generalize hput : ((m.bufferNew nr).1.bufferNew nw).1.putArray a arr = put at h
  obtain ⟨rfl, rfl⟩ : put.1 = m' ∧ put.2 = a' := by
    by_cases hzero : put.2.len = 0
    · rw [if_pos hzero] at h
      cases h
    · rw [if_neg hzero] at h
      obtain ⟨retctx, -, h⟩ := bind_eq_ok.mp h
      split at h
      · obtain ⟨hm, hrest⟩ := Prod.mk.inj (Except.ok.inj h)
        exact ⟨hm, (Prod.mk.inj hrest).1⟩
      · cases h
  rw [← hput, Memory.list_putArray, hlist]
  refine ⟨rfl, ?_, ?_, ?_, ?_⟩
  · unfold Memory.putArray
    split <;> rfl
  · unfold Memory.putArray
    split
    · exact le_rfl
    · exact Nat.le_add_right _ _
  · refine Eq.trans ?_ hcap
    unfold Memory.putArray
    split <;> rfl
  · unfold Memory.putArray
    intro heq
    split
    case isTrue => rfl
    case isFalse hne =>
      rw [if_neg hne] at heq
      exact absurd heq hne

/-- Removing the context with a descriptor leaves the others. -/
theorem socketCtxRemove_eq (h : m.ArrayWF a) (hnodup : ((m.list a).map SocketCtx.fd).Nodup)
    (fd : ℕ) :
    ∃ m' a', socketCtxRemove m a fd = .ok (m', a') ∧ m'.ArrayWF a' ∧
      (m'.list a' = (m.list a).filter fun c => c.fd ≠ fd) ∧ m'.bytes = m.bytes ∧
      m'.pos = m.pos := by
  have herase := eraseP_eq_filter hnodup fd
  rw [List.eraseP_eq_eraseIdx] at herase
  rw [← herase, socketCtxRemove, socketCtxFindByFd2, arrayFind_eq, ok_bind]
  simp only [Memory.list] at hnodup ⊢
  cases hi : (m.array a).toList.findIdx? fun c => c.fd = fd with
  | none => exact ⟨m, a, rfl, h, rfl, rfl, rfl⟩
  | some i =>
    have hcap : (arrayRemove (m.array a) i).cap = a.cap := by
      unfold arrayRemove
      split <;> rfl
    refine ⟨(m.putArray a (arrayRemove (m.array a) i)).1,
      (m.putArray a (arrayRemove (m.array a) i)).2, rfl, ?_, ?_, ?_, ?_⟩
    · unfold Memory.putArray
      rw [if_pos hcap]
      exact ⟨h.items_lt, by simp [(arrayRemove (m.array a) i).items_length],
        h.cap_pos.trans_eq hcap.symm⟩
    · exact (m.list_putArray _ _).trans (arrayRemove_toList _ _)
    · unfold Memory.putArray
      rw [if_pos hcap]
    · unfold Memory.putArray
      rw [if_pos hcap]

end Spec

end TinyMsg
