import TinyMsg.Tracker.Events

/-!
# The blocks of the buffers

The buffers of the contexts lie in the blocks of one arena.  A block belongs to one buffer of one
descriptor (`Memory.Apart`); copies of a context, which there are once the array has moved, share
their blocks and have the same descriptor.  So an operation on one buffer does not show in the
buffers of other descriptors, nor in the other buffer of its own context.

What an operation does to the arena is summed up as `Memory.PutBack`: a buffer is put back, in place
or in a new block.  `Net.SentBy` says what a call of `send_msg_to_hostaddr` has done, and the blocks
stay apart through every call of `handle_msg` and every step of the loop.
-/

namespace TinyMsg

/-! ## Buffers and blocks -/

/-- The two buffers of a context. -/
inductive Side
  | read
  | write
  deriving DecidableEq

/-- A buffer of a context. -/
def SocketCtx.buf (c : SocketCtx) : Side → BufferRef
  | .read => c.readbuf
  | .write => c.writebuf

/-- The blocks of the buffers were handed out, and each belongs to one buffer of one descriptor. -/
def Memory.Apart (m : Memory) (l : List SocketCtx) : Prop :=
  ∃ owner : ℕ → ℕ × Side, ∀ c ∈ l, ∀ s, (c.buf s).bs < m.pos ∧ owner (c.buf s).bs = (c.fd, s)

/-- A buffer of `c` is put back, and `c'` is what becomes of the context. -/
structure Memory.PutBack (m m' : Memory) (c c' : SocketCtx) (s : Side) (buf : Buffer) : Prop where
  /-- The blocks. -/
  bytes : m'.bytes = (m.putBuffer (c.buf s) buf).1.bytes
  /-- What was handed out. -/
  pos : m'.pos = (m.putBuffer (c.buf s) buf).1.pos
  /-- The descriptor is the same. -/
  fd : c'.fd = c.fd
  /-- The struct of the buffer. -/
  buf : c'.buf s = (m.putBuffer (c.buf s) buf).2
  /-- The other buffer is the same. -/
  other : ∀ s', s' ≠ s → c'.buf s' = c.buf s'

section Blocks

variable {m m' : Memory} {l l' : List SocketCtx} {c c' d : SocketCtx} {s s' : Side} {buf : Buffer}
  {r : BufferRef}

/-- A buffer depends on its block only. -/
theorem Memory.buffer_congr (h : m'.bytes r.bs = m.bytes r.bs) : m'.buffer r = m.buffer r := by
  simp only [Memory.buffer, h]

/-- Putting a buffer back changes its block, or a new one. -/
theorem Memory.putBuffer_bytes_ne (m : Memory) (r : BufferRef) (buf : Buffer) {b : ℕ}
    (hlt : b < m.pos) (hne : b ≠ r.bs) : (m.putBuffer r buf).1.bytes b = m.bytes b := by
  unfold Memory.putBuffer
  split
  · exact Function.update_of_ne hne _ _
  · exact Function.update_of_ne hlt.ne _ _

/-- A buffer is put back into its block, or into a new one. -/
theorem Memory.putBuffer_block (m : Memory) (r : BufferRef) (buf : Buffer) :
    (m.putBuffer r buf).2.bs = r.bs ∨
      (m.putBuffer r buf).2.bs = m.pos ∧ m.pos < (m.putBuffer r buf).1.pos := by
  unfold Memory.putBuffer
  split
  · exact Or.inl rfl
  · exact Or.inr ⟨rfl, Nat.lt_add_of_pos_right buf.cap_pos⟩

/-- Fewer contexts are apart as well. -/
theorem Memory.Apart.mono (h : m.Apart l) (hpos : m.pos ≤ m'.pos) (hl : ∀ d ∈ l', d ∈ l) :
    m'.Apart l' := by
  obtain ⟨owner, howner⟩ := h
  refine ⟨owner, fun d hd s => ?_⟩
  obtain ⟨hlt, heq⟩ := howner d (hl d hd) s
  exact ⟨hlt.trans_le hpos, heq⟩

/-- Where no context is, none share a block. -/
theorem Memory.apart_nil (m : Memory) : m.Apart [] :=
  ⟨fun _ => (0, .read), fun _ hc => absurd hc List.not_mem_nil⟩

/-- The blocks of different buffers are different. -/
theorem Memory.Apart.block_ne (h : m.Apart l) (hc : c ∈ l) (hd : d ∈ l)
    (hne : (d.fd, s') ≠ (c.fd, s)) : (d.buf s').bs ≠ (c.buf s).bs := by
  obtain ⟨owner, howner⟩ := h
  intro heq
  apply hne
  rw [← (howner d hd s').2, ← (howner c hc s).2, heq]

/-- After a buffer is put back the blocks are apart. -/
theorem Memory.Apart.putBack (h : m.Apart l) (hc : c ∈ l) (hput : m.PutBack m' c c' s buf)
    (hl : ∀ d ∈ l', d = c' ∨ d ∈ l) : m'.Apart l' := by
  obtain ⟨owner, howner⟩ := h
  have hpos : m.pos ≤ m'.pos := by
    rw [hput.pos]
    exact m.pos_le_putBuffer _ _
  -- the block at `m.pos` is new
  have hold : ∀ d ∈ l, ∀ s', (d.buf s').bs < m'.pos ∧
      Function.update owner m.pos (c.fd, s) (d.buf s').bs = (d.fd, s') := by
    intro d hd s'
    obtain ⟨hlt, heq⟩ := howner d hd s'
    refine ⟨hlt.trans_le hpos, ?_⟩
    rw [Function.update_of_ne hlt.ne]
    exact heq
  refine ⟨Function.update owner m.pos (c.fd, s), fun d hd s' => ?_⟩
  rcases hl d hd with rfl | hd
  · by_cases hs : s' = s
    · subst hs
      rw [hput.buf, hput.fd]
      rcases m.putBuffer_block (c.buf s') buf with hblock | ⟨hblock, hlt⟩
      · rw [hblock]
        exact hold c hc s'
      · rw [hblock, Function.update_self]
        refine ⟨?_, rfl⟩
        rwa [hput.pos]
    · rw [hput.other s' hs, hput.fd]
      exact hold c hc s'
  · exact hold d hd s'

/-- What is put back is what is loaded next. -/
theorem Memory.PutBack.buffer_self (hput : m.PutBack m' c c' s buf) :
    m'.buffer (c'.buf s) = buf := by
  rw [hput.buf]
  refine Eq.trans (Memory.buffer_congr ?_) (m.buffer_putBuffer (c.buf s) buf)
  rw [hput.bytes]

/-- Putting a buffer back does not show in the others. -/
theorem Memory.PutBack.buffer_ne (hput : m.PutBack m' c c' s buf) (h : m.Apart l) (hc : c ∈ l)
    (hd : d ∈ l) (hne : (d.fd, s') ≠ (c.fd, s)) : m'.buffer (d.buf s') = m.buffer (d.buf s') := by
  apply Memory.buffer_congr
  rw [hput.bytes]
  refine m.putBuffer_bytes_ne _ _ ?_ (h.block_ne hc hd hne)
  obtain ⟨owner, howner⟩ := h
  exact (howner d hd s').1

/-- The two buffers of a new context are in new blocks. -/
theorem Memory.Apart.bufferNew (h : m.Apart l) {nr nw : ℕ} (hr : c.readbuf = (m.bufferNew nr).2)
    (hw : c.writebuf = ((m.bufferNew nr).1.bufferNew nw).2)
    (hpos : ((m.bufferNew nr).1.bufferNew nw).1.pos ≤ m'.pos) : m'.Apart (c :: l) := by
  obtain ⟨owner, howner⟩ := h
  have hlt : m.pos < (m.bufferNew nr).1.pos :=
    Nat.lt_add_of_pos_right (TinyMsg.bufferNew nr).cap_pos
  have hlt' : (m.bufferNew nr).1.pos < m'.pos :=
    lt_of_lt_of_le (Nat.lt_add_of_pos_right (TinyMsg.bufferNew nw).cap_pos) hpos
  refine ⟨Function.update (Function.update owner m.pos (c.fd, .read)) (m.bufferNew nr).1.pos
    (c.fd, .write), fun d hd s => ?_⟩
  rcases List.mem_cons.mp hd with rfl | hd
  · cases s with
    | read =>
      have hblock : (d.buf .read).bs = m.pos := congrArg BufferRef.bs hr
      rw [hblock, Function.update_of_ne hlt.ne, Function.update_self]
      exact ⟨hlt.trans hlt', rfl⟩
    | write =>
      have hblock : (d.buf .write).bs = (m.bufferNew nr).1.pos := congrArg BufferRef.bs hw
      rw [hblock, Function.update_self]
      exact ⟨hlt', rfl⟩
  · obtain ⟨hbs, heq⟩ := howner d hd s
    rw [Function.update_of_ne (hbs.trans hlt).ne, Function.update_of_ne hbs.ne]
    exact ⟨hbs.trans (hlt.trans hlt'), heq⟩

/-- New buffers do not show in the others. -/
theorem Memory.Apart.buffer_bufferNew (h : m.Apart l) {nr nw : ℕ}
    (hbytes : m'.bytes = ((m.bufferNew nr).1.bufferNew nw).1.bytes) (hd : d ∈ l) (s : Side) :
    m'.buffer (d.buf s) = m.buffer (d.buf s) := by
  obtain ⟨owner, howner⟩ := h
  have hlt : (d.buf s).bs < m.pos := (howner d hd s).1
  have hlt' : m.pos < (m.bufferNew nr).1.pos :=
    Nat.lt_add_of_pos_right (TinyMsg.bufferNew nr).cap_pos
  apply Memory.buffer_congr
  rw [hbytes]
  exact (Function.update_of_ne (hlt.trans hlt').ne _ _).trans (Function.update_of_ne hlt.ne _ _)

end Blocks

/-! ## Storing a buffer through a pointer -/

/-- The context after its `readbuf` and `msglen` were stored. -/
def SocketCtx.withReadbuf (c : SocketCtx) (r : BufferRef) (msglen : ℕ) : SocketCtx :=
  { c with readbuf := r, msglen := msglen }

/-- The context after its `writebuf` was stored. -/
def SocketCtx.withWritebuf (c : SocketCtx) (r : BufferRef) : SocketCtx := { c with writebuf := r }

section Pointers

variable {m m' : Memory} {a : ArrayRef} {l : List SocketCtx} {ctx q : CtxPtr} {c d : SocketCtx}
  {r : BufferRef} {s : Side}

/-- A pointer into the array points to one of its contexts. -/
theorem Memory.ArrayWF.ctx_mem (h : m.ArrayWF a) (hctx : m.Valid a ctx)
    (hb : ctx.block = a.items) : m.ctx ctx ∈ m.list a := by
  have hi : ctx.index < (m.list a).length := by
    rw [m.length_list]
    exact hctx.live hb
  rw [h.ctx_live hb hi]
  exact List.getElem_mem hi

/-- After a write through a pointer the array holds what was written, and what it held. -/
theorem Memory.ArrayWF.mem_list_setCtx (h : m.ArrayWF a) (hd : d ∈ (m.setCtx ctx c).list a) :
    d = c ∨ d ∈ m.list a := by
  by_cases hb : ctx.block = a.items
  · rw [h.list_setCtx_live hb] at hd
    exact (List.mem_or_eq_of_mem_set hd).symm
  · rw [Memory.list_setCtx_stale hb] at hd
    exact Or.inr hd

/-- A context stored through a pointer after one of its buffers was put back. -/
structure Memory.Stored (m m' : Memory) (a : ArrayRef) (ctx : CtxPtr) (s : Side) (buf : Buffer)
    (c : SocketCtx) : Prop extends m.PutBack m' (m.ctx ctx) c s buf where
  /-- It is what the pointer points to. -/
  ctx_eq : m'.ctx ctx = c
  /-- The array holds it, or what it held. -/
  mem : ∀ d ∈ m'.list a, d = c ∨ d ∈ m.list a
  /-- It is at the index of the pointer. -/
  live : ctx.block = a.items → m'.list a = (m.list a).set ctx.index c

/-- What storing a context does. -/
theorem Memory.ArrayWF.stored (h : m.ArrayWF a) (hctx : m.Valid a ctx) {buf : Buffer}
    (hput : m.PutBack m' (m.ctx ctx) c s buf)
    (hm' : m' = (m.putBuffer ((m.ctx ctx).buf s) buf).1.setCtx ctx c) :
    m.Stored m' a ctx s buf c := by
  have harray := h.of_ctxs (m.putBuffer_ctxs ((m.ctx ctx).buf s) buf) (m.pos_le_putBuffer _ _)
  have hlist : (m.putBuffer ((m.ctx ctx).buf s) buf).1.list a = m.list a :=
    Memory.list_congr (by rw [Memory.putBuffer_ctxs])
  subst hm'
  refine ⟨hput, Memory.ctx_setCtx_self ?_, fun d hd => ?_, fun hb => ?_⟩
  · rw [Memory.putBuffer_ctxs]
    exact hctx.index_lt
  · exact hlist ▸ harray.mem_list_setCtx hd
  · rw [harray.list_setCtx_live hb, hlist]

/-- Storing what is left of a `readbuf`. -/
theorem Memory.ArrayWF.putReadbuf_stored (h : m.ArrayWF a) (hctx : m.Valid a ctx) (buf : Buffer)
    (msglen : ℕ) :
    m.Stored (m.putReadbuf ctx buf msglen) a ctx .read buf
      ((m.ctx ctx).withReadbuf (m.putBuffer (m.ctx ctx).readbuf buf).2 msglen) := by
  refine h.stored hctx ⟨rfl, rfl, rfl, rfl, fun s hs => ?_⟩ rfl
  cases s with
  | read => exact absurd rfl hs
  | write => rfl

/-- Storing what is left of a `writebuf`. -/
theorem Memory.ArrayWF.putWritebuf_stored (h : m.ArrayWF a) (hctx : m.Valid a ctx)
    (buf : Buffer) :
    m.Stored (m.putWritebuf ctx buf) a ctx .write buf
      ((m.ctx ctx).withWritebuf (m.putBuffer (m.ctx ctx).writebuf buf).2) := by
  refine h.stored hctx ⟨rfl, rfl, rfl, rfl, fun s hs => ?_⟩ rfl
  cases s with
  | read => rfl
  | write => exact absurd rfl hs

/-- Appending to a `writebuf` stores the longer one. -/
theorem Memory.appendWritebuf_eq_putWritebuf (m : Memory) (ctx : CtxPtr) (bytes : List UInt8) :
    m.appendWritebuf ctx bytes =
      m.putWritebuf ctx (bufferAppend (m.buffer (m.ctx ctx).writebuf) bytes) := rfl

end Pointers

/-! ## What a call of `send_msg_to_hostaddr` has done -/

/-- A message of `len` bytes goes out in part, and bytes are left. -/
def ConnectCall.leaves (call : ConnectCall) (len : ℕ) : Bool :=
  call.socket.isSome && call.connect && leavesRest call.sends len

/-- The context `c` is made for the bytes in `sendbuf`, beside the contexts in `l`. -/
structure Net.Later (n n' : Net) (l : List SocketCtx) (c : SocketCtx) (sendbuf : Buffer) :
    Prop where
  /-- It is the last context. -/
  contexts : n'.contexts = n.contexts ++ [c]
  /-- Its buffers are in blocks of their own. -/
  apart : n'.memory.Apart (c :: l)
  /-- The other buffers stay as they are. -/
  buffer : ∀ d ∈ l, ∀ s, n'.memory.buffer (d.buf s) = n.memory.buffer (d.buf s)
  /-- The bytes wait in its `writebuf`. -/
  pending : (n'.memory.buffer c.writebuf).contents = sendbuf.contents
  /-- The array is doubled when it was full. -/
  cap : n'.socketctxs.cap =
    if n.socketctxs.len = n.socketctxs.cap then 2 * n.socketctxs.cap else n.socketctxs.cap
  /-- Otherwise it stays where it is. -/
  items : n'.socketctxs.cap = n.socketctxs.cap → n'.socketctxs.items = n.socketctxs.items

section Sends

variable {n n' : Net} {l : List SocketCtx} {destfd : ℕ} {toaddr : HostAddr} {sendbuf : Buffer}

theorem sendLater_later (harray : n.memory.ArrayWF n.socketctxs) (hapart : n.memory.Apart l)
    (hfd : ∀ d ∈ l, d.fd ≠ destfd) (h : sendLater n destfd toaddr sendbuf = .ok n') :
    ∃ c, c.fd = destfd ∧ c.toaddr = toaddr ∧ n'.accepted = n.accepted ∧
      n.Later n' l c sendbuf := by
  obtain ⟨⟨m, a, p⟩, hnew, h⟩ := bind_eq_ok.mp h
  obtain ⟨writefds, -, heq⟩ := bind_eq_ok.mp h
  obtain rfl := Except.ok.inj heq
  obtain ⟨hlist, hbytes, hpos, hcap, hitems⟩ := socketCtxNew_ok hnew
  rcases socketCtxNew_cases harray destfd 0 toaddr 1 64 with
    ⟨m', a', p', readbuf, writebuf, hnew', -, -, hadd⟩ | ⟨herr, -⟩
  case inr =>
    rw [herr] at hnew
    cases hnew
  obtain ⟨rfl, hrest⟩ := Prod.mk.inj (Except.ok.inj (hnew.symm.trans hnew'))
  obtain ⟨rfl, rfl⟩ := Prod.mk.inj hrest
  obtain ⟨c₀, hc₀⟩ : ∃ c₀, c₀ = ctxNew destfd 0 toaddr (n.memory.bufferNew 1).2
    ((n.memory.bufferNew 1).1.bufferNew 64).2 := ⟨_, rfl⟩
  have hr : c₀.readbuf = (n.memory.bufferNew 1).2 := by rw [hc₀]; rfl
  have hw : c₀.writebuf = ((n.memory.bufferNew 1).1.bufferNew 64).2 := by rw [hc₀]; rfl
  rw [← hc₀] at hlist
  have hblock : p.block = a.items := by rw [hadd.ptr]
  have hindex : p.index = n.contexts.length := by
    rw [hadd.ptr]
    exact (n.memory.length_list _).symm
  have hlen : a.len = n.contexts.length + 1 := by
    rw [← m.length_list, hlist, List.length_append, List.length_singleton]
    rfl
  have hvalid : m.Valid a p := by
    refine ⟨hblock ▸ hadd.array.items_lt, ?_, fun _ => by omega⟩
    rw [hblock, hadd.array.block_length]
    have hle := a.len_le_cap
    omega
  have hctx : m.ctx p = c₀ := by
    rw [hadd.array.ctx_live hblock (by rw [m.length_list]; omega)]
    simp only [hlist, hindex]
    exact List.getElem_concat_length rfl _
  have hapart₀ : m.Apart (c₀ :: l) := hapart.bufferNew hr hw hpos
  have hmem₀ : c₀ ∈ c₀ :: l := List.mem_cons_self
  have hstored := hadd.array.putWritebuf_stored hvalid
    (bufferAppend (m.buffer (m.ctx p).writebuf) sendbuf.contents)
  rw [← Memory.appendWritebuf_eq_putWritebuf, hctx] at hstored
  obtain ⟨c, hc⟩ : ∃ c, c = c₀.withWritebuf (m.putBuffer c₀.writebuf
    (bufferAppend (m.buffer c₀.writebuf) sendbuf.contents)).2 := ⟨_, rfl⟩
  rw [← hc] at hstored
  have hput := hstored.toPutBack
  rw [hctx] at hput
  have hfd₀ : c₀.fd = destfd := by rw [hc₀]; rfl
  have hbuffer : ∀ d ∈ l, ∀ s, m.buffer (d.buf s) = n.memory.buffer (d.buf s) := fun d hd s =>
    hapart.buffer_bufferNew hbytes hd s
  refine ⟨c, hput.fd.trans hfd₀, ?_, rfl, ?_, ?_, fun d hd s => ?_, ?_, hcap, hitems⟩
  · rw [hc, hc₀]
    rfl
  · change (m.appendWritebuf p sendbuf.contents).list a = _
    rw [hstored.live hblock, hlist, hindex]
    simp [Net.contexts]
  · refine hapart₀.putBack hmem₀ hput fun d hd => ?_
    exact (List.mem_cons.mp hd).imp_right fun hd => List.mem_cons_of_mem _ hd
  · refine (hput.buffer_ne hapart₀ hmem₀ (List.mem_cons_of_mem _ hd) fun heq => ?_).trans
      (hbuffer d hd s)
    exact hfd d hd ((Prod.mk.inj heq).1.trans hfd₀)
  · have hempty : (m.buffer c₀.writebuf).contents = [] := by
      rw [hw, ← List.length_eq_zero_iff, Buffer.length_contents]
      rfl
    have hself : (m.appendWritebuf p sendbuf.contents).buffer c.writebuf = _ := hput.buffer_self
    rw [hself, bufferAppend_contents, hempty, List.nil_append]

/-- A message for which no context is made was sent whole, or the call has failed and the kernel
took at most a beginning of it. -/
def SentAtOnce (msgbytes : List UInt8) (ret : ℤ) (taken : List UInt8) : Prop :=
  (ret = 0 ∧ taken = msgbytes) ∨ (ret = -1 ∧ taken <+: msgbytes)

/-- The value returned is not the one for a message that is appended for a context. -/
theorem SentAtOnce.ret_ne_one {msgbytes taken : List UInt8} {ret : ℤ}
    (h : SentAtOnce msgbytes ret taken) : ret ≠ 1 := by
  rcases h with ⟨rfl, -⟩ | ⟨rfl, -⟩ <;> decide

/-- What a call of `send_msg_to_hostaddr` with a message has done. -/
inductive Net.SentBy (n : Net) (calls : List ConnectCall) (msgbytes : List UInt8)
    (toaddr : HostAddr) : Net → List ConnectCall → Handover → Prop
  /-- The message is appended for the context that is there. -/
  | queued {i : ℕ} (hi : i < n.contexts.length) (haddr : n.contexts[i].toaddr = toaddr) :
    SentBy n calls msgbytes toaddr
      { n with memory := n.memory.appendWritebuf ⟨n.socketctxs.items, i⟩ msgbytes } calls .queued
  /-- The kernel takes a part of the message, and a context is made for the rest. -/
  | opened {n₂ n' : Net} {call : ConnectCall} {calls' : List ConnectCall} {destfd : ℕ}
    {taken : List UInt8} {sendbuf : Buffer} (hfresh : ∀ d ∈ n.contexts, d.toaddr ≠ toaddr)
    (hcalls : calls = call :: calls') (hleaves : call.leaves msgbytes.length = true)
    (hnew : destfd ∉ n.fds) (hbytes : taken ++ sendbuf.contents = msgbytes)
    (hmemory : n₂.memory = n.memory) (hctxs : n₂.socketctxs = n.socketctxs)
    (haccepted : n₂.accepted = Function.update n.accepted destfd taken)
    (hlater : sendLater n₂ destfd toaddr sendbuf = .ok n') :
    SentBy n calls msgbytes toaddr n' calls' .opened
  /-- No context is made. -/
  | unchanged {n' : Net} {ret : ℤ} {taken : List UInt8}
    (hfresh : ∀ d ∈ n.contexts, d.toaddr ≠ toaddr)
    (hleaves : ∀ call ∈ calls.head?, call.leaves msgbytes.length = false)
    (hmemory : n'.memory = n.memory) (hctxs : n'.socketctxs = n.socketctxs)
    (haccepted : ∀ fd ∈ n.fds, n'.accepted fd = n.accepted fd)
    (honce : SentAtOnce msgbytes ret taken) :
    SentBy n calls msgbytes toaddr n' calls.tail (.closed ret taken)

/-- What becomes of the bytes shows in the value returned and in the number of contexts. -/
theorem handover_of_ok {calls calls' : List ConnectCall} {msgbytes : List UInt8} {z : ℤ}
    (h : sendMsgToHostaddr n calls msgbytes toaddr = .ok (n', calls', z)) :
    handover n calls msgbytes toaddr =
      if z = 1 then .queued
      else if n.socketctxs.len < n'.socketctxs.len then .opened
      else .closed z (takenOn calls n') := by
  rw [handover, h]

/-- A context is made for what `sendbuf` still holds. -/
theorem sendLater_len (h : sendLater n destfd toaddr sendbuf = .ok n') :
    n'.socketctxs.len = n.socketctxs.len + 1 := by
  obtain ⟨⟨m, a, p⟩, hnew, h⟩ := bind_eq_ok.mp h
  obtain ⟨writefds, -, heq⟩ := bind_eq_ok.mp h
  obtain rfl := Except.ok.inj heq
  have hlist := congrArg List.length (socketCtxNew_ok hnew).1
  rwa [List.length_append, Memory.length_list, Memory.length_list] at hlist

/-- Connecting to an address that has no context. -/
theorem connectAndSend_sentBy {call : ConnectCall} {calls : List ConnectCall}
    {msgbytes : List UInt8} {z : ℤ} (hfresh : ∀ d ∈ n.contexts, d.toaddr ≠ toaddr)
    (h : connectAndSend n call msgbytes toaddr = .ok (n', z)) :
    n.SentBy (call :: calls) msgbytes toaddr n' calls
      (if z = 1 then .queued else if n.socketctxs.len < n'.socketctxs.len then .opened
        else .closed z (takenOn (call :: calls) n')) := by
  have hnone : ∀ {b : Bool}, call.leaves msgbytes.length = b →
      ∀ call' ∈ (call :: calls).head?, call'.leaves msgbytes.length = b := by
    intro b hb call' hcall'
    obtain rfl : call = call' := Option.some.inj hcall'
    exact hb
  -- no context is made, and what the kernel took is known
  have hunchanged : ∀ n₃ : Net, n₃.memory = n.memory → n₃.socketctxs = n.socketctxs →
      (∀ fd ∈ n.fds, n₃.accepted fd = n.accepted fd) → call.leaves msgbytes.length = false →
      ∀ ret, SentAtOnce msgbytes ret (takenOn (call :: calls) n₃) →
      n.SentBy (call :: calls) msgbytes toaddr n₃ calls
        (if ret = 1 then .queued else if n.socketctxs.len < n₃.socketctxs.len then .opened
          else .closed ret (takenOn (call :: calls) n₃)) := by
    intro n₃ hmemory hctxs haccepted hfalse ret honce
    rw [hctxs, if_neg honce.ret_ne_one, if_neg (lt_irrefl _)]
    exact .unchanged hfresh (hnone hfalse) hmemory hctxs haccepted honce
  unfold connectAndSend at h
  cases hsocket : call.socket with
  | none =>
    simp only [hsocket] at h
    obtain ⟨rfl, rfl⟩ := Prod.mk.inj (Except.ok.inj h)
    refine hunchanged n rfl rfl (fun _ _ => rfl) (by simp [ConnectCall.leaves, hsocket]) (-1)
      (Or.inr ⟨rfl, ?_⟩)
    rw [takenOn, List.head?_cons, Option.bind_some, hsocket]
    exact List.nil_prefix
  | some destfd =>
    simp only [hsocket] at h
    obtain ⟨n₁, hopen, h⟩ := bind_eq_ok.mp h
    obtain ⟨hnew, rfl⟩ := (openFd_meets _ _).of_ok hopen
    have hother : ∀ (bytes : List UInt8), ∀ fd ∈ n.fds,
        Function.update n.accepted destfd bytes fd = n.accepted fd := by
      intro bytes fd hfd
      have hne : fd ≠ destfd := fun heq => hnew (heq ▸ hfd)
      exact Function.update_of_ne hne _ _
    have htaken : ∀ n₃ : Net, takenOn (call :: calls) n₃ = n₃.accepted destfd := by
      intro n₃
      rw [takenOn, List.head?_cons, Option.bind_some, hsocket]
    by_cases hconnect : call.connect = false
    · rw [if_pos hconnect] at h
      obtain ⟨rfl, rfl⟩ := Prod.mk.inj (Except.ok.inj h)
      refine hunchanged (Net.shutdownSocket
        { n with fds := insert destfd n.fds, accepted := Function.update n.accepted destfd [] }
        destfd) rfl rfl (hother []) (by simp [ConnectCall.leaves, hconnect]) (-1)
        (Or.inr ⟨rfl, ?_⟩)
      rw [htaken]
      change Function.update n.accepted destfd [] destfd <+: msgbytes
      rw [Function.update_self]
      exact List.nil_prefix
    rw [if_neg hconnect] at h
    obtain ⟨⟨n₂, z₂, sendbuf⟩, hsend, h⟩ := bind_eq_ok.mp h
    obtain ⟨hsent, hres⟩ := (netSend2_meets _ _ _ _).of_ok hsend
    obtain ⟨rfl, rfl⟩ := Prod.mk.inj hres
    obtain ⟨hbytes, hempty, hret⟩ := netSend_spec call.sends
      (bufferAppend (bufferNew msgbytes.length) msgbytes)
    have hone := netSend_eq_one_iff call.sends (bufferAppend (bufferNew msgbytes.length) msgbytes)
    rw [bufferAppend_contents, bufferNew_contents, List.nil_append] at hbytes
    rw [bufferAppend_len, bufferNew_len, Nat.zero_add] at hone
    have haccepted : n₂.accepted = Function.update n.accepted destfd
        (netSend call.sends (bufferAppend (bufferNew msgbytes.length) msgbytes)).accepted := by
      rw [hsent.accepted]
      simp
    have hleaves : call.leaves msgbytes.length = leavesRest call.sends msgbytes.length := by
      simp [ConnectCall.leaves, hsocket, hconnect]
    have hnot : (netSend call.sends (bufferAppend (bufferNew msgbytes.length) msgbytes)).ret ≠ 1 →
        call.leaves msgbytes.length = false := by
      intro hne
      rw [hleaves, ← Bool.not_eq_true]
      exact fun hrest => hne (hone.mpr hrest)
    have hnoctx : ∀ ret, call.leaves msgbytes.length = false →
        SentAtOnce msgbytes ret
          (netSend call.sends (bufferAppend (bufferNew msgbytes.length) msgbytes)).accepted →
        n.SentBy (call :: calls) msgbytes toaddr (n₂.shutdownSocket destfd) calls
          (if ret = 1 then .queued
            else if n.socketctxs.len < (n₂.shutdownSocket destfd).socketctxs.len then .opened
            else .closed ret (takenOn (call :: calls) (n₂.shutdownSocket destfd))) := by
      intro ret hfalse honce
      have hacc : (n₂.shutdownSocket destfd).accepted = n₂.accepted := rfl
      refine hunchanged (n₂.shutdownSocket destfd) hsent.memory hsent.socketctxs
        (fun fd hfd => ?_) hfalse ret ?_
      · rw [hacc, haccepted]
        exact hother _ fd hfd
      · rw [htaken, hacc, haccepted, Function.update_self]
        exact honce
    dsimp only at h
    rcases hret with hret | hret | hret
    · rw [if_neg (by rw [hret]; decide), if_pos hret] at h
      obtain ⟨rfl, rfl⟩ := Prod.mk.inj (Except.ok.inj h)
      refine hnoctx 0 (hnot (by rw [hret]; decide)) (Or.inl ⟨rfl, ?_⟩)
      have hrest := List.length_eq_zero_iff.mp
        ((Buffer.length_contents _).trans (hempty.mp hret))
      rwa [hrest, List.append_nil] at hbytes
    · rw [if_neg (by rw [hret]; decide), if_neg (by rw [hret]; decide), if_pos hret] at h
      obtain ⟨n₃, hlater, heq⟩ := bind_eq_ok.mp h
      obtain ⟨rfl, rfl⟩ := Prod.mk.inj (Except.ok.inj heq)
      have hlen := sendLater_len hlater
      rw [hsent.socketctxs] at hlen
      rw [if_neg (by decide), if_pos (hlen ▸ Nat.lt_succ_self _)]
      exact .opened hfresh rfl (hleaves.trans (hone.mp hret)) hnew hbytes hsent.memory
        hsent.socketctxs haccepted hlater
    · rw [if_pos hret] at h
      obtain ⟨rfl, rfl⟩ := Prod.mk.inj (Except.ok.inj h)
      exact hnoctx (-1) (hnot (by rw [hret]; decide)) (Or.inr ⟨rfl, ⟨_, hbytes⟩⟩)

/-- What a call of `send_msg_to_hostaddr` that comes back has done. -/
theorem sendMsgToHostaddr_sentBy {calls calls' : List ConnectCall} {msgbytes : List UInt8} {z : ℤ}
    (h : sendMsgToHostaddr n calls msgbytes toaddr = .ok (n', calls', z)) :
    n.SentBy calls msgbytes toaddr n' calls' (handover n calls msgbytes toaddr) := by
  rw [handover_of_ok h]
  have hfind : socketCtxFindByToaddr n.memory n.socketctxs toaddr =
      .ok ((n.contexts.findIdx? fun c => c.toaddr = toaddr).map fun i => ⟨n.socketctxs.items, i⟩) :=
    socketCtxFindByToaddr_eq _ _ _
  unfold sendMsgToHostaddr at h
  rw [hfind, ok_bind] at h
  cases hi : n.contexts.findIdx? fun c => c.toaddr = toaddr with
  | none =>
    have hfresh : ∀ d ∈ n.contexts, d.toaddr ≠ toaddr :=
      lookup_eq_none_iff.mp (findIdx?_eq_none_iff_lookup.mp hi)
    rw [hi] at h
    cases calls with
    | nil =>
      obtain ⟨rfl, hrest⟩ := Prod.mk.inj (Except.ok.inj h)
      obtain ⟨rfl, rfl⟩ := Prod.mk.inj hrest
      rw [if_neg (by decide), if_neg (lt_irrefl _)]
      exact .unchanged hfresh (fun call hcall => nomatch hcall) rfl rfl (fun _ _ => rfl)
        (Or.inr ⟨rfl, List.nil_prefix⟩)
    | cons call calls =>
      obtain ⟨⟨n₁, z₁⟩, hconnect, heq⟩ := bind_eq_ok.mp h
      obtain ⟨rfl, hrest⟩ := Prod.mk.inj (Except.ok.inj heq)
      obtain ⟨rfl, rfl⟩ := Prod.mk.inj hrest
      exact connectAndSend_sentBy hfresh hconnect
  | some i =>
    obtain ⟨hi', -, haddr⟩ := findIdx?_lookup hi
    rw [hi] at h
    obtain ⟨rfl, hrest⟩ := Prod.mk.inj (Except.ok.inj h)
    obtain ⟨rfl, rfl⟩ := Prod.mk.inj hrest
    exact .queued hi' haddr

end Sends

/-! ## What a call leaves alone -/

/-- The contexts in `l` are those of the array and copies of them, and their blocks are apart. -/
structure Net.Around (n : Net) (l : List SocketCtx) : Prop where
  /-- The blocks are apart. -/
  apart : n.memory.Apart l
  /-- The contexts of the array are among them. -/
  contexts : ∀ d ∈ n.contexts, d ∈ l
  /-- Their descriptors are open. -/
  fds : ∀ d ∈ l, d.fd ∈ n.fds
  /-- Copies have the same address. -/
  toaddr : ∀ d ∈ l, ∀ e ∈ l, d.fd = e.fd → d.toaddr = e.toaddr

section Around

variable {n n' : Net} {l l' : List SocketCtx} {calls calls' : List ConnectCall}
  {msgbytes : List UInt8} {toaddr : HostAddr} {out : Handover} {d : SocketCtx} {s : Side}

/-- The context at an index of the array, through the pointer to it. -/
theorem Net.WF.ctx_eq (hn : n.WF) {i : ℕ} (hi : i < n.contexts.length) :
    n.memory.Valid n.socketctxs ⟨n.socketctxs.items, i⟩ ∧
      n.memory.ctx ⟨n.socketctxs.items, i⟩ = n.contexts[i] := by
  have hlen : i < n.socketctxs.len := by
    rw [← Memory.length_list]
    exact hi
  refine ⟨⟨hn.array.items_lt, ?_, fun _ => hlen⟩, hn.array.ctx_live rfl hi⟩
  rw [hn.array.block_length]
  exact hlen.trans_le n.socketctxs.len_le_cap

/-- Storing the `writebuf` of the context at an index of the array. -/
theorem Net.WF.writebuf_stored (hn : n.WF) {i : ℕ} (hi : i < n.contexts.length) (buf : Buffer) :
    ∃ c, c.fd = n.contexts[i].fd ∧ c.toaddr = n.contexts[i].toaddr ∧
      n.memory.PutBack (n.memory.putWritebuf ⟨n.socketctxs.items, i⟩ buf) n.contexts[i] c .write
        buf ∧
      (n.memory.putWritebuf ⟨n.socketctxs.items, i⟩ buf).list n.socketctxs =
        n.contexts.set i c := by
  obtain ⟨hvalid, hctx⟩ := hn.ctx_eq hi
  have hstored := hn.array.putWritebuf_stored hvalid buf
  have hlist := hstored.live rfl
  have hput := hstored.toPutBack
  rw [hctx] at hput hlist
  refine ⟨_, ?_, ?_, hput, hlist⟩
  · rfl
  · rfl

/-- Appending a message for a context. -/
theorem Net.WF.queued_stored (hn : n.WF) {i : ℕ} (hi : i < n.contexts.length)
    (msgbytes : List UInt8) :
    ∃ c, c.fd = n.contexts[i].fd ∧ c.toaddr = n.contexts[i].toaddr ∧
      n.memory.PutBack (n.memory.appendWritebuf ⟨n.socketctxs.items, i⟩ msgbytes) n.contexts[i] c
        .write (bufferAppend (n.memory.buffer n.contexts[i].writebuf) msgbytes) ∧
      (n.memory.appendWritebuf ⟨n.socketctxs.items, i⟩ msgbytes).list n.socketctxs =
        n.contexts.set i c := by
  rw [Memory.appendWritebuf_eq_putWritebuf, (hn.ctx_eq hi).2]
  exact hn.writebuf_stored hi _

/-- The context that is made for the rest of a message. -/
theorem Net.Around.later {n₂ : Net} {destfd : ℕ} {sendbuf : Buffer} (hn : n.WF)
    (hl : n.Around l) (hnew : destfd ∉ n.fds) (hmemory : n₂.memory = n.memory)
    (hctxs : n₂.socketctxs = n.socketctxs) (hlater : sendLater n₂ destfd toaddr sendbuf = .ok n') :
    ∃ c, c.fd = destfd ∧ c.toaddr = toaddr ∧ n'.accepted = n₂.accepted ∧
      n.Later n' l c sendbuf := by
  have hfd : ∀ d ∈ l, d.fd ≠ destfd := by
    intro d hd heq
    exact hnew (heq ▸ hl.fds d hd)
  obtain ⟨c, hcfd, haddr, haccepted, hc⟩ :=
    sendLater_later (by rw [hmemory, hctxs]; exact hn.array) (hmemory ▸ hl.apart) hfd hlater
  have hcontexts : n₂.contexts = n.contexts := by
    rw [Net.contexts, hmemory, hctxs]
    rfl
  refine ⟨c, hcfd, haddr, haccepted, hcontexts ▸ hc.contexts, hc.apart, ?_, hc.pending, ?_, ?_⟩
  · rw [← hmemory]
    exact hc.buffer
  · rw [← hctxs]
    exact hc.cap
  · rw [← hctxs]
    exact hc.items

/-- After a call the blocks are apart, copies of before included. -/
theorem Net.SentBy.apart (hn : n.WF) (hl : n.Around l)
    (h : n.SentBy calls msgbytes toaddr n' calls' out) (hl' : ∀ d ∈ l', d ∈ l ∨ d ∈ n'.contexts) :
    n'.memory.Apart l' := by
  cases h with
  | @queued i hi haddr =>
    obtain ⟨c, -, -, hput, hlist⟩ := hn.queued_stored hi msgbytes
    refine hl.apart.putBack (hl.contexts _ (List.getElem_mem hi)) hput fun d hd => ?_
    rcases hl' d hd with hd | hd
    · exact Or.inr hd
    · have hmem : d ∈ n.contexts.set i c := hlist ▸ hd
      exact (List.mem_or_eq_of_mem_set hmem).symm.imp_right (hl.contexts d)
  | opened _ _ _ hnew _ hmemory hctxs _ hlater =>
    obtain ⟨c, -, -, -, hc⟩ := hl.later hn hnew hmemory hctxs hlater
    refine hc.apart.mono le_rfl fun d hd => ?_
    rcases hl' d hd with hd | hd
    · exact List.mem_cons_of_mem _ hd
    · rw [hc.contexts] at hd
      rcases List.mem_append.mp hd with hd | hd
      · exact List.mem_cons_of_mem _ (hl.contexts d hd)
      · exact List.mem_cons.mpr (Or.inl (List.mem_singleton.mp hd))
  | unchanged _ _ hmemory hctxs _ _ =>
    have hcontexts : n'.contexts = n.contexts := by
      rw [Net.contexts, hmemory, hctxs]
      rfl
    rw [hmemory]
    refine hl.apart.mono le_rfl fun d hd => ?_
    rcases hl' d hd with hd | hd
    · exact hd
    · exact hl.contexts d (hcontexts ▸ hd)

/-- A call shows in no `readbuf`, and only in the `writebuf` for its address. -/
theorem Net.SentBy.buffer (hn : n.WF) (hl : n.Around l)
    (h : n.SentBy calls msgbytes toaddr n' calls' out) (hd : d ∈ l)
    (hs : s = .read ∨ d.toaddr ≠ toaddr) :
    n'.memory.buffer (d.buf s) = n.memory.buffer (d.buf s) := by
  cases h with
  | @queued i hi haddr =>
    obtain ⟨c, -, -, hput, -⟩ := hn.queued_stored hi msgbytes
    have hmem := hl.contexts _ (List.getElem_mem hi)
    refine hput.buffer_ne hl.apart hmem hd fun heq => ?_
    obtain ⟨hfd, hside⟩ := Prod.mk.inj heq
    rcases hs with hread | hne
    · rw [hread] at hside
      cases hside
    · exact hne ((hl.toaddr d hd _ hmem hfd).trans haddr)
  | opened _ _ _ hnew _ hmemory hctxs _ hlater =>
    obtain ⟨c, -, -, -, hc⟩ := hl.later hn hnew hmemory hctxs hlater
    exact hc.buffer d hd s
  | unchanged _ _ hmemory _ _ _ => rw [hmemory]

end Around

/-! ## The calls of `handle_msg` -/

section Handled

variable {p p' : Peers} {n n' : Net} {fromaddr : HostAddr}

/-- Whatever the sends do, a call of `handle_msg` makes the same ones, in the same order, and does
the same to the peer table. -/
theorem handleReceived_iff (hp : p.WF) (ha : p.Addressed) (hfrom : hostAddrAddr fromaddr ≠ 0)
    (msgbytes : ℕ → UInt8) (msglen : ℕ) (listenport : UInt16) :
    ∃ (sends : List Send) (next : Peers → Prop), (∀ x ∈ sends, x.toaddr ≠ 0) ∧
      ∀ {σ : Type} (send : σ → Send → Exec σ) (s s' : σ) (p' : Peers),
        handleReceived send p s fromaddr msgbytes msglen listenport = .ok (p', s') ↔
          next p' ∧ run send s sends = .ok s' := by
  have hactive : ∀ {p : Peers}, p.Addressed → ∀ q ∈ p.active, q.toaddr ≠ 0 := fun ha q hq =>
    ha q (List.mem_of_mem_filter hq)
  cases hunpack : unpackTrackerMsg msgbytes msglen listenport with
  | none =>
    refine ⟨[], fun p' => p' = p, fun x hx => absurd hx List.not_mem_nil, ?_⟩
    intro σ send s s' p'
    rw [handleReceived, hunpack]
    simp only [Except.ok.injEq, Prod.mk.injEq, run_nil, eq_comm]
  | some m =>
    cases m with
    | knock aliasStr hostname listenport' =>
      refine ⟨broadcasts p (.online aliasStr hostname fromaddr (knockToaddr fromaddr listenport'))
          ++ catchUps p fromaddr (knockToaddr fromaddr listenport'),
        fun p' => ∃ hpeer, createPeer p aliasStr hostname fromaddr
          (knockToaddr fromaddr listenport') = .ok (p', hpeer), fun x hx => ?_, ?_⟩
      · rcases List.mem_append.mp hx with hx | hx
        · obtain ⟨q, hq, rfl⟩ := List.mem_map.mp hx
          exact hactive ha q hq
        · obtain ⟨q, -, rfl⟩ := List.mem_map.mp hx
          exact knockToaddr_ne_zero hfrom listenport'
      · intro σ send s s' p'
        rw [handleReceived, hunpack]
        exact (handleMsg_knock hp).trans and_comm
    | bye =>
      cases hdestroy : destroyFromaddr p fromaddr with
      | error e =>
        refine ⟨[], fun _ => False, fun x hx => absurd hx List.not_mem_nil, ?_⟩
        intro σ send s s' p'
        rw [handleReceived, hunpack]
        refine handleMsg_bye.trans ?_
        simp [hdestroy]
      | ok p₁ =>
        refine ⟨broadcasts p₁ (.offline fromaddr), fun p' => p' = p₁ ∧ p₁.gPeers.cap ≠ 0,
          fun x hx => ?_, ?_⟩
        · obtain ⟨q, hq, rfl⟩ := List.mem_map.mp hx
          exact hactive (destroyFromaddr_addressed hp ha hdestroy) q hq
        · intro σ send s s' p'
          rw [handleReceived, hunpack]
          refine handleMsg_bye.trans ?_
          rw [hdestroy]
          constructor
          · rintro ⟨heq, hcap, hrun⟩
            obtain rfl := Except.ok.inj heq
            exact ⟨⟨rfl, hcap⟩, hrun⟩
          · rintro ⟨⟨rfl, hcap⟩, hrun⟩
            exact ⟨rfl, hcap, hrun⟩

/-- The calls of `send_msg_to_hostaddr` by a call of `handle_msg` are on record. -/
theorem handleMsgBytes_traced (hp : p.WF) (ha : p.Addressed) (hfrom : hostAddrAddr fromaddr ≠ 0)
    {readbuf : Buffer} {msglen : ℕ} {env : MsgEnv}
    (h : handleMsgBytes p n fromaddr readbuf msglen env = .ok (p', n')) :
    ∃ sends calls', (∀ x ∈ sends, x.toaddr ≠ 0) ∧
      run (traced sendPeerMsg sendEvents) ((n, env.calls), []) sends =
        .ok ((n', calls'), handleEvents p n fromaddr readbuf msglen env) := by
  rw [handleMsgBytes_eq] at h
  obtain ⟨⟨p₁, n₁, calls'⟩, hhandle, heq⟩ := bind_eq_ok.mp h
  obtain ⟨rfl, rfl⟩ := Prod.mk.inj (Except.ok.inj heq)
  obtain ⟨sends, next, hto, hiff⟩ := handleReceived_iff hp ha hfrom
    (msgMemory readbuf env.behind) msglen env.listenport
  obtain ⟨hnext, hrun⟩ := (hiff _ _ _ _).mp hhandle
  obtain ⟨trace, htrace⟩ := traced_of_run sendEvents hrun
  have hevents := (hiff (traced sendPeerMsg sendEvents) ((n, env.calls), []) _ _).mpr
    ⟨hnext, htrace⟩
  refine ⟨sends, calls', hto, ?_⟩
  rw [handleEvents, hevents]
  exact htrace

end Handled

/-! ## The read branch -/

/-- In the read branch the blocks stay apart, those of the context at the pointer included. -/
structure Tending (w₀ : Watch) (l₀ : Link) (ctx : CtxPtr) (p : Peers) (n : Net) : Prop
    extends Serving w₀ l₀ ctx p n where
  /-- The blocks are apart. -/
  apart : n.memory.Apart (n.memory.ctx ctx :: n.contexts)

section Tending

variable {w₀ : Watch} {l₀ : Link} {ctx : CtxPtr} {p p' : Peers} {n n' : Net} {fromaddr : HostAddr}

/-- The sockets are in order. -/
theorem Serving.net (hw₀ : w₀.WF) (h : Serving w₀ l₀ ctx p n) : n.WF :=
  Net.wf_of_watch h.array (hw₀.steps h.sends.steps)

/-- The context at the pointer is one of the array, or a copy. -/
theorem Tending.around (hw₀ : w₀.WF) (hl₀ : l₀ ∈ w₀.links) (h0 : l₀.toaddr = 0)
    (h : Tending w₀ l₀ ctx p n) : n.Around (n.memory.ctx ctx :: n.contexts) := by
  have hw := hw₀.steps h.sends.steps
  have hlink : ∀ d ∈ n.memory.ctx ctx :: n.contexts,
      d.link ∈ (n.watch w₀.readfds w₀.listenfd).links := by
    intro d hd
    rcases List.mem_cons.mp hd with rfl | hd
    · rw [h.link]
      exact h.sends.incoming l₀ hl₀ h0
    · exact List.mem_map_of_mem hd
  refine ⟨h.apart, fun d hd => List.mem_cons_of_mem _ hd, fun d hd => hw.fds_open _ (hlink d hd),
    fun d hd e he hfd => ?_⟩
  exact congrArg Link.toaddr (hw.link_inj (hlink d hd) (hlink e he) hfd)

/-- A call of `send_msg_to_hostaddr` leaves the context at the pointer as it is. -/
theorem Tending.send (hw₀ : w₀.WF) (hl₀ : l₀ ∈ w₀.links) (h0 : l₀.toaddr = 0)
    {s s' : Net × List ConnectCall} (h : Tending w₀ l₀ ctx p s.1) {send : Send}
    (hto : send.toaddr ≠ 0) (hrun : sendPeerMsg s send = .ok s') :
    Tending w₀ l₀ ctx p s'.1 ∧
      s.1.SentBy s.2 send.msg.handed send.toaddr s'.1 s'.2
        (handover s.1 s.2 send.msg.handed send.toaddr) ∧
      s'.1.memory.ctx ctx = s.1.memory.ctx ctx := by
  have hn := h.net hw₀
  have hserving := (h.toServing.send hw₀ h0 hto).of_ok hrun
  have hne : (s.1.memory.ctx ctx).toaddr ≠ send.toaddr := by
    have hzero : (s.1.memory.ctx ctx).toaddr = 0 := (congrArg Link.toaddr h.link).trans h0
    rw [hzero]
    exact hto.symm
  have hctx := (((sendPeerMsg_meets hn send).of_ok hrun).keeps ctx h.valid hne).2
  have hsent : s.1.SentBy s.2 send.msg.handed send.toaddr s'.1 s'.2
      (handover s.1 s.2 send.msg.handed send.toaddr) := by
    rw [sendPeerMsg, packPeerMsg_eq, ok_bind] at hrun
    obtain ⟨⟨n₁, calls₁, z⟩, hsend, heq⟩ := bind_eq_ok.mp hrun
    obtain rfl := Except.ok.inj heq
    exact sendMsgToHostaddr_sentBy hsend
  refine ⟨⟨hserving, ?_⟩, hsent, hctx⟩
  refine hsent.apart hn (h.around hw₀ hl₀ h0) fun d hd => ?_
  rw [hctx] at hd
  rcases List.mem_cons.mp hd with heq | hd
  · exact Or.inl (List.mem_cons.mpr (Or.inl heq))
  · exact Or.inr hd

/-- So does storing what is left of the `readbuf`, apart from that. -/
theorem Tending.putReadbuf (h : Tending w₀ l₀ ctx p n) (buf : Buffer) (msglen : ℕ) :
    Tending w₀ l₀ ctx p { n with memory := n.memory.putReadbuf ctx buf msglen } := by
  have hstored := h.array.putReadbuf_stored h.valid buf msglen
  refine ⟨h.toServing.putReadbuf buf msglen, ?_⟩
  refine h.apart.putBack List.mem_cons_self hstored.toPutBack fun d hd => ?_
  rcases List.mem_cons.mp hd with heq | hd
  · exact Or.inl (heq.trans hstored.ctx_eq)
  · exact (hstored.mem d hd).imp_right fun hmem => List.mem_cons_of_mem _ hmem

/-- A series of calls goes on from there. -/
theorem Tending.run (hw₀ : w₀.WF) (hl₀ : l₀ ∈ w₀.links) (h0 : l₀.toaddr = 0)
    {s s' : Net × List ConnectCall} (h : Tending w₀ l₀ ctx p s.1) {sends : List Send}
    (hto : ∀ send ∈ sends, send.toaddr ≠ 0) (hrun : run sendPeerMsg s sends = .ok s') :
    Tending w₀ l₀ ctx p s'.1 := by
  induction sends generalizing s with
  | nil =>
    obtain rfl := Except.ok.inj hrun
    exact h
  | cons send sends ih =>
    obtain ⟨s₁, hs₁, hrun⟩ := bind_eq_ok.mp hrun
    obtain ⟨hsend, hsends⟩ := List.forall_mem_cons.mp hto
    exact ih (h.send hw₀ hl₀ h0 hsend hs₁).1 hsends hrun

/-- So does a call of `handle_msg`. -/
theorem Tending.handleMsgBytes (hw₀ : w₀.WF) (hl₀ : l₀ ∈ w₀.links) (h0 : l₀.toaddr = 0)
    (h : Tending w₀ l₀ ctx p n) {readbuf : Buffer} {msglen : ℕ} {env : MsgEnv}
    (hmsg : handleMsgBytes p n (n.memory.ctx ctx).fromaddr readbuf msglen env = .ok (p', n')) :
    Tending w₀ l₀ ctx p' n' ∧ ∃ sends calls', (∀ x ∈ sends, x.toaddr ≠ 0) ∧
      TinyMsg.run (traced sendPeerMsg sendEvents) ((n, env.calls), []) sends =
        .ok ((n', calls'),
          handleEvents p n (n.memory.ctx ctx).fromaddr readbuf msglen env) := by
  have hfrom : hostAddrAddr (n.memory.ctx ctx).fromaddr ≠ 0 := by
    have hlink : (n.memory.ctx ctx).fromaddr = l₀.fromaddr := congrArg Link.fromaddr h.link
    rw [hlink]
    exact (hw₀.incoming l₀ hl₀ h0).2.2
  have hserving := h.toServing.handleMsgBytes hw₀ h0 hfrom hmsg
  obtain ⟨sends, calls', hto, htrace⟩ := handleMsgBytes_traced h.peers h.addressed hfrom hmsg
  have hafter := h.run hw₀ hl₀ h0 (s := (n, env.calls)) hto (run_of_traced htrace)
  exact ⟨⟨hserving, hafter.apart⟩, sends, calls', hto, htrace⟩

/-- What storing the `readbuf` and calling `handle_msg` keep true along the record, the loop over
the received bytes keeps true. -/
theorem Tending.frameLoop (hw₀ : w₀.WF) (hl₀ : l₀ ∈ w₀.links) (h0 : l₀.toaddr = 0) {fd : ℕ}
    {I : Net → List LoopEvent → Prop}
    (hput : ∀ p n buf msglen evs, Tending w₀ l₀ ctx p n → I n evs →
      I { n with memory := n.memory.putReadbuf ctx buf msglen } evs)
    (hmsg : ∀ p n n' calls calls' sends message trace evs, Tending w₀ l₀ ctx p n →
      (∀ x ∈ sends, x.toaddr ≠ 0) →
      TinyMsg.run (traced sendPeerMsg sendEvents) ((n, calls), []) sends =
        .ok ((n', calls'), trace) →
      I n evs → I n' (evs ++ .dispatched fd message :: trace))
    {fuel : ℕ} {envs : List MsgEnv} {readEof readEof' : Bool} {evs : List LoopEvent}
    (h : Tending w₀ l₀ ctx p n) (hI : I n evs)
    (hloop : trackerFrameLoop ctx fuel envs readEof p n = .ok (p', n', readEof')) :
    Tending w₀ l₀ ctx p' n' ∧ I n' (evs ++ frameLoopEvents fd ctx fuel envs p n) := by
  induction fuel generalizing envs readEof p n evs with
  | zero =>
    obtain ⟨rfl, hrest⟩ := Prod.mk.inj (Except.ok.inj hloop)
    obtain ⟨rfl, -⟩ := Prod.mk.inj hrest
    rw [frameLoopEvents, List.append_nil]
    exact ⟨h, hI⟩
  | succ fuel ih =>
    rw [trackerFrameLoop] at hloop
    rw [frameLoopEvents]
    dsimp only at hloop ⊢
    have hstop : trackerFrameLoop ctx 0 envs readEof p n = .ok (p', n', readEof') →
        Tending w₀ l₀ ctx p' n' ∧ I n' (evs ++ []) := by
      intro heq
      obtain ⟨rfl, hrest⟩ := Prod.mk.inj (Except.ok.inj heq)
      obtain ⟨rfl, -⟩ := Prod.mk.inj hrest
      rw [List.append_nil]
      exact ⟨h, hI⟩
    by_cases hlen : (n.memory.ctx ctx).msglen = 0
    · rw [if_pos hlen] at hloop ⊢
      by_cases htwo : 2 ≤ (n.memory.buffer (n.memory.ctx ctx).readbuf).len
      · rw [if_pos htwo] at hloop ⊢
        by_cases hzero : prefixLen (n.memory.buffer (n.memory.ctx ctx).readbuf) = 0
        · rw [if_pos hzero] at hloop ⊢
          obtain ⟨rfl, hrest⟩ := Prod.mk.inj (Except.ok.inj hloop)
          obtain ⟨rfl, -⟩ := Prod.mk.inj hrest
          rw [List.append_nil]
          exact ⟨h, hI⟩
        · rw [if_neg hzero] at hloop ⊢
          exact ih (h.putReadbuf _ _) (hput _ _ _ _ _ h hI) hloop
      · rw [if_neg htwo] at hloop ⊢
        exact hstop hloop
    · rw [if_neg hlen] at hloop ⊢
      by_cases hbody : (n.memory.ctx ctx).msglen ≤
          (n.memory.buffer (n.memory.ctx ctx).readbuf).len
      · rw [if_pos hbody] at hloop ⊢
        obtain ⟨⟨p₁, n₁⟩, hhandle, hloop⟩ := bind_eq_ok.mp hloop
        obtain ⟨hafter, sends, calls', hto, htrace⟩ := h.handleMsgBytes hw₀ hl₀ h0 hhandle
        have hI₁ := hmsg _ _ _ _ _ _
          ((n.memory.buffer (n.memory.ctx ctx).readbuf).bs.take (n.memory.ctx ctx).msglen,
            (n.memory.ctx ctx).msglen) _ _ h hto htrace hI
        have hnext := ih (hafter.putReadbuf _ _) (hput _ _ _ _ _ hafter hI₁) hloop
        rw [hhandle]
        simpa only [List.append_assoc, List.cons_append] using hnext
      · rw [if_neg hbody] at hloop ⊢
        exact hstop hloop

end Tending

/-- What the branch for received bytes has done for the context `c` at the pointer `ctx`: `readbuf`
is what has arrived, and `n` is what the loop over it leaves. -/
structure Tracker.Reading (t : Tracker) (a : Answers) (t' : Tracker) (c : SocketCtx) (ctx : CtxPtr)
    (readbuf : Buffer) (p : Peers) (n : Net) (readEof : Bool) : Prop where
  /-- The context is one of the array. -/
  mem : c ∈ t.contexts
  /-- The context is for the descriptor. -/
  fd : c.fd = t.i
  /-- The connection was accepted. -/
  toaddr : c.link.toaddr = 0
  /-- The pointer leads into the array as it was. -/
  block : ctx.block = t.net.socketctxs.items
  /-- What is received is appended. -/
  readbuf_eq : readbuf = (netRecv a.recvs (t.net.memory.buffer c.readbuf)).2
  /-- The blocks are apart. -/
  tending : Tending t.watch c.link ctx t.peers t.net
  /-- What is seen of the branch. -/
  events : readEvents t a = .received t.i (received a.recvs) ::
    frameLoopEvents t.i ctx (readbuf.len + 1) a.msgs t.peers
      { t.net with memory := t.net.memory.putReadbuf ctx readbuf c.msglen }
  /-- The loop over the received bytes. -/
  loop : trackerFrameLoop ctx (readbuf.len + 1) a.msgs
    ((netRecv a.recvs (t.net.memory.buffer c.readbuf)).1 = 0) t.peers
    { t.net with memory := t.net.memory.putReadbuf ctx readbuf c.msglen } = .ok (p, n, readEof)
  /-- At the end of the stream the connection is closed. -/
  closed : readEof = true → n.Closed t'.net c.fd
  /-- Otherwise it goes on. -/
  goesOn : readEof = false → t'.net = n

/-- The branch for received bytes. -/
theorem readBranch_reading {t t' : Tracker} {a : Answers} {goOn : Bool} (ht : t.WF)
    (hapart : t.net.memory.Apart t.contexts) (hi : t.i ∈ t.readfds) (hne : t.i ≠ t.listenfd)
    (h : readBranch t a = .ok (t', goOn)) :
    ∃ c ctx readbuf p n readEof, t.Reading a t' c ctx readbuf p n readEof := by
  have hfind : socketCtxFindByFd t.net.memory t.net.socketctxs t.i =
      .ok ((t.contexts.findIdx? fun c => c.fd = t.i).map fun i => ⟨t.net.socketctxs.items, i⟩) :=
    socketCtxFindByFd_eq _ _ _
  obtain ⟨l, hl, hlfd, hzero⟩ := (ht.watch.readfds t.i hi).resolve_left hne
  cases hidx : t.contexts.findIdx? fun c => c.fd = t.i with
  | none =>
    obtain ⟨d, hd, rfl⟩ := List.mem_map.mp hl
    exact absurd hlfd (lookup_eq_none_iff.mp (findIdx?_eq_none_iff_lookup.mp hidx) d hd)
  | some i =>
    obtain ⟨hlt, hvalid, hctx, hfd, hl₀⟩ := ht.found hidx
    obtain ⟨c, hc⟩ : ∃ c, c = t.contexts[i] := ⟨_, rfl⟩
    have hmem : c ∈ t.contexts := hc ▸ List.getElem_mem hlt
    rw [← hc] at hctx hfd hl₀
    have h0 : c.link.toaddr = 0 := by
      have hsame := ht.watch.link_inj hl hl₀ (hlfd.trans hfd.symm)
      exact hsame ▸ hzero
    obtain ⟨ctx, hptr⟩ : ∃ ctx : CtxPtr, ctx = ⟨t.net.socketctxs.items, i⟩ := ⟨_, rfl⟩
    obtain ⟨readbuf, hreadbuf⟩ : ∃ readbuf,
      readbuf = (netRecv a.recvs (t.net.memory.buffer c.readbuf)).2 := ⟨_, rfl⟩
    rw [← hptr] at hvalid hctx
    have hevents : readEvents t a = .received t.i (received a.recvs) ::
        frameLoopEvents t.i ctx (readbuf.len + 1) a.msgs t.peers
          { t.net with memory := t.net.memory.putReadbuf ctx readbuf c.msglen } := by
      rw [readEvents, hfind, hidx, Option.map_some, ← hptr, hreadbuf, ← hctx]
    rw [readBranch, hfind, ok_bind, hidx, Option.map_some, ← hptr] at h
    dsimp only at h
    rw [hctx, ← hreadbuf] at h
    have htending : Tending t.watch c.link ctx t.peers t.net := by
      refine ⟨⟨ht.peers, ht.addressed, ht.array, .refl _, hvalid, by rw [hctx]⟩, ?_⟩
      refine hapart.mono le_rfl fun d hd => ?_
      rcases List.mem_cons.mp hd with rfl | hd
      · exact hctx ▸ hmem
      · exact hd
    obtain ⟨⟨p, n, readEof⟩, hloop, h⟩ := bind_eq_ok.mp h
    have hserving :=
      (htending.putReadbuf readbuf c.msglen).toServing.frameLoop ht.watch hl₀ h0 hloop
    refine ⟨c, ctx, readbuf, p, n, readEof, hmem, hfd, h0, by rw [hptr], hreadbuf, htending,
      hevents, hloop, ?_, ?_⟩
    · rintro rfl
      obtain ⟨readfds, -, h⟩ := bind_eq_ok.mp h
      obtain ⟨n', hclose, heq⟩ := bind_eq_ok.mp h
      obtain ⟨rfl, -⟩ := Prod.mk.inj (Except.ok.inj heq)
      obtain ⟨n₁, hclose₁, hclosed⟩ := hserving.closed ht.watch hl₀ h0
      obtain rfl := Except.ok.inj (hclose.symm.trans hclose₁)
      exact hclosed
    · rintro rfl
      obtain ⟨rfl, -⟩ := Prod.mk.inj (Except.ok.inj h)
      rfl

/-! ## The steps of the loop -/

/-- What a step of the loop is, with what is seen of it. -/
inductive Tracker.Stepped (t : Tracker) (a : Answers) : Tracker → List LoopEvent → Prop
  /-- `select()`, or a visit to a descriptor that is not ready. -/
  | idle {t' : Tracker} (hnet : t'.net = t.net) : Stepped t a t' []
  /-- A visit to `listenfd`. -/
  | accept {t' : Tracker} {goOn : Bool} (h : acceptBranch t a = .ok (t', goOn)) :
    Stepped t a { t' with i := t'.i + 1 } (acceptEvents a)
  /-- A visit to a socket that bytes have arrived at. -/
  | read {t' : Tracker} {goOn : Bool} (hi : t.i ≤ t.net.maxfd) (hmem : t.i ∈ t.tmpReadfds)
    (hread : t.i ∈ t.readfds) (hne : t.i ≠ t.listenfd) (h : readBranch t a = .ok (t', goOn)) :
    Stepped t a { t' with i := t'.i + 1 } (readEvents t a)
  /-- A visit to a socket that takes bytes again. -/
  | write {t' : Tracker} (hwrite : t.i ∈ t.net.writefds) (h : writeBranch t a = .ok t') :
    Stepped t a { t' with i := t'.i + 1 } []

section Stepped

variable {t t' : Tracker} {a : Answers} {goOn : Bool}

/-- A step of the loop is one of these. -/
theorem loopStep_stepped (ht : t.WF) (h : loopStep t a = .ok t') :
    t.Stepped a t' (loopEvents t a) := by
  unfold loopStep at h
  unfold loopEvents
  by_cases hi : t.i ≤ t.net.maxfd
  case neg =>
    rw [if_neg hi] at h
    obtain rfl := Except.ok.inj h
    rw [if_neg fun hboth => hi hboth.1]
    exact .idle rfl
  rw [if_pos hi, trackerVisit] at h
  by_cases hmem : t.i ∈ t.tmpReadfds
  · rw [if_pos hmem] at h
    rw [if_pos ⟨hi, hmem⟩]
    have hread := (ht.scan t.i le_rfl).1 hmem
    -- what is watched for reading is not watched for writing
    have hend : ∀ {t₁ : Tracker} {goOn : Bool}, t.Branched t₁ →
        (if goOn = true ∧ t₁.i ∈ t₁.tmpWritefds then do
          let t ← writeBranch t₁ a
          .ok { t with i := t.i + 1 }
        else .ok { t₁ with i := t₁.i + 1 }) = Except.ok t' → { t₁ with i := t₁.i + 1 } = t' := by
      intro t₁ goOn hbranched hrest
      have hwrite : ¬ (goOn = true ∧ t₁.i ∈ t₁.tmpWritefds) := by
        rw [hbranched.i, hbranched.tmpWritefds]
        rintro ⟨-, hboth⟩
        exact ht.watch.notMem_readfds ((ht.scan t.i le_rfl).2 hboth) hread
      rw [if_neg hwrite] at hrest
      exact Except.ok.inj hrest
    by_cases hlisten : t.i = t.listenfd
    · rw [if_pos hlisten] at h ⊢
      obtain ⟨⟨t₁, goOn⟩, hbranch, hrest⟩ := bind_eq_ok.mp h
      obtain rfl := hend (acceptBranch_ok ht hbranch).1 hrest
      exact .accept hbranch
    · rw [if_neg hlisten] at h ⊢
      obtain ⟨⟨t₁, goOn⟩, hbranch, hrest⟩ := bind_eq_ok.mp h
      obtain rfl := hend (readBranch_ok ht hread hlisten hbranch).1 hrest
      exact .read hi hmem hread hlisten hbranch
  · rw [if_neg hmem, ok_bind] at h
    rw [if_neg fun hboth => hmem hboth.2]
    replace h : (if true = true ∧ t.i ∈ t.tmpWritefds then do
        let t ← writeBranch t a
        .ok { t with i := t.i + 1 }
      else .ok { t with i := t.i + 1 }) = Except.ok t' := h
    by_cases hwrite : t.i ∈ t.tmpWritefds
    · rw [if_pos ⟨rfl, hwrite⟩] at h
      obtain ⟨t₁, hbranch, heq⟩ := bind_eq_ok.mp h
      obtain rfl := Except.ok.inj heq
      exact .write ((ht.scan t.i le_rfl).2 hwrite) hbranch
    · rw [if_neg fun hboth => hwrite hboth.2] at h
      obtain rfl := Except.ok.inj h
      exact .idle rfl

end Stepped

end TinyMsg
