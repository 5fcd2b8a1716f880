import TinyMsg.Cnet.Io
import TinyMsg.Cnet.Pack
import TinyMsg.Lib.Triple
import TinyMsg.Tracker.Memory
import TinyMsg.Tracker.Messages

/-!
# The sockets of the tracker

`send_msg_to_hostaddr` either appends a message to the `writebuf` of a context that is there for
the address, or connects, sends what it can at once and makes a context for the rest.  The results
of the system calls that connecting takes are a `ConnectCall`; calls beyond the list find that
`socket()` fails.

The open descriptors are tracked, so that a new descriptor is one that is not open.  The bytes that
the kernel took are kept for each descriptor, from the moment it was opened.

`Net.WF` is what the tracker keeps true of the contexts whatever it is sent: with it no `assert()`
that `send_msg_to_hostaddr` reaches can fail, because descriptors fit an `fd_set`.
-/

namespace TinyMsg

/-! ## Descriptor sets -/

/-- `FD_SETSIZE` -/
def fdSetSize : ℕ := 1024

/-- `FD_SET` -/
def fdSet (fd : ℕ) (fds : Finset ℕ) : Exec (Finset ℕ) :=
  if fd < fdSetSize then .ok (insert fd fds) else .error .undefined

/-- `FD_CLR` -/
def fdClr (fd : ℕ) (fds : Finset ℕ) : Exec (Finset ℕ) :=
  if fd < fdSetSize then .ok (fds.erase fd) else .error .undefined

theorem fdSet_ok {fd : ℕ} {fds fds' : Finset ℕ} (h : fdSet fd fds = .ok fds') :
    fd < fdSetSize ∧ fds' = insert fd fds := by
  unfold fdSet at h
  split at h
  case isTrue hlt => exact ⟨hlt, (Except.ok.inj h).symm⟩
  case isFalse => cases h

theorem fdClr_ok {fd : ℕ} {fds fds' : Finset ℕ} (h : fdClr fd fds = .ok fds') :
    fds' = fds.erase fd := by
  unfold fdClr at h
  split at h
  case isTrue => exact (Except.ok.inj h).symm
  case isFalse => cases h

/-! ## Sending -/

/-- What `handle_msg` works on besides the peer table: the contexts, the descriptors watched for
writing, and the sockets of the process. -/
structure Net where
  /-- The arena of the contexts. -/
  memory : Memory
  /-- `socketctxs` -/
  socketctxs : ArrayRef
  /-- `writefds` -/
  writefds : Finset ℕ
  /-- `maxfd` -/
  maxfd : ℕ
  /-- The open descriptors. -/
  fds : Finset ℕ
  /-- The bytes that the kernel took on each descriptor since it was opened. -/
  accepted : ℕ → List UInt8

/-- The sockets when the loop of the tracker starts: `listenfd` is open, and other descriptors. -/
def netInit (listenfd : ℕ) (fds : Finset ℕ) : Net where
  memory := (memoryNew.arrayNew 64).1
  socketctxs := (memoryNew.arrayNew 64).2
  writefds := ∅
  maxfd := listenfd
  fds := insert listenfd fds
  accepted := fun _ => []

/-- The contexts, in order. -/
def Net.contexts (n : Net) : List SocketCtx := n.memory.list n.socketctxs

/-- A new descriptor; the kernel hands out one that is not open. -/
def Net.openFd (n : Net) (fd : ℕ) : Exec Net :=
  if fd ∈ n.fds then .error .kernel
  else .ok { n with fds := insert fd n.fds, accepted := Function.update n.accepted fd [] }

/-- `ShutdownSocket` -/
def Net.shutdownSocket (n : Net) (fd : ℕ) : Net := { n with fds := n.fds.erase fd }

/-- `NetSend2`: the value returned, and the buffer. -/
def netSend2 (n : Net) (fd : ℕ) (rs : List SendResult) (buf : Buffer) :
    Exec (Net × ℤ × Buffer) := do
  let s := netSend rs buf
  let n := { n with accepted := Function.update n.accepted fd (n.accepted fd ++ s.accepted) }
  if s.ret = 0 then
    let writefds ← fdClr fd n.writefds
    .ok ({ n with writefds := writefds }, s.ret, s.buf)
  else if s.ret = 1 then
    let writefds ← fdSet fd n.writefds
    .ok ({ n with writefds := writefds, maxfd := max n.maxfd fd }, s.ret, s.buf)
  else .ok (n, s.ret, s.buf)

/-- The results of the system calls that `send_msg_to_hostaddr` makes to reach a new address. -/
structure ConnectCall where
  /-- The new descriptor, if `socket()` succeeds. -/
  socket : Option ℕ
  /-- `connect()` succeeds. -/
  connect : Bool
  /-- The results of `send()`. -/
  sends : List SendResult

/-- `BufferAppend` to the `writebuf` of the context at `p`. -/
def Memory.appendWritebuf (m : Memory) (p : CtxPtr) (bytes : List UInt8) : Memory :=
  let ctx := m.ctx p
  let (m, writebuf) := m.putBuffer ctx.writebuf (bufferAppend (m.buffer ctx.writebuf) bytes)
  m.setCtx p { ctx with writebuf := writebuf }

/-- The end of `send_msg_to_hostaddr`: a context for what `sendbuf` still holds. -/
def sendLater (n : Net) (destfd : ℕ) (toaddr : HostAddr) (sendbuf : Buffer) : Exec Net := do
  let (m, ctxs, ctx) ← socketCtxNew n.memory n.socketctxs destfd 0 toaddr 1 64
  let m := m.appendWritebuf ctx sendbuf.contents
  let writefds ← fdSet destfd n.writefds
  .ok { n with memory := m, socketctxs := ctxs, writefds := writefds, maxfd := max n.maxfd destfd }

/-- `send_msg_to_hostaddr` to an address that has no context, with the value it returns. -/
def connectAndSend (n : Net) (call : ConnectCall) (msgbytes : List UInt8) (toaddr : HostAddr) :
    Exec (Net × ℤ) :=
  match call.socket with
  | none => .ok (n, -1)
  | some destfd => do
    let n ← n.openFd destfd
    if call.connect = false then .ok (n.shutdownSocket destfd, -1)
    else
      -- Send bytes
      let sendbuf := bufferAppend (bufferNew msgbytes.length) msgbytes
      let (n, z, sendbuf) ← netSend2 n destfd call.sends sendbuf
      if z = -1 then .ok (n.shutdownSocket destfd, -1)
      else if z = 0 then .ok (n.shutdownSocket destfd, 0)
      else
        let n ← if z = 1 then sendLater n destfd toaddr sendbuf else .ok n
        .ok (n, 0)

/-- `send_msg_to_hostaddr`, with the calls that are left for later and the value it returns. -/
def sendMsgToHostaddr (n : Net) (calls : List ConnectCall) (msgbytes : List UInt8)
    (toaddr : HostAddr) : Exec (Net × List ConnectCall × ℤ) := do
  match ← socketCtxFindByToaddr n.memory n.socketctxs toaddr with
  | some ctx => .ok ({ n with memory := n.memory.appendWritebuf ctx msgbytes }, calls, 1)
  | none =>
    match calls with
    | [] => .ok (n, [], -1)
    | call :: calls =>
      let (n, z) ← connectAndSend n call msgbytes toaddr
      .ok (n, calls, z)

/-- `SocketCtx_close_and_remove` -/
def socketCtxCloseAndRemove (n : Net) (ctx : CtxPtr) : Exec Net := do
  let fd := (n.memory.ctx ctx).fd
  let n := n.shutdownSocket fd
  let (m, ctxs) ← socketCtxRemove n.memory n.socketctxs fd
  .ok { n with memory := m, socketctxs := ctxs }

/-! ## The messages to the peers -/

/-- The format of a message. -/
def PeerMsg.fmt : PeerMsg → List UInt8
  | .online .. => Fmt.peerOnline
  | .offline _ => Fmt.peerOffline

/-- The arguments of a message. -/
def PeerMsg.args : PeerMsg → List Arg
  | .online aliasStr hostname fromaddr toaddr =>
    [.num MsgNo.peerOnline, .str aliasStr, .str hostname, .num fromaddr, .num toaddr]
  | .offline fromaddr => [.num MsgNo.peerOffline, .num fromaddr]

/-- The bytes of a message that `send_msg_to_hostaddr` is called with: its `msglen` is a `u16`.
For every call `sendbuf` is new, or `BufferClear` has emptied it. -/
def packPeerMsg (msg : PeerMsg) : Exec (List UInt8) := do
  let (sendbuf, _) ← netPackLenV (bufferNew 1024) msg.fmt msg.args
  .ok (sendbuf.contents.take (sendbuf.len % 2 ^ 16))

/-- The call of `send_msg_to_hostaddr` that `handle_msg` makes. -/
def sendPeerMsg (s : Net × List ConnectCall) (send : Send) : Exec (Net × List ConnectCall) := do
  let msgbytes ← packPeerMsg send.msg
  let (n, calls, _) ← sendMsgToHostaddr s.1 s.2 msgbytes send.toaddr
  .ok (n, calls)

/-! ## What the functions do -/

/-- What the tracker keeps true of its sockets. -/
structure Net.WF (n : Net) : Prop where
  /-- The array of contexts is in order. -/
  array : n.memory.ArrayWF n.socketctxs
  /-- No two contexts have the same descriptor. -/
  fds_nodup : (n.contexts.map SocketCtx.fd).Nodup
  /-- The descriptors of the contexts are open. -/
  fds_open : ∀ c ∈ n.contexts, c.fd ∈ n.fds
  /-- They fit an `fd_set`. -/
  fd_lt : ∀ c ∈ n.contexts, c.fd < fdSetSize
  /-- The descriptors watched for writing are open. -/
  writefds_open : n.writefds ⊆ n.fds

/-- The reason is not a failed assertion. -/
def NoAssertion (e : Fault) : Prop := e ≠ .assertion

section Spec

variable {n n' : Net} {m m' : Memory} {a : ArrayRef} {p : CtxPtr} {c : SocketCtx} {fd : ℕ}
  {toaddr : HostAddr}

/-- There are no more contexts than descriptors that fit an `fd_set`. -/
theorem Net.WF.len_le (hn : n.WF) : n.socketctxs.len ≤ fdSetSize := by
  have hsub : (n.contexts.map SocketCtx.fd).toFinset ⊆ Finset.range fdSetSize := fun fd hfd => by
    obtain ⟨c, hc, rfl⟩ := List.mem_map.mp (List.mem_toFinset.mp hfd)
    exact Finset.mem_range.mpr (hn.fd_lt c hc)
  have hcard := Finset.card_le_card hsub
  rwa [List.toFinset_card_of_nodup hn.fds_nodup, List.length_map, Finset.card_range,
    Net.contexts, Memory.length_list] at hcard

/-- What `NetSend2` does. -/
structure NetSent (n n' : Net) (fd : ℕ) (rs : List SendResult) (buf : Buffer) : Prop where
  /-- The contexts are not touched. -/
  memory : n'.memory = n.memory
  /-- The contexts are not touched. -/
  socketctxs : n'.socketctxs = n.socketctxs
  /-- No descriptor is opened or closed. -/
  fds : n'.fds = n.fds
  /-- The descriptor is watched for writing when bytes are left, and no longer when none are. -/
  writefds : n'.writefds =
    if (netSend rs buf).ret = 0 then n.writefds.erase fd
    else if (netSend rs buf).ret = 1 then insert fd n.writefds else n.writefds
  /-- `select()` is told of the descriptor when bytes are left. -/
  maxfd : n'.maxfd = if (netSend rs buf).ret = 1 then max n.maxfd fd else n.maxfd
  /-- A descriptor that is watched fits the set. -/
  fd_lt : (netSend rs buf).ret = 1 → fd < fdSetSize
  /-- The kernel took bytes. -/
  accepted : n'.accepted =
    Function.update n.accepted fd (n.accepted fd ++ (netSend rs buf).accepted)

@[simp] theorem netInit_contexts (listenfd : ℕ) (fds : Finset ℕ) :
    (netInit listenfd fds).contexts = [] := rfl

theorem arrayNew_arrayWF (m : Memory) {cap : UInt16} (h : cap ≠ 0) :
    (m.arrayNew cap).1.ArrayWF (m.arrayNew cap).2 := by
  have hcap : 0 < (TinyMsg.arrayNew cap : Array SocketCtx).cap := by
    change 0 < if cap = 0 then 32 else cap.toNat
    rw [if_neg h]
    exact Nat.pos_of_ne_zero fun hzero => h (UInt16.toNat_inj.mp hzero)
  refine ⟨Nat.lt_add_of_pos_right (Nat.mul_pos (by decide) hcap), ?_, hcap⟩
  simp [Memory.arrayNew, Memory.allocArray, (TinyMsg.arrayNew cap).items_length]

theorem netInit_wf (listenfd : ℕ) (fds : Finset ℕ) : (netInit listenfd fds).WF where
  array := arrayNew_arrayWF memoryNew (by decide)
  fds_nodup := List.nodup_nil
  fds_open := fun _ hc => absurd hc List.not_mem_nil
  fd_lt := fun _ hc => absurd hc List.not_mem_nil
  writefds_open := Finset.empty_subset _

/-- `NetSend2` fails no assertion. -/
theorem netSend2_meets (n : Net) (fd : ℕ) (rs : List SendResult) (buf : Buffer) :
    Meets (netSend2 n fd rs buf) (fun r =>
      NetSent n r.1 fd rs buf ∧ r.2 = ((netSend rs buf).ret, (netSend rs buf).buf))
      NoAssertion := by
  unfold netSend2
  refine Meets.ite (fun hz => ?_) fun hz => Meets.ite (fun hone => ?_) fun hone => ?_
  · unfold fdClr
    split
    · exact ⟨⟨rfl, rfl, rfl, by simp [hz], by simp [hz], by simp [hz], rfl⟩, rfl⟩
    · exact Fault.noConfusion
  · unfold fdSet
    split
    case isTrue hlt =>
      exact ⟨⟨rfl, rfl, rfl, by simp [hone], by simp [hone], fun _ => hlt, rfl⟩, rfl⟩
    case isFalse => exact Fault.noConfusion
  · exact ⟨⟨rfl, rfl, rfl, by simp [hz, hone], by simp [hone], fun h => absurd h hone, rfl⟩, rfl⟩

/-- `NetSend2` comes back for a descriptor that fits an `fd_set`. -/
theorem netSend2_ok (n : Net) (hlt : fd < fdSetSize) (rs : List SendResult) (buf : Buffer) :
    ∃ n', netSend2 n fd rs buf = .ok (n', (netSend rs buf).ret, (netSend rs buf).buf) ∧
      NetSent n n' fd rs buf := by
  have hmeets := netSend2_meets n fd rs buf
  cases hrun : netSend2 n fd rs buf with
  | ok r =>
    obtain ⟨n', z, buf'⟩ := r
    obtain ⟨hsent, hres⟩ := hmeets.of_ok hrun
    obtain ⟨rfl, rfl⟩ := Prod.mk.inj hres
    exact ⟨n', rfl, hsent⟩
  | error e =>
    -- neither `FD_SET` nor `FD_CLR` stops
    simp only [netSend2, fdSet, fdClr, if_pos hlt, ok_bind] at hrun
    split at hrun
    · cases hrun
    · split at hrun <;> cases hrun

/-- `NetSend2` on an open descriptor keeps the sockets in order. -/
theorem NetSent.wf {rs : List SendResult} {buf : Buffer} (hn : n.WF) (hfd : fd ∈ n.fds)
    (h : NetSent n n' fd rs buf) : n'.WF := by
  have hctxs : n'.contexts = n.contexts := by rw [Net.contexts, h.memory, h.socketctxs]; rfl
  refine ⟨?_, hctxs ▸ hn.fds_nodup, ?_, hctxs ▸ hn.fd_lt, ?_⟩
  · rw [h.memory, h.socketctxs]
    exact hn.array
  · rw [hctxs, h.fds]
    exact hn.fds_open
  · rw [h.writefds, h.fds]
    split
    · exact (Finset.erase_subset _ _).trans hn.writefds_open
    · split
      · exact Finset.insert_subset hfd hn.writefds_open
      · exact hn.writefds_open

/-- Appending to a `writebuf` is a write through the pointer, after an allocation. -/
theorem Memory.appendWritebuf_eq (m : Memory) (p : CtxPtr) (bytes : List UInt8) :
    ∃ (m₁ : Memory) (writebuf : BufferRef),
      m.appendWritebuf p bytes = m₁.setCtx p { m.ctx p with writebuf := writebuf } ∧
      m₁.ctxs = m.ctxs ∧ m.pos ≤ m₁.pos ∧
      writebuf.len = (m.ctx p).writebuf.len + bytes.length :=
  ⟨_, _, rfl, m.putBuffer_ctxs _ _, m.pos_le_putBuffer _ _, m.putBuffer_len _ _⟩

/-- The rest of a message goes to a new context. -/
structure SendLater (n n' : Net) (c : SocketCtx) (destfd : ℕ) (toaddr : HostAddr) (len : ℕ) :
    Prop where
  /-- The descriptor. -/
  fd : c.fd = destfd
  /-- The context is not one of an accepted connection. -/
  fromaddr : c.fromaddr = 0
  /-- The address. -/
  toaddr : c.toaddr = toaddr
  /-- The bytes that are left. -/
  pending : c.writebuf.len = len
  /-- The context is not being closed. -/
  shutRd : c.shutRd = false
  /-- The array is in order. -/
  array : n'.memory.ArrayWF n'.socketctxs
  /-- The context is the last one. -/
  contexts : n'.contexts = n.contexts ++ [c]
  /-- What pointers point to stays. -/
  keeps : n.memory.Keeps n.socketctxs n'.memory n'.socketctxs
  /-- The descriptor fits an `fd_set`. -/
  fd_lt : destfd < fdSetSize
  /-- It is watched for writing. -/
  writefds : n'.writefds = insert destfd n.writefds
  /-- `select()` is told of it. -/
  maxfd : n'.maxfd = max n.maxfd destfd
  /-- No descriptor is opened or closed. -/
  fds : n'.fds = n.fds

theorem sendLater_meets (harray : n.memory.ArrayWF n.socketctxs)
    (hlen : n.socketctxs.len ≤ fdSetSize) (destfd : ℕ) (toaddr : HostAddr) (sendbuf : Buffer) :
    Meets (sendLater n destfd toaddr sendbuf)
      (fun n' => ∃ c, SendLater n n' c destfd toaddr sendbuf.len) NoAssertion := by
  unfold sendLater
  rcases socketCtxNew_cases harray destfd 0 toaddr 1 64 with
    ⟨m, a, p, readbuf, writebuf, hnew, -, hw, hadd⟩ | ⟨-, hfull, hbound⟩
  · rw [hnew, ok_bind]
    obtain ⟨m₁, wb, happ, hctxs, hpos, hwb⟩ := m.appendWritebuf_eq p sendbuf.contents
    have hlive : p.block = a.items := by rw [hadd.ptr]
    have hindex : p.index = n.socketctxs.len := by rw [hadd.ptr]
    have harray₁ := hadd.array.of_ctxs hctxs hpos
    have hlist₁ : m₁.list a = m.list a := Memory.list_congr (by rw [hctxs])
    have hctx : m.ctx p = ctxNew destfd 0 toaddr readbuf writebuf := by
      rw [hadd.array.ctx_live hlive (by simp [hadd.list, hindex])]
      simp [hadd.list, hindex]
    change Meets (fdSet destfd n.writefds >>= _) _ _
    unfold fdSet
    split
    case isFalse => exact Fault.noConfusion
    case isTrue hlt =>
    rw [ok_bind, meets_ok]
    refine ⟨{ m.ctx p with writebuf := wb }, ?_⟩
    rw [happ]
    refine ⟨by rw [hctx]; rfl, by rw [hctx]; rfl, by rw [hctx]; rfl, ?_, by rw [hctx]; rfl,
      harray₁.setCtx _ _, ?_, ?_, hlt, rfl, rfl, rfl⟩
    · rw [hwb, hctx]
      simp [ctxNew, hw]
    · change (m₁.setCtx p _).list a = _
      rw [harray₁.list_setCtx_live hlive, hlist₁, hadd.list, hindex,
        ← n.memory.length_list]
      simp [Net.contexts]
    · intro q hq
      have hne : q ≠ p := fun h => hadd.fresh (h ▸ hq)
      obtain ⟨hq₁, hctx₁⟩ := (hadd.keeps.trans (Memory.keeps_of_ctxs hctxs hpos)) q hq
      exact ⟨hq₁.setCtx _ _, (Memory.ctx_setCtx_ne hne).trans hctx₁⟩
  · rw [hfull] at hlen
    exact absurd hlen (by rw [fdSetSize]; omega)

/-- What `send_msg_to_hostaddr` can do to the sockets. -/
inductive Net.Sent (n n' : Net) (toaddr : HostAddr) : Prop
  /-- The message is appended for a context that is there. -/
  | queued (c : SocketCtx) (writebuf : BufferRef) (hc : c ∈ n.contexts) (haddr : c.toaddr = toaddr)
      (hlen : c.writebuf.len ≤ writebuf.len)
      (contexts : n'.contexts =
        n.contexts.map fun d => if d.fd = c.fd then { d with writebuf := writebuf } else d)
      (writefds : n'.writefds = n.writefds) (maxfd : n'.maxfd = n.maxfd) (fds : n'.fds = n.fds)
  /-- A part of the message is sent, the rest goes to a new context. -/
  | opened (c : SocketCtx) (hnew : c.fd ∉ n.fds) (hlt : c.fd < fdSetSize) (hfrom : c.fromaddr = 0)
      (haddr : c.toaddr = toaddr) (hpending : 0 < c.writebuf.len) (hshut : c.shutRd = false)
      (hfresh : ∀ d ∈ n.contexts, d.toaddr ≠ toaddr) (contexts : n'.contexts = n.contexts ++ [c])
      (writefds : n'.writefds = insert c.fd n.writefds) (maxfd : n'.maxfd = max n.maxfd c.fd)
      (fds : n'.fds = insert c.fd n.fds)
  /-- The message is sent whole, or not at all. -/
  | unchanged (contexts : n'.contexts = n.contexts) (writefds : n'.writefds = n.writefds)
      (maxfd : n'.maxfd = n.maxfd) (fds : n'.fds = n.fds)

/-- What is known after `send_msg_to_hostaddr`. -/
structure Net.AfterSend (n n' : Net) (toaddr : HostAddr) : Prop where
  /-- The sockets are in order. -/
  wf : n'.WF
  /-- One of the three things was done. -/
  sent : n.Sent n' toaddr
  /-- The contexts of other addresses stay, wherever the array is now. -/
  keeps : ∀ q, n.memory.Valid n.socketctxs q → (n.memory.ctx q).toaddr ≠ toaddr →
    n'.memory.Valid n'.socketctxs q ∧ n'.memory.ctx q = n.memory.ctx q

/-- A call that leaves the contexts and the sets as they are. -/
theorem Net.WF.afterSend_unchanged (hn : n.WF) (hmem : n'.memory = n.memory)
    (hctxs : n'.socketctxs = n.socketctxs) (hwrite : n'.writefds = n.writefds)
    (hmax : n'.maxfd = n.maxfd) (hfds : n'.fds = n.fds) : n.AfterSend n' toaddr := by
  have hlist : n'.contexts = n.contexts := by rw [Net.contexts, hmem, hctxs]; rfl
  refine ⟨⟨?_, ?_, ?_, ?_, ?_⟩, .unchanged hlist hwrite hmax hfds, fun q hq _ => ?_⟩
  · rw [hmem, hctxs]
    exact hn.array
  · rw [hlist]
    exact hn.fds_nodup
  · rw [hlist, hfds]
    exact hn.fds_open
  · rw [hlist]
    exact hn.fd_lt
  · rw [hwrite, hfds]
    exact hn.writefds_open
  · rw [hmem, hctxs]
    exact ⟨hq, rfl⟩

/-- A new descriptor is one that was not open. -/
theorem openFd_meets (n : Net) (fd : ℕ) :
    Meets (n.openFd fd) (fun n' => fd ∉ n.fds ∧
      n' = { n with fds := insert fd n.fds, accepted := Function.update n.accepted fd [] })
      NoAssertion := by
  unfold Net.openFd
  split
  case isTrue => exact Fault.noConfusion
  case isFalse hnew => exact ⟨hnew, rfl⟩

/-- A context added for a new descriptor keeps the sockets in order. -/
theorem Net.WF.add (hn : n.WF) (harray : n'.memory.ArrayWF n'.socketctxs)
    (hctxs : n'.contexts = n.contexts ++ [c]) (hnew : c.fd ∉ n.fds) (hlt : c.fd < fdSetSize)
    (hfds : n'.fds = insert c.fd n.fds) (hwrite : n'.writefds ⊆ insert c.fd n.writefds) :
    n'.WF := by
  have hmem : ∀ d ∈ n'.contexts, d ∈ n.contexts ∨ d = c := fun d hd => by
    rw [hctxs] at hd
    exact (List.mem_append.mp hd).imp_right List.mem_singleton.mp
  refine ⟨harray, ?_, fun d hd => ?_, fun d hd => ?_, fun fd hfd => ?_⟩
  · rw [hctxs]
    exact nodup_append_key hn.fds_nodup
      (lookup_eq_none_iff.mpr fun d hd h => hnew (h ▸ hn.fds_open d hd))
  · rw [hfds]
    rcases hmem d hd with hd | rfl
    · exact Finset.mem_insert_of_mem (hn.fds_open d hd)
    · exact Finset.mem_insert_self _ _
  · rcases hmem d hd with hd | rfl
    · exact hn.fd_lt d hd
    · exact hlt
  · rw [hfds]
    exact Finset.insert_subset_insert _ hn.writefds_open (hwrite hfd)

/-- Sending to an address that has no context. -/
theorem connectAndSend_meets (hn : n.WF) (call : ConnectCall) (msgbytes : List UInt8)
    (hfresh : ∀ d ∈ n.contexts, d.toaddr ≠ toaddr) :
    Meets (connectAndSend n call msgbytes toaddr) (fun r => n.AfterSend r.1 toaddr)
      NoAssertion := by
  unfold connectAndSend
  cases call.socket with
  | none => exact hn.afterSend_unchanged rfl rfl rfl rfl rfl
  | some destfd =>
    refine (openFd_meets n destfd).bind fun n₁ ⟨hnew, hn₁⟩ => ?_
    subst hn₁
    have hclosed : (insert destfd n.fds).erase destfd = n.fds := Finset.erase_insert hnew
    have hwrite : n.writefds.erase destfd = n.writefds :=
      Finset.erase_eq_of_notMem fun h => hnew (hn.writefds_open h)
    refine Meets.ite (fun _ => ?_) fun _ => ?_
    · exact hn.afterSend_unchanged rfl rfl rfl rfl hclosed
    refine (netSend2_meets _ _ _ _).bind fun ⟨n₂, z, sendbuf⟩ ⟨hsent, hres⟩ => ?_
    obtain ⟨rfl, rfl⟩ := Prod.mk.inj hres
    have hfds₂ : n₂.fds.erase destfd = n.fds := by rw [hsent.fds]; exact hclosed
    refine Meets.ite (fun hz => ?_) fun _ => Meets.ite (fun hz => ?_) fun hz => ?_
    · refine hn.afterSend_unchanged hsent.memory hsent.socketctxs ?_ ?_ hfds₂
      · change n₂.writefds = _
        rw [hsent.writefds, hz]
        rfl
      · change n₂.maxfd = _
        rw [hsent.maxfd, hz]
        rfl
    · refine hn.afterSend_unchanged hsent.memory hsent.socketctxs ?_ ?_ hfds₂
      · change n₂.writefds = _
        rw [hsent.writefds, if_pos hz]
        exact hwrite
      · change n₂.maxfd = _
        rw [hsent.maxfd, hz]
        rfl
    · obtain ⟨-, hzero, hret⟩ := netSend_spec call.sends
        (bufferAppend (bufferNew msgbytes.length) msgbytes)
      have hone := (hret.resolve_left hz).resolve_right ‹_›
      have harray : n₂.memory.ArrayWF n₂.socketctxs := by
        rw [hsent.memory, hsent.socketctxs]
        exact hn.array
      have hlen : n₂.socketctxs.len ≤ fdSetSize := by
        rw [hsent.socketctxs]
        exact hn.len_le
      have hlist : n₂.contexts = n.contexts := by
        rw [Net.contexts, hsent.memory, hsent.socketctxs]
        rfl
      rw [if_pos hone]
      refine (sendLater_meets harray hlen destfd toaddr _).bind fun n₃ ⟨c, hlater⟩ => ?_
      have hctxs : n₃.contexts = n.contexts ++ [c] := by rw [hlater.contexts, hlist]
      have hwrite₃ : n₃.writefds = insert c.fd n.writefds := by
        rw [hlater.writefds, hsent.writefds, if_neg hz, if_pos hone, hlater.fd]
        exact Finset.insert_idem _ _
      have hfds₃ : n₃.fds = insert c.fd n.fds := by
        rw [hlater.fds, hsent.fds, hlater.fd]
      have hnew' : c.fd ∉ n.fds := by rwa [hlater.fd]
      have hlt : c.fd < fdSetSize := hlater.fd ▸ hlater.fd_lt
      refine ⟨hn.add hlater.array hctxs hnew' hlt hfds₃ hwrite₃.subset,
        .opened c hnew' hlt hlater.fromaddr hlater.toaddr ?_ hlater.shutRd hfresh hctxs hwrite₃ ?_
          hfds₃, fun q hq _ => ?_⟩
      · rw [hlater.pending]
        exact Nat.pos_of_ne_zero fun h => hz (hzero.mpr h)
      · rw [hlater.maxfd, hsent.maxfd, if_pos hone, hlater.fd]
        exact max_eq_left (le_max_right _ _)
      · have hkeep := hlater.keeps q
        rw [hsent.memory, hsent.socketctxs] at hkeep
        exact hkeep hq

/-- Changing one context through a pointer into the array, without changing its descriptor, keeps
the sockets in order. -/
theorem Net.WF.update (hn : n.WF) (n' : Net) {i : ℕ} (hi : i < n.contexts.length)
    {f : SocketCtx → SocketCtx} (hf : ∀ d, (f d).fd = d.fd) (hctxs : m'.ctxs = n.memory.ctxs)
    (hpos : n.memory.pos ≤ m'.pos)
    (hmem : n'.memory = m'.setCtx ⟨n.socketctxs.items, i⟩ (f n.contexts[i]))
    (hsocketctxs : n'.socketctxs = n.socketctxs) (hwrite : n'.writefds = n.writefds)
    (hfds : n'.fds = n.fds) :
    n'.WF ∧
      n'.contexts = n.contexts.map fun d => if d.fd = n.contexts[i].fd then f d else d := by
  have harray := hn.array.of_ctxs hctxs hpos
  have hlist : n'.contexts =
      n.contexts.map fun d => if d.fd = n.contexts[i].fd then f d else d := by
    rw [Net.contexts, hmem, hsocketctxs, harray.list_setCtx_live rfl,
      Memory.list_congr (congrFun hctxs n.socketctxs.items)]
    exact set_eq_map hn.fds_nodup hi rfl f
  have hkey : ∀ d : SocketCtx, (if d.fd = n.contexts[i].fd then f d else d).fd = d.fd := fun d => by
    split
    · exact hf d
    · rfl
  refine ⟨⟨?_, ?_, ?_, ?_, ?_⟩, hlist⟩
  · rw [hmem, hsocketctxs]
    exact harray.setCtx _ _
  · rw [hlist, map_key_map hkey]
    exact hn.fds_nodup
  · rw [hlist, hfds]
    intro d hd
    obtain ⟨c, hc, rfl⟩ := List.mem_map.mp hd
    rw [hkey]
    exact hn.fds_open c hc
  · rw [hlist]
    intro d hd
    obtain ⟨c, hc, rfl⟩ := List.mem_map.mp hd
    rw [hkey]
    exact hn.fd_lt c hc
  · rw [hwrite, hfds]
    exact hn.writefds_open

/-- `send_msg_to_hostaddr` fails no assertion. -/
theorem sendMsgToHostaddr_meets (hn : n.WF) (calls : List ConnectCall) (msgbytes : List UInt8)
    (toaddr : HostAddr) :
    Meets (sendMsgToHostaddr n calls msgbytes toaddr) (fun r => n.AfterSend r.1 toaddr)
      NoAssertion := by
  have hfind : socketCtxFindByToaddr n.memory n.socketctxs toaddr =
      .ok ((n.contexts.findIdx? fun c => c.toaddr = toaddr).map fun i => ⟨n.socketctxs.items, i⟩) :=
    socketCtxFindByToaddr_eq _ _ _
  unfold sendMsgToHostaddr
  rw [hfind, ok_bind]
  cases hi : n.contexts.findIdx? fun c => c.toaddr = toaddr with
  | none =>
    have hfresh : ∀ d ∈ n.contexts, d.toaddr ≠ toaddr :=
      lookup_eq_none_iff.mp (findIdx?_eq_none_iff_lookup.mp hi)
    cases calls with
    | nil => exact hn.afterSend_unchanged rfl rfl rfl rfl rfl
    | cons call calls =>
      exact (connectAndSend_meets hn call msgbytes hfresh).bind fun r hr => hr
  | some i =>
    obtain ⟨hi, -, haddr⟩ := findIdx?_lookup hi
    obtain ⟨m₁, wb, happ, hctxs, hpos, hwb⟩ :=
      n.memory.appendWritebuf_eq ⟨n.socketctxs.items, i⟩ msgbytes
    have hctx : n.memory.ctx ⟨n.socketctxs.items, i⟩ = n.contexts[i] := hn.array.ctx_live rfl hi
    rw [hctx] at happ hwb
    simp only [Option.map_some, happ]
    obtain ⟨hwf, hlist⟩ := hn.update
      { n with memory :=
          m₁.setCtx ⟨n.socketctxs.items, i⟩ { n.contexts[i] with writebuf := wb } }
      hi (f := fun d => { d with writebuf := wb }) (fun d => rfl) hctxs hpos rfl rfl rfl rfl
    refine ⟨hwf, .queued _ wb (List.getElem_mem hi) haddr (by omega) hlist rfl rfl rfl,
      fun q hq hne => ?_⟩
    have hqp : q ≠ ⟨n.socketctxs.items, i⟩ := fun h => hne (by rw [h, hctx]; exact haddr)
    obtain ⟨hq₁, hctx₁⟩ := Memory.keeps_of_ctxs hctxs hpos q hq
    exact ⟨hq₁.setCtx _ _, (Memory.ctx_setCtx_ne hqp).trans hctx₁⟩

/-- The arguments of a message are of the types that its format asks for. -/
theorem PeerMsg.args_typed (msg : PeerMsg) :
    List.Forall₂ ArgTyped (fmtSpecs .none msg.fmt) msg.args := by
  cases msg with
  | online aliasStr hostname fromaddr toaddr =>
    change List.Forall₂ ArgTyped (fmtSpecs .none Fmt.peerOnline) _
    rw [fmtSpecs_peerOnline]
    simp [PeerMsg.args, ArgTyped]
  | offline fromaddr =>
    change List.Forall₂ ArgTyped (fmtSpecs .none Fmt.peerOffline) _
    rw [fmtSpecs_peerOffline]
    simp [PeerMsg.args, ArgTyped]

/-- The messages are packed. -/
theorem packPeerMsg_ok (msg : PeerMsg) : ∃ bytes, packPeerMsg msg = .ok bytes := by
  obtain ⟨sendbuf, hpack, -⟩ := netPackLenV_eq msg.args_typed (bufferNew 1024)
  exact ⟨_, by rw [packPeerMsg, hpack]; rfl⟩

/-- `handle_msg` sends a message without failing an assertion. -/
theorem sendPeerMsg_meets {s : Net × List ConnectCall} (hn : s.1.WF) (send : Send) :
    Meets (sendPeerMsg s send) (fun r => s.1.AfterSend r.1 send.toaddr) NoAssertion := by
  obtain ⟨bytes, hpack⟩ := packPeerMsg_ok send.msg
  rw [sendPeerMsg, hpack, ok_bind]
  exact (sendMsgToHostaddr_meets hn s.2 bytes send.toaddr).bind fun r hr => hr

/-- Where there are no contexts and no descriptors to be had, sending does nothing. -/
theorem sendPeerMsg_unreachable (hn : n.contexts = []) (send : Send) :
    sendPeerMsg (n, []) send = .ok (n, []) := by
  obtain ⟨bytes, hpack⟩ := packPeerMsg_ok send.msg
  have hlist : n.memory.list n.socketctxs = [] := hn
  rw [sendPeerMsg, hpack, ok_bind, sendMsgToHostaddr, socketCtxFindByToaddr_eq, hlist]
  rfl

end Spec

end TinyMsg
