import TinyMsg.Client.Framing
import TinyMsg.Cnet.Decode
import TinyMsg.Tracker.Net

/-!
# The loop of the tracker

`THREAD_wait_for_tcp_messages` waits in `select()` and then visits the descriptors `0..maxfd`.
One step of the model is one `select()` or one visit; what the system calls of a step answer is an
`Answers`.  A `select()` that times out or is interrupted is one after which no descriptor is
ready, and one that fails ends the thread.

In the read branch `socketctx` points into the array of contexts as it was when the descriptor was
looked up.  `handle_msg` may make the array grow and move, and the pointer is used after that, so
all accesses go through the pointer in the arena (`Memory.ctx`, `Memory.setCtx`).

`handle_msg` is given a pointer to the received bytes.  What lies behind them in the arena, and in
the variable `listenport` before it is unpacked, is part of the answers: nothing determines it.
-/

namespace TinyMsg

/-! ## Unpacking -/

/-- What a call of `handle_msg` finds around it. -/
structure MsgEnv where
  /-- The bytes of the arena from the message on, as far as they were not received. -/
  behind : ℕ → UInt8
  /-- The variable `listenport` before it is unpacked. -/
  listenport : UInt16
  /-- The results of the system calls that the sends make. -/
  calls : List ConnectCall

instance : Inhabited MsgEnv := ⟨⟨fun _ => 0, 0, []⟩⟩

/-- The memory that `msgbytes` points to. -/
def msgMemory (readbuf : Buffer) (behind : ℕ → UInt8) (i : ℕ) : UInt8 :=
  readbuf.contents.getD i (behind i)

/-- The memory from a message on holds what is at the front of the buffer. -/
theorem holds_msgMemory (readbuf : Buffer) (behind : ℕ → UInt8) (n : ℕ) :
    Holds (msgMemory readbuf behind) 0 (readbuf.contents.take n) := by
  rw [Holds, bytesAt]
  refine List.ext_getElem (by simp) fun i hi hi' => ?_
  have hlt : i < readbuf.contents.length := by
    rw [List.length_take] at hi'
    omega
  rw [List.getElem_map, List.getElem_range, Nat.zero_add, msgMemory,
    List.getD_eq_getElem _ _ hlt, List.getElem_take]

/-- The message that `handle_msg` unpacks; any other message number is ignored.  An output
variable that `NetUnpack` does not write keeps its value. -/
def unpackTrackerMsg (msgbytes : ℕ → UInt8) (msglen : ℕ) (listenport : UInt16) :
    Option TrackerMsg :=
  let msgno := (msgbytes 0).toNat
  if msgno = MsgNo.knock then
    let fields := (netUnpack msgbytes msglen Fmt.knock).fields
    some (.knock (fields.getD 1 (.str stringNew0)).asStr.cstr
      (fields.getD 2 (.str stringNew0)).asStr.cstr
      (UInt16.ofNat (fields.getD 3 (.num listenport.toNat)).asNum))
  else if msgno = MsgNo.bye then some .bye
  else none

/-- A KNOCK that is long enough is unpacked to its values. -/
theorem unpackTrackerMsg_knock {mem : ℕ → UInt8} {body aliasBytes hostname : List UInt8} {port : ℕ}
    (hmem : Holds mem 0 body) (hdec : decode .none Fmt.knock body =
      some [.num MsgNo.knock, .str aliasBytes, .str hostname, .num port]) (listenport : UInt16) :
    unpackTrackerMsg mem body.length listenport =
      some (.knock (CStr.ofBytes aliasBytes) (CStr.ofBytes hostname) (UInt16.ofNat port)) := by
  have hmsgno : (mem 0).toNat = MsgNo.knock :=
    (Value.num.inj (Option.some.inj (decode_byte hdec hmem))).symm
  have hinit : List.Forall₂ FreshOutput (fmtSpecs .none Fmt.knock)
      [.num 0, .str stringNew0, .str stringNew0, .num listenport.toNat] := by
    rw [fmtSpecs_knock]
    exact .cons trivial (.cons rfl (.cons rfl (.cons trivial .nil)))
  have halias := netUnpack_value hdec hinit hmem (k := 1) rfl rfl
  have hhostname := netUnpack_value hdec hinit hmem (k := 2) rfl rfl
  have hport := netUnpack_value hdec hinit hmem (k := 3) rfl rfl
  simp only [unpackTrackerMsg, if_pos hmsgno, halias.asStr_cstr, hhostname.asStr_cstr, hport.asNum]

/-- `handle_msg` of the tracker, given the received bytes. -/
def handleMsgBytes (p : Peers) (n : Net) (fromaddr : HostAddr) (readbuf : Buffer) (msglen : ℕ)
    (env : MsgEnv) : Exec (Peers × Net) :=
  match unpackTrackerMsg (msgMemory readbuf env.behind) msglen env.listenport with
  | none => .ok (p, n)
  | some m => do
    let (p, n, _) ← handleMsg sendPeerMsg p (n, env.calls) fromaddr m
    .ok (p, n)

/-- `handle_msg` of the tracker, given the received bytes, whatever the sends do. -/
def handleReceived {σ : Type} (send : σ → Send → Exec σ) (p : Peers) (s : σ) (fromaddr : HostAddr)
    (msgbytes : ℕ → UInt8) (msglen : ℕ) (listenport : UInt16) : Exec (Peers × σ) :=
  match unpackTrackerMsg msgbytes msglen listenport with
  | none => .ok (p, s)
  | some m => handleMsg send p s fromaddr m

/-- In the loop the sends go to the sockets. -/
theorem handleMsgBytes_eq (p : Peers) (n : Net) (fromaddr : HostAddr) (readbuf : Buffer)
    (msglen : ℕ) (env : MsgEnv) :
    handleMsgBytes p n fromaddr readbuf msglen env = (do
      let (p, n, _) ← handleReceived sendPeerMsg p (n, env.calls) fromaddr
        (msgMemory readbuf env.behind) msglen env.listenport
      .ok (p, n)) := by
  unfold handleMsgBytes handleReceived
  cases unpackTrackerMsg (msgMemory readbuf env.behind) msglen env.listenport <;> rfl

/-! ## The state and the answers -/

/-- The state of the loop. -/
structure Tracker where
  /-- The peer table. -/
  peers : Peers
  /-- The contexts and the sockets. -/
  net : Net
  /-- `readfds` -/
  readfds : Finset ℕ
  /-- `listenfd` -/
  listenfd : ℕ
  /-- `tmp_readfds` -/
  tmpReadfds : Finset ℕ
  /-- `tmp_writefds` -/
  tmpWritefds : Finset ℕ
  /-- The descriptor to be visited next; above `maxfd`, the next thing is `select()`. -/
  i : ℕ

/-- The tracker when the loop starts. -/
def trackerInit (listenfd : Fin fdSetSize) (fds : Finset ℕ) : Tracker where
  peers := peersInit
  net := netInit listenfd fds
  readfds := {listenfd.val}
  listenfd := listenfd
  tmpReadfds := ∅
  tmpWritefds := ∅
  i := listenfd + 1

/-- The contexts, in order. -/
def Tracker.contexts (t : Tracker) : List SocketCtx := t.net.contexts

/-- A result of `accept()`. -/
inductive AcceptResult
  /-- It fails. -/
  | failed
  /-- A connection that is not IPv4. -/
  | other (fd : ℕ)
  /-- A connection from an IPv4 address. -/
  | ipv4 (fd : ℕ) (sa : SockAddr)

/-- What the system calls of a step answer. -/
structure Answers where
  /-- The descriptors that are ready for reading. -/
  readable : Finset ℕ
  /-- The descriptors that are ready for writing. -/
  writable : Finset ℕ
  /-- `accept()` -/
  accept : AcceptResult
  /-- The results of `recv()`. -/
  recvs : List RecvResult
  /-- What each call of `handle_msg` finds around it. -/
  msgs : List MsgEnv
  /-- The results of `send()`. -/
  sends : List SendResult

/-! ## The branches -/

/-- What is left of `readbuf`, and `msglen`, are stored in the context at `ctx`. -/
def Memory.putReadbuf (m : Memory) (ctx : CtxPtr) (buf : Buffer) (msglen : ℕ) : Memory :=
  let c := m.ctx ctx
  let (m, readbuf) := m.putBuffer c.readbuf buf
  m.setCtx ctx { c with readbuf := readbuf, msglen := msglen }

/-- What is left of `writebuf` is stored in the context at `ctx`. -/
def Memory.putWritebuf (m : Memory) (ctx : CtxPtr) (buf : Buffer) : Memory :=
  let c := m.ctx ctx
  let (m, writebuf) := m.putBuffer c.writebuf buf
  m.setCtx ctx { c with writebuf := writebuf }

/-- The `while (1)` loop over the received bytes, for at most `fuel` rounds, with `read_eof`. -/
def trackerFrameLoop (ctx : CtxPtr) :
    ℕ → List MsgEnv → Bool → Peers → Net → Exec (Peers × Net × Bool)
  | 0, _, readEof, p, n => .ok (p, n, readEof)
  | fuel + 1, envs, readEof, p, n =>
    let c := n.memory.ctx ctx
    let readbuf := n.memory.buffer c.readbuf
    if c.msglen = 0 then
      -- Read msglen
      if 2 ≤ readbuf.len then
        if prefixLen readbuf = 0 then .ok (p, n, true)
        else
          trackerFrameLoop ctx fuel envs readEof p
            { n with memory :=
                n.memory.putReadbuf ctx (bufferShift readbuf 2) (prefixLen readbuf) }
      else .ok (p, n, readEof)
    else if c.msglen ≤ readbuf.len then do
      -- Read msg body (msglen bytes)
      let (p, n) ← handleMsgBytes p n c.fromaddr readbuf c.msglen (envs.headD default)
      let c := n.memory.ctx ctx
      let n := { n with memory :=
        n.memory.putReadbuf ctx (bufferShift (n.memory.buffer c.readbuf) c.msglen) 0 }
      trackerFrameLoop ctx fuel envs.tail readEof p n
    else .ok (p, n, readEof)

/-- `if (socketctxs.len == 0)`: `ArenaReset` and `ArrayNew`. -/
def Net.resetIfEmpty (n : Net) : Net :=
  if n.socketctxs.len = 0 then
    let (m, ctxs) := Memory.arrayNew { n.memory with pos := 0 } 64
    { n with memory := m, socketctxs := ctxs }
  else n

/-- `socketctx->shut_rd = 1` -/
def Net.setShutRd (n : Net) (ctx : CtxPtr) : Net :=
  { n with memory := n.memory.setCtx ctx { n.memory.ctx ctx with shutRd := true } }

/-- The rule for closing a connection: nothing more is received, and nothing waits to be sent. -/
def closeIfDone (n : Net) (ctx : CtxPtr) : Exec Net := do
  let c := n.memory.ctx ctx
  if c.shutRd && c.writebuf.len = 0 then
    let n ← socketCtxCloseAndRemove n ctx
    .ok n.resetIfEmpty
  else .ok n

/-- `FD_CLR` of a descriptor in `writefds`. -/
def Net.clearWritefd (n : Net) (fd : ℕ) : Exec Net := do
  let writefds ← fdClr fd n.writefds
  .ok { n with writefds := writefds }

/-- After an error of `send()` the descriptor is not watched any more, and the bytes that wait are
thrown away. -/
def Net.giveUp (n : Net) (fd : ℕ) (ctx : CtxPtr) (writebuf : Buffer) : Exec Net := do
  let n ← n.clearWritefd fd
  .ok { n with memory := n.memory.putWritebuf ctx (bufferClear writebuf) }

/-- The branch for a new connection, and whether the visit goes on. -/
def acceptBranch (t : Tracker) (a : Answers) : Exec (Tracker × Bool) :=
  match a.accept with
  | .failed => .ok (t, false)
  | .other fd => do
    let n ← t.net.openFd fd
    .ok ({ t with net := n.shutdownSocket fd }, false)
  | .ipv4 fd sa => do
    let n ← t.net.openFd fd
    -- no connection comes from 0.0.0.0
    if sa.sinAddr = 0 then .error .kernel
    else
      let (m, ctxs, _) ←
        socketCtxNew n.memory n.socketctxs fd (hostAddrFromSockAddr sa) 0 64 1
      let readfds ← fdSet fd t.readfds
      .ok ({ t with
        net := { n with memory := m, socketctxs := ctxs, maxfd := max n.maxfd fd }
        readfds := readfds }, true)

/-- The branch for received bytes, and whether the visit goes on. -/
def readBranch (t : Tracker) (a : Answers) : Exec (Tracker × Bool) := do
  match ← socketCtxFindByFd t.net.memory t.net.socketctxs t.i with
  | none => .ok (t, false)
  | some ctx =>
    let c := t.net.memory.ctx ctx
    let (z, readbuf) := netRecv a.recvs (t.net.memory.buffer c.readbuf)
    let n := { t.net with memory := t.net.memory.putReadbuf ctx readbuf c.msglen }
    let (p, n, readEof) ← trackerFrameLoop ctx (readbuf.len + 1) a.msgs (z = 0) t.peers n
    if readEof then
      let readfds ← fdClr t.i t.readfds
      let n ← closeIfDone (n.setShutRd ctx) ctx
      .ok ({ t with peers := p, net := n, readfds := readfds }, true)
    else .ok ({ t with peers := p, net := n }, true)

/-- The branch for a socket that takes bytes. -/
def writeBranch (t : Tracker) (a : Answers) : Exec Tracker := do
  match ← socketCtxFindByFd t.net.memory t.net.socketctxs t.i with
  | none => .ok t
  | some ctx =>
    let c := t.net.memory.ctx ctx
    let (n, z, writebuf) ← netSend2 t.net c.fd a.sends (t.net.memory.buffer c.writebuf)
    let n := { n with memory := n.memory.putWritebuf ctx writebuf }
    let n ← if z = 0 then n.clearWritefd t.i else .ok n
    let n ← if z = -1 then n.giveUp t.i ctx writebuf else .ok n
    let n ← closeIfDone n ctx
    .ok { t with net := n }

/-- A visit to the descriptor `i`. -/
def trackerVisit (t : Tracker) (a : Answers) : Exec Tracker := do
  let (t, goOn) ←
    if t.i ∈ t.tmpReadfds then
      if t.i = t.listenfd then acceptBranch t a else readBranch t a
    else .ok (t, true)
  let t ← if goOn = true ∧ t.i ∈ t.tmpWritefds then writeBranch t a else .ok t
  .ok { t with i := t.i + 1 }

/-- `select()` -/
def trackerSelect (t : Tracker) (a : Answers) : Tracker :=
  { t with
    tmpReadfds := t.readfds ∩ a.readable
    tmpWritefds := t.net.writefds ∩ a.writable
    i := 0 }

/-- One step of the loop. -/
def loopStep (t : Tracker) (a : Answers) : Exec Tracker :=
  if t.i ≤ t.net.maxfd then trackerVisit t a else .ok (trackerSelect t a)

end TinyMsg
