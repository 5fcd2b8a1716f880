import TinyMsg.Client.Isolation
import TinyMsg.Tracker.Loop

/-!
# The receiving thread of the client

`THREAD_wait_for_tcp_messages` waits in `select()`, visits the descriptors that are ready, and for
a connection goes through the frames that have arrived.  The GUI thread runs beside it, and one
handler of either is one step.  So a step of the thread here is one `select()`, one visit, or one
round of the `while (1)` loop (`frameRound`), with the place where the thread is as a part of the
state (`ThreadPoint`); between any two of them the GUI thread may do whatever it does.

Of a `SocketCtx` the thread uses the descriptor, the address and what the framing loop works on; it
never sends, so `toaddr`, `writebuf` and `shut_rd` are not read.  The pointer `socketctx` is an
index: `handle_msg` does not touch the array.  A byte in the pipe makes the thread leave its loop.
The capacity of the arena is taken to suffice.
-/

namespace TinyMsg

/-! ## A round of the framing loop -/

/-- What a round of the `while (1)` loop finds. -/
inductive FrameRound
  /-- The loop is left; `zero` says that a length of zero was read. -/
  | leave (zero : Bool)
  /-- `msglen` is read. -/
  | length (conn : Conn)
  /-- `handle_msg` is called, and what it was called with is taken off the buffer. -/
  | body (d : Dispatch) (conn : Conn)

/-- The length that is read fits `msglen`. -/
theorem Conn.prefixLen_lt (c : Conn) : prefixLen c.readbuf < 256 ^ 2 :=
  TinyMsg.prefixLen_lt c.readbuf

/-- A round of the `while (1)` loop. -/
def frameRound (c : Conn) : FrameRound :=
  if c.msglen = 0 then
    -- Read msglen
    if 2 ≤ c.readbuf.len then
      if prefixLen c.readbuf = 0 then .leave true
      else .length ⟨bufferShift c.readbuf 2, prefixLen c.readbuf, c.prefixLen_lt⟩
    else .leave false
  else if c.msglen ≤ c.readbuf.len then
    -- Read msg body (msglen bytes)
    .body ⟨c.readbuf.bs, c.msglen⟩ ⟨bufferShift c.readbuf c.msglen, 0, connNew.msglen_lt⟩
  else .leave false

/-! ## The state -/

/-- `SocketCtx`, as far as the client uses it. -/
structure ClientSocketCtx where
  /-- `fd` -/
  fd : ℕ
  /-- `fromaddr` -/
  fromaddr : HostAddr
  /-- `readbuf` and `msglen` -/
  conn : Conn

instance : Inhabited ClientSocketCtx := ⟨⟨0, 0, connNew⟩⟩

/-- Where the receiving thread is. -/
inductive ThreadPoint
  /-- Before `select()`. -/
  | select
  /-- At the descriptor `i` of the scan. -/
  | visit (i : ℕ)
  /-- In the `while (1)` loop for the context at `index`, with `read_eof`. -/
  | frames (i index : ℕ) (readEof : Bool)
  /-- Behind the loop. -/
  | ended
  deriving DecidableEq

/-- The client with its receiving thread. -/
structure ClientProc where
  /-- What both threads work on. -/
  client : Client
  /-- `socketctxs` -/
  socketctxs : Array ClientSocketCtx
  /-- `readfds` -/
  readfds : Finset ℕ
  /-- `tmp_readfds` -/
  tmpReadfds : Finset ℕ
  /-- `listenfd` -/
  listenfd : ℕ
  /-- `pipefds[0]` -/
  unblockfd : ℕ
  /-- `maxfd` -/
  maxfd : ℕ
  /-- The open descriptors of the thread. -/
  fds : Finset ℕ
  /-- Where the thread is. -/
  point : ThreadPoint

/-- The contexts, in order. -/
def ClientProc.contexts (p : ClientProc) : List ClientSocketCtx := p.socketctxs.toList

/-! ## The start of the thread -/

/-- What the system calls before the loop answer. -/
structure StartAnswers where
  /-- `socket()` -/
  socket : Option ℕ
  /-- `setsockopt()` succeeds. -/
  setsockopt : Bool
  /-- `bind()` succeeds. -/
  bind : Bool
  /-- `listen()` succeeds. -/
  listen : Bool
  /-- `pipe()`: the end that is read from and the end that is written to. -/
  pipe : Option (ℕ × ℕ)

/-- A thread that has returned before its loop. -/
def threadFailed (client : Client) (fds : Finset ℕ) : ClientProc :=
  ⟨client, arrayZero, ∅, ∅, 0, 0, 0, fds, .ended⟩

/-- The part of `THREAD_wait_for_tcp_messages` before its loop.  The end of the pipe that is written
to is not the thread's. -/
def threadStart (client : Client) (a : StartAnswers) : Exec ClientProc :=
  match a.socket with
  | none => .ok (threadFailed client ∅)
  | some listenfd =>
    if a.setsockopt = false then .ok (threadFailed client {listenfd})
    else if a.bind = false then .ok (threadFailed client {listenfd})
    else if a.listen = false then .ok (threadFailed client {listenfd})
    else do
      let readfds ← fdSet listenfd ∅
      match a.pipe with
      | none => .error .assertion
      | some (unblockfd, _) =>
        if unblockfd = listenfd then .error .kernel
        else do
          let readfds ← fdSet unblockfd readfds
          .ok {
            client := client
            socketctxs := arrayNew 64
            readfds := readfds
            tmpReadfds := ∅
            listenfd := listenfd
            unblockfd := unblockfd
            maxfd := max listenfd unblockfd
            fds := {listenfd, unblockfd}
            point := .select }

/-! ## The steps of the thread -/

/-- A result of `select()`. -/
inductive SelectAnswer
  /-- It times out or is interrupted. -/
  | again
  /-- It fails. -/
  | failed
  /-- Descriptors are ready for reading. -/
  | ready (readable : Finset ℕ)

/-- What the system calls of a step answer, and what the step finds in memory. -/
structure ThreadAnswers where
  /-- `select()` -/
  select : SelectAnswer
  /-- `accept()` -/
  accept : AcceptResult
  /-- The results of `recv()`. -/
  recvs : List RecvResult
  /-- The bytes of the arena from a message on, as far as they were not received. -/
  behind : ℕ → UInt8
  /-- The variables of `handle_msg`. -/
  uninit : Uninit

instance : Inhabited ThreadAnswers := ⟨⟨.again, .failed, [], fun _ => 0, ⟨0, 0⟩⟩⟩

/-- The branch for a new connection. -/
def threadAccept (p : ClientProc) (accept : AcceptResult) : Exec ClientProc :=
  match accept with
  | .failed => .ok p
  | .other fd =>
    -- Only accept IPv4 connections
    if fd ∈ p.fds then .error .kernel else .ok p
  | .ipv4 fd sa =>
    if fd ∈ p.fds then .error .kernel
    else do
      let socketctxs ← arrayAppend p.socketctxs ⟨fd, hostAddrFromSockAddr sa, connNew⟩
      let readfds ← fdSet fd p.readfds
      .ok { p with
        socketctxs := socketctxs
        readfds := readfds
        maxfd := max p.maxfd fd
        fds := insert fd p.fds }

/-- The visit to a descriptor that may be ready. -/
def threadVisit (p : ClientProc) (i : ℕ) (a : ThreadAnswers) : Exec ClientProc :=
  if i ∈ p.tmpReadfds then
    -- break out of the select() loop
    if i = p.unblockfd then .ok { p with fds := p.fds.erase p.listenfd, point := .ended }
    else if i = p.listenfd then do
      let p ← threadAccept p a.accept
      .ok { p with point := .visit (i + 1) }
    else do
      -- Received bytes from socket
      match ← arrayFindItem p.socketctxs fun c => c.fd = i with
      | none => .ok { p with point := .visit (i + 1) }
      | some (index, c) =>
        let (z, readbuf) := netRecv a.recvs c.conn.readbuf
        .ok { p with
          socketctxs :=
            arrayStore p.socketctxs index { c with conn := { c.conn with readbuf := readbuf } }
          point := .frames i index (z = 0) }
  else .ok { p with point := .visit (i + 1) }

/-- `if (read_eof)`: the connection is closed. -/
def threadClose (p : ClientProc) (i : ℕ) : Exec ClientProc := do
  let readfds ← fdClr i p.readfds
  let found ← arrayFind p.socketctxs fun c => c.fd = i
  let socketctxs :=
    match found with
    | some index => arrayRemove p.socketctxs index
    | none => p.socketctxs
  .ok { p with
    socketctxs := if socketctxs.len = 0 then arrayNew 64 else socketctxs
    readfds := readfds
    fds := p.fds.erase i
    point := .visit (i + 1) }

/-- A round of the loop over the received bytes, or its end. -/
def threadFrames (gTrackerAddr : HostAddr) (p : ClientProc) (i index : ℕ) (readEof : Bool)
    (a : ThreadAnswers) : Exec ClientProc := do
  let c ← arrayItem p.socketctxs index
  match frameRound c.conn with
  | .leave zero =>
    if readEof || zero then threadClose p i else .ok { p with point := .visit (i + 1) }
  | .length conn =>
    .ok { p with socketctxs := arrayStore p.socketctxs index { c with conn := conn } }
  | .body d conn => do
    let client ← clientReceive gTrackerAddr p.client c.fromaddr
      (msgMemory c.conn.readbuf a.behind) d.msglen a.uninit
    .ok { p with
      client := client
      socketctxs := arrayStore p.socketctxs index { c with conn := conn } }

/-- One step of the receiving thread. -/
def threadStep (gTrackerAddr : HostAddr) (p : ClientProc) (a : ThreadAnswers) :
    Exec ClientProc :=
  match p.point with
  | .select =>
    match a.select with
    | .again => .ok p
    | .failed => .ok { p with point := .ended }
    | .ready readable => .ok { p with tmpReadfds := p.readfds ∩ readable, point := .visit 0 }
  | .visit i => if i ≤ p.maxfd then threadVisit p i a else .ok { p with point := .select }
  | .frames i index readEof => threadFrames gTrackerAddr p i index readEof a
  | .ended => .ok p

/-! ## Both threads -/

/-- What the GUI thread does. -/
inductive GuiInput
  /-- It runs the next idle callback, if there is one. -/
  | idle
  /-- The user activates the row of a peer in the list box. -/
  | select (hpeer : TMHandle)
  /-- The user sends a text from the window of a peer, and `ConnectAndSendMsg` returns `z`. -/
  | send (hpeer : TMHandle) (text : CStr) (z : ℤ)

/-- It is something that happens to the client. -/
def GuiInput.input : GuiInput → ClientInput
  | .idle => .idle
  | .select hpeer => .select hpeer
  | .send hpeer text z => .send hpeer text z

/-- A step of one of the threads. -/
inductive ProcInput
  /-- The receiving thread takes a step. -/
  | net (a : ThreadAnswers)
  /-- The GUI thread does something. -/
  | gui (e : GuiInput)

/-- One step. -/
def procStep (gTrackerAddr : HostAddr) (p : ClientProc) : ProcInput → Exec ClientProc
  | .net a => threadStep gTrackerAddr p a
  | .gui e => do
    let client ← clientInputStep gTrackerAddr p.client e.input
    .ok { p with client := client }

end TinyMsg
