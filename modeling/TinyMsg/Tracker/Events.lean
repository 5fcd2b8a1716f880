import TinyMsg.Tracker.Relay
import TinyMsg.Tracker.Watched

/-!
# What the tracker receives, dispatches and sends

The events of a step of the loop are put on record in the order in which they happen: a connection
is accepted, bytes are received on it, `handle_msg` is called for it, and `handle_msg` calls
`send_msg_to_hostaddr`.  `loopEvents` follows the branches of a visit; the loop over the received
bytes has its own recursion, in which the calls of `handle_msg` are the ones of `trackerFrameLoop`.

Two readings of the record are of use: what was received and dispatched on a connection since it
was accepted (`lineOn`), and the bytes handed over for an address since the call that opened a
connection to it (`streamTo`).
-/

namespace TinyMsg

/-- What becomes of the bytes that `send_msg_to_hostaddr` is called with. -/
inductive Handover
  /-- They are appended to the `writebuf` of the context that is there for the address. -/
  | queued
  /-- A connection is opened, and a context made for the bytes that the kernel did not take. -/
  | opened
  /-- No context is there and none is made: the value returned, and the bytes that the kernel took
  over a connection that is closed again. -/
  | closed (ret : ℤ) (taken : List UInt8)
  deriving DecidableEq

/-- What is seen of the loop. -/
inductive LoopEvent
  /-- `SocketCtx_new` is called for an accepted connection. -/
  | accepted (fd : ℕ)
  /-- `NetRecv` appends bytes to the `readbuf` of a connection. -/
  | received (fd : ℕ) (bytes : List UInt8)
  /-- `handle_msg` is called for a connection: the `msglen` bytes at `msgbytes`, and `msglen`. -/
  | dispatched (fd : ℕ) (message : List UInt8 × ℕ)
  /-- `send_msg_to_hostaddr` is called, and what becomes of the bytes. -/
  | sent (toaddr : HostAddr) (msgbytes : List UInt8) (handover : Handover)
  deriving DecidableEq

/-- The bytes that the kernel took on the descriptor that `socket()` has returned, if it was called
and did. -/
def takenOn (calls : List ConnectCall) (n : Net) : List UInt8 :=
  match calls.head?.bind ConnectCall.socket with
  | none => []
  | some destfd => n.accepted destfd

/-- What becomes of the bytes of a call of `send_msg_to_hostaddr`. -/
def handover (n : Net) (calls : List ConnectCall) (msgbytes : List UInt8) (toaddr : HostAddr) :
    Handover :=
  match sendMsgToHostaddr n calls msgbytes toaddr with
  | .ok (n', _, z) =>
    if z = 1 then .queued
    else if n.socketctxs.len < n'.socketctxs.len then .opened
    else .closed z (takenOn calls n')
  | .error _ => .closed (-1) []

/-- A call of `send_msg_to_hostaddr` by `handle_msg`. -/
def sendEvents (s : Net × List ConnectCall) (send : Send) : List LoopEvent :=
  [.sent send.toaddr send.msg.handed (handover s.1 s.2 send.msg.handed send.toaddr)]

/-- The calls of `send_msg_to_hostaddr` by a call of `handle_msg`. -/
def handleEvents (p : Peers) (n : Net) (fromaddr : HostAddr) (readbuf : Buffer) (msglen : ℕ)
    (env : MsgEnv) : List LoopEvent :=
  match handleReceived (traced sendPeerMsg sendEvents) p ((n, env.calls), []) fromaddr
    (msgMemory readbuf env.behind) msglen env.listenport with
  | .ok (_, _, events) => events
  | .error _ => []

/-- The events of the `while (1)` loop over the received bytes. -/
def frameLoopEvents (fd : ℕ) (ctx : CtxPtr) : ℕ → List MsgEnv → Peers → Net → List LoopEvent
  | 0, _, _, _ => []
  | fuel + 1, envs, p, n =>
    let c := n.memory.ctx ctx
    let readbuf := n.memory.buffer c.readbuf
    if c.msglen = 0 then
      if 2 ≤ readbuf.len then
        if prefixLen readbuf = 0 then []
        else
          frameLoopEvents fd ctx fuel envs p
            { n with memory :=
                n.memory.putReadbuf ctx (bufferShift readbuf 2) (prefixLen readbuf) }
      else []
    else if c.msglen ≤ readbuf.len then
      .dispatched fd (readbuf.bs.take c.msglen, c.msglen) ::
        (handleEvents p n c.fromaddr readbuf c.msglen (envs.headD default) ++
          match handleMsgBytes p n c.fromaddr readbuf c.msglen (envs.headD default) with
          | .ok (p, n) =>
            let c := n.memory.ctx ctx
            let n := { n with memory :=
              n.memory.putReadbuf ctx (bufferShift (n.memory.buffer c.readbuf) c.msglen) 0 }
            frameLoopEvents fd ctx fuel envs.tail p n
          | .error _ => [])
    else []

/-- The events of the branch for a new connection. -/
def acceptEvents (a : Answers) : List LoopEvent :=
  match a.accept with
  | .ipv4 fd _ => [.accepted fd]
  | _ => []

/-- The events of the branch for received bytes. -/
def readEvents (t : Tracker) (a : Answers) : List LoopEvent :=
  match socketCtxFindByFd t.net.memory t.net.socketctxs t.i with
  | .ok (some ctx) =>
    let c := t.net.memory.ctx ctx
    let readbuf := (netRecv a.recvs (t.net.memory.buffer c.readbuf)).2
    .received t.i (received a.recvs) ::
      frameLoopEvents t.i ctx (readbuf.len + 1) a.msgs t.peers
        { t.net with memory := t.net.memory.putReadbuf ctx readbuf c.msglen }
  | _ => []

/-- The events of a step of the loop. -/
def loopEvents (t : Tracker) (a : Answers) : List LoopEvent :=
  if t.i ≤ t.net.maxfd ∧ t.i ∈ t.tmpReadfds then
    if t.i = t.listenfd then acceptEvents a else readEvents t a
  else []

/-! ## Readings of the record -/

/-- An event of two records in a row is in the second one or in the first one. -/
theorem append_eq_append_cons {α : Type*} {xs ys before after : List α} {x : α}
    (h : xs ++ ys = before ++ x :: after) :
    (∃ rest, before = xs ++ rest ∧ ys = rest ++ x :: after) ∨
      ∃ rest, xs = before ++ x :: rest := by
  rcases List.append_eq_append_iff.mp h with ⟨rest, hbefore, hys⟩ | ⟨rest, hxs, hrest⟩
  · exact Or.inl ⟨rest, hbefore, hys⟩
  · cases rest with
    | nil =>
      refine Or.inl ⟨[], ?_, hrest.symm⟩
      rw [hxs, List.append_nil, List.append_nil]
    | cons y rest =>
      obtain ⟨rfl, -⟩ := List.cons.inj hrest
      exact Or.inr ⟨rest, hxs⟩

/-- What has happened on a connection since it was accepted. -/
structure Line where
  /-- The bytes received. -/
  received : List UInt8
  /-- The calls of `handle_msg`. -/
  dispatched : List (List UInt8 × ℕ)
  deriving DecidableEq

/-- What an event is to the connection at a descriptor. -/
def Line.step (fd : ℕ) (l : Line) : LoopEvent → Line
  | .accepted fd' => if fd' = fd then ⟨[], []⟩ else l
  | .received fd' bytes => if fd' = fd then { l with received := l.received ++ bytes } else l
  | .dispatched fd' message =>
    if fd' = fd then { l with dispatched := l.dispatched ++ [message] } else l
  | .sent _ _ _ => l

/-- What has happened on the connection at a descriptor. -/
def lineOn (fd : ℕ) (trace : List LoopEvent) : Line := trace.foldl (Line.step fd) ⟨[], []⟩

/-- What an event is to the stream of bytes for an address. -/
def streamStep (toaddr : HostAddr) (stream : Option (List UInt8)) :
    LoopEvent → Option (List UInt8)
  | .sent toaddr' msgbytes handover =>
    if toaddr' = toaddr then
      if handover = .opened then some msgbytes else stream.map fun bytes => bytes ++ msgbytes
    else stream
  | _ => stream

/-- The bytes of the messages handed over for an address, in the order of the calls, from the call
on that opened the connection. -/
def streamTo (toaddr : HostAddr) (trace : List LoopEvent) : Option (List UInt8) :=
  trace.foldl (streamStep toaddr) none

end TinyMsg
