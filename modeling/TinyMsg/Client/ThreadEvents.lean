import TinyMsg.Client.Thread

/-!
# What the receiving thread does in a step

What is seen of a step is a list of events: a connection is accepted, bytes are received on it,
`handle_msg` is called for it, it is closed.  `ThreadStepped` lists everything that a step can be,
with the contexts as a list and with what is seen, and `threadStep_stepped` says that a step that
comes back is one of these; the invariants of the thread go by cases on it.
-/

namespace TinyMsg

/-! ## The events -/

/-- The first `msglen` bytes of a buffer as a message that `handle_msg` is called with. -/
def Received.ofBuffer (fromaddr : HostAddr) (readbuf : Buffer) (msglen : ℕ) (behind : ℕ → UInt8)
    (u : Uninit) : Received :=
  ⟨fromaddr, readbuf.contents.take msglen, msgMemory readbuf behind,
    holds_msgMemory readbuf behind msglen, u⟩

/-- What is seen of the client. -/
inductive ThreadEvent
  /-- A connection is accepted. -/
  | accepted (fd : ℕ) (fromaddr : HostAddr)
  /-- `NetRecv` appends bytes to the `readbuf` of a connection. -/
  | received (fd : ℕ) (bytes : List UInt8)
  /-- `handle_msg` is called for a connection. -/
  | handled (fd : ℕ) (r : Received)
  /-- A connection is closed. -/
  | closed (fd : ℕ)
  /-- The GUI thread does something. -/
  | gui (e : GuiInput)

/-- What is seen of a step of the receiving thread. -/
def threadEvents (p : ClientProc) (a : ThreadAnswers) : List ThreadEvent :=
  match p.point with
  | .visit i =>
    if i ≤ p.maxfd ∧ i ∈ p.tmpReadfds ∧ i ≠ p.unblockfd then
      if i = p.listenfd then
        match a.accept with
        | .ipv4 fd sa => [.accepted fd (hostAddrFromSockAddr sa)]
        | _ => []
      else
        match arrayFindItem p.socketctxs fun c => c.fd = i with
        | .ok (some _) => [.received i (received a.recvs)]
        | _ => []
    else []
  | .frames i index readEof =>
    match arrayItem p.socketctxs index with
    | .ok c =>
      match frameRound c.conn with
      | .leave zero => if readEof || zero then [.closed i] else []
      | .length _ => []
      | .body d _ =>
        [.handled i (.ofBuffer c.fromaddr c.conn.readbuf d.msglen a.behind a.uninit)]
    | .error _ => []
  | _ => []

/-- What is seen of a step. -/
def procEvents (p : ClientProc) : ProcInput → List ThreadEvent
  | .net a => threadEvents p a
  | .gui e => [.gui e]

/-- What is seen of an accepted connection. -/
def ThreadEvent.origin : ThreadEvent → Option HostAddr
  | .accepted _ fromaddr => some fromaddr
  | _ => none

/-- The bytes received in some events. -/
def receivedBytes (evs : List ThreadEvent) : ℕ :=
  (evs.map fun ev => match ev with
    | .received _ bytes => bytes.length
    | _ => 0).sum

theorem receivedBytes_append (evs evs' : List ThreadEvent) :
    receivedBytes (evs ++ evs') = receivedBytes evs + receivedBytes evs' := by
  rw [receivedBytes, List.map_append, List.sum_append]
  rfl

/-- The bytes that wait in the buffers. -/
def ClientProc.buffered (p : ClientProc) : ℕ :=
  (p.contexts.map fun c => c.conn.readbuf.len).sum

/-! ## The steps -/

/-- The context with what the framing loop has made of it. -/
def ClientSocketCtx.withConn (c : ClientSocketCtx) (conn : Conn) : ClientSocketCtx :=
  { c with conn := conn }

/-- A connection after `NetRecv`. -/
def Conn.recv (conn : Conn) (rs : List RecvResult) : Conn :=
  { conn with readbuf := (netRecv rs conn.readbuf).2 }

/-- The state with the context at an index replaced. -/
def ClientProc.setCtx (p : ClientProc) (index : ℕ) (c : ClientSocketCtx) : ClientProc :=
  { p with socketctxs := arrayStore p.socketctxs index c }

@[simp] theorem ClientProc.setCtx_contexts (p : ClientProc) (index : ℕ) (c : ClientSocketCtx) :
    (p.setCtx index c).contexts = p.contexts.set index c := arrayStore_toList _ _ _

/-- What a step of the receiving thread can be, with what is seen of it. -/
inductive ThreadStepped (gTrackerAddr : HostAddr) (p : ClientProc) (a : ThreadAnswers) :
    ClientProc → List ThreadEvent → Prop
  /-- `select()` has nothing to report. -/
  | again (hpoint : p.point = .select) : ThreadStepped gTrackerAddr p a p []
  /-- `select()` fails. -/
  | failed (hpoint : p.point = .select) :
    ThreadStepped gTrackerAddr p a { p with point := .ended } []
  /-- `select()` reports descriptors. -/
  | ready {readable : Finset ℕ} (hpoint : p.point = .select)
    (hselect : a.select = .ready readable) :
    ThreadStepped gTrackerAddr p a
      { p with tmpReadfds := p.readfds ∩ readable, point := .visit 0 } []
  /-- The scan is over. -/
  | scanned {i : ℕ} (hpoint : p.point = .visit i) (hi : p.maxfd < i) :
    ThreadStepped gTrackerAddr p a { p with point := .select } []
  /-- The descriptor is not ready, or nothing comes of `accept()`. -/
  | skip {i : ℕ} (hpoint : p.point = .visit i) (hi : i ≤ p.maxfd)
    (hidle : i ∈ p.tmpReadfds → i = p.listenfd ∧ i ≠ p.unblockfd) :
    ThreadStepped gTrackerAddr p a { p with point := .visit (i + 1) } []
  /-- The descriptor is not one of a context. -/
  | lost {i : ℕ} (hpoint : p.point = .visit i) (hready : i ∈ p.tmpReadfds)
    (hlisten : i ≠ p.listenfd) (hpipe : i ≠ p.unblockfd)
    (hnone : lookup ClientSocketCtx.fd p.contexts i = none) :
    ThreadStepped gTrackerAddr p a { p with point := .visit (i + 1) } []
  /-- There is a byte in the pipe. -/
  | unblocked {i : ℕ} (hpoint : p.point = .visit i) (hready : i ∈ p.tmpReadfds)
    (hpipe : i = p.unblockfd) :
    ThreadStepped gTrackerAddr p a { p with fds := p.fds.erase p.listenfd, point := .ended } []
  /-- A connection is accepted. -/
  | accept {i fd : ℕ} {sa : SockAddr} {socketctxs : Array ClientSocketCtx}
    (hpoint : p.point = .visit i) (hi : i ≤ p.maxfd) (hlisten : i = p.listenfd)
    (hready : i ∈ p.tmpReadfds) (hpipe : i ≠ p.unblockfd) (hnew : fd ∉ p.fds)
    (hlt : fd < fdSetSize)
    (hlist : socketctxs.toList = p.contexts ++ [⟨fd, hostAddrFromSockAddr sa, connNew⟩]) :
    ThreadStepped gTrackerAddr p a
      { p with
        socketctxs := socketctxs
        readfds := insert fd p.readfds
        maxfd := max p.maxfd fd
        fds := insert fd p.fds
        point := .visit (i + 1) }
      [.accepted fd (hostAddrFromSockAddr sa)]
  /-- Bytes are received. -/
  | receive {i index : ℕ} (hpoint : p.point = .visit i) (hi : i ≤ p.maxfd)
    (hready : i ∈ p.tmpReadfds) (hlisten : i ≠ p.listenfd) (hpipe : i ≠ p.unblockfd)
    (hindex : index < p.contexts.length) (hfd : p.contexts[index].fd = i) :
    ThreadStepped gTrackerAddr p a
      { p.setCtx index (p.contexts[index].withConn (p.contexts[index].conn.recv a.recvs)) with
        point := .frames i index (reachesEof a.recvs) }
      [.received i (received a.recvs)]
  /-- A length is read. -/
  | length {i index : ℕ} {readEof : Bool} {conn : Conn} (hpoint : p.point = .frames i index readEof)
    (hindex : index < p.contexts.length)
    (hround : frameRound p.contexts[index].conn = .length conn) :
    ThreadStepped gTrackerAddr p a (p.setCtx index (p.contexts[index].withConn conn)) []
  /-- A message is handled. -/
  | body {i index : ℕ} {readEof : Bool} {d : Dispatch} {conn : Conn} {client : Client}
    (hpoint : p.point = .frames i index readEof) (hindex : index < p.contexts.length)
    (hround : frameRound p.contexts[index].conn = .body d conn)
    (hmsg : clientReceive gTrackerAddr p.client p.contexts[index].fromaddr
      (msgMemory p.contexts[index].conn.readbuf a.behind) d.msglen a.uninit = .ok client) :
    ThreadStepped gTrackerAddr p a
      { p.setCtx index (p.contexts[index].withConn conn) with client := client }
      [.handled i (.ofBuffer p.contexts[index].fromaddr p.contexts[index].conn.readbuf d.msglen
        a.behind a.uninit)]
  /-- The frames are used up. -/
  | leave {i index : ℕ} (hpoint : p.point = .frames i index false)
    (hindex : index < p.contexts.length)
    (hround : frameRound p.contexts[index].conn = .leave false) :
    ThreadStepped gTrackerAddr p a { p with point := .visit (i + 1) } []
  /-- The connection is closed. -/
  | close {i index : ℕ} {readEof zero : Bool} {socketctxs : Array ClientSocketCtx}
    (hpoint : p.point = .frames i index readEof) (hindex : index < p.contexts.length)
    (hround : frameRound p.contexts[index].conn = .leave zero) (heof : (readEof || zero) = true)
    (hlist : socketctxs.toList = p.contexts.eraseP fun c => c.fd = i) :
    ThreadStepped gTrackerAddr p a
      { p with
        socketctxs := socketctxs
        readfds := p.readfds.erase i
        fds := p.fds.erase i
        point := .visit (i + 1) }
      [.closed i]
  /-- The thread has ended. -/
  | ended (hpoint : p.point = .ended) : ThreadStepped gTrackerAddr p a p []

section Stepped

variable {gTrackerAddr : HostAddr} {p p' : ClientProc} {a : ThreadAnswers} {i : ℕ}

/-- An item that is read is in the array. -/
theorem arrayItem_inv {α : Type} [Inhabited α] {l : Array α} {x : α}
    (h : arrayItem l i = .ok x) : ∃ hi : i < l.toList.length, l.toList[i] = x := by
  by_cases hi : i < l.toList.length
  · rw [arrayItem_eq hi] at h
    exact ⟨hi, Except.ok.inj h⟩
  · rw [Array.length_toList] at hi
    rw [arrayItem, if_neg hi] at h
    cases h

/-- What closing a connection does. -/
theorem threadClose_ok (h : threadClose p i = .ok p') :
    ∃ socketctxs : Array ClientSocketCtx,
      socketctxs.toList = p.contexts.eraseP (fun c => c.fd = i) ∧
      p' = { p with
        socketctxs := socketctxs
        readfds := p.readfds.erase i
        fds := p.fds.erase i
        point := .visit (i + 1) } := by
  have hnew : ∀ socketctxs : Array ClientSocketCtx,
      (if socketctxs.len = 0 then arrayNew 64 else socketctxs).toList = socketctxs.toList := by
    intro socketctxs
    split
    case isTrue hzero =>
      -- the array starts over, and there was nothing in it
      rw [arrayNew_toList]
      exact (List.length_eq_zero_iff.mp ((Array.length_toList _).trans hzero)).symm
    case isFalse => rfl
  rw [threadClose, arrayFind_eq] at h
  obtain ⟨readfds, hclr, h⟩ := bind_eq_ok.mp h
  obtain rfl := fdClr_ok hclr
  rw [ok_bind] at h
  rw [List.eraseP_eq_eraseIdx, ClientProc.contexts]
  cases hidx : p.socketctxs.toList.findIdx? fun c => c.fd = i with
  | none =>
    rw [hidx] at h
    exact ⟨_, hnew _, (Except.ok.inj h).symm⟩
  | some index =>
    rw [hidx] at h
    exact ⟨_, (hnew _).trans (arrayRemove_toList _ _), (Except.ok.inj h).symm⟩

/-- A visit that comes back. -/
theorem threadVisit_stepped (hpoint : p.point = .visit i) (hi : i ≤ p.maxfd)
    (h : threadVisit p i a = .ok p') : ThreadStepped gTrackerAddr p a p' (threadEvents p a) := by
  rw [threadVisit] at h
  simp only [threadEvents, hpoint]
  by_cases hready : i ∈ p.tmpReadfds
  case neg =>
    rw [if_neg hready] at h
    obtain rfl := Except.ok.inj h
    rw [if_neg fun hboth => hready hboth.2.1]
    exact .skip hpoint hi fun hmem => absurd hmem hready
  rw [if_pos hready] at h
  by_cases hpipe : i = p.unblockfd
  · rw [if_pos hpipe] at h
    obtain rfl := Except.ok.inj h
    rw [if_neg fun hboth => hboth.2.2 hpipe]
    exact .unblocked hpoint hready hpipe
  rw [if_neg hpipe] at h
  rw [if_pos ⟨hi, hready, hpipe⟩]
  by_cases hlisten : i = p.listenfd
  · rw [if_pos hlisten] at h ⊢
    obtain ⟨p₁, haccept, heq⟩ := bind_eq_ok.mp h
    obtain rfl := Except.ok.inj heq
    have hskip : ThreadStepped gTrackerAddr p a { p with point := .visit (i + 1) } [] :=
      .skip hpoint hi fun _ => ⟨hlisten, hpipe⟩
    unfold threadAccept at haccept
    cases hanswer : a.accept with
    | failed =>
      rw [hanswer] at haccept
      obtain rfl := Except.ok.inj haccept
      exact hskip
    | other fd =>
      simp only [hanswer] at haccept
      split at haccept
      · cases haccept
      · obtain rfl := Except.ok.inj haccept
        exact hskip
    | ipv4 fd sa =>
      simp only [hanswer] at haccept
      split at haccept
      case isTrue => cases haccept
      case isFalse hnew =>
        obtain ⟨socketctxs, happend, haccept⟩ := bind_eq_ok.mp haccept
        obtain ⟨readfds, hset, heq⟩ := bind_eq_ok.mp haccept
        obtain ⟨hlt, rfl⟩ := fdSet_ok hset
        obtain rfl := Except.ok.inj heq
        exact .accept hpoint hi hlisten hready hpipe hnew hlt (arrayAppend_ok happend).1
  · rw [if_neg hlisten] at h ⊢
    rcases arrayFindItem_cases p.socketctxs ClientSocketCtx.fd i with ⟨hfind, hnone⟩ |
      ⟨index, hindex, hfind, -, hfd⟩
    · rw [hfind, ok_bind] at h
      rw [hfind]
      obtain rfl := Except.ok.inj h
      exact .lost hpoint hready hlisten hpipe hnone
    · rw [hfind, ok_bind] at h
      rw [hfind]
      obtain rfl := Except.ok.inj h
      have heof : decide ((netRecv a.recvs p.socketctxs.toList[index].conn.readbuf).1 = 0) =
          reachesEof a.recvs := by
        rw [Bool.eq_iff_iff, decide_eq_true_iff, netRecv_eq_zero_iff]
      rw [heof]
      exact .receive hpoint hi hready hlisten hpipe hindex hfd

/-- A round of the loop over the received bytes that comes back. -/
theorem threadFrames_stepped {index : ℕ} {readEof : Bool}
    (hpoint : p.point = .frames i index readEof)
    (h : threadFrames gTrackerAddr p i index readEof a = .ok p') :
    ThreadStepped gTrackerAddr p a p' (threadEvents p a) := by
  obtain ⟨c, hitem, h⟩ := bind_eq_ok.mp h
  obtain ⟨hindex, rfl⟩ := arrayItem_inv hitem
  simp only [threadEvents, hpoint, hitem]
  cases hround : frameRound p.socketctxs.toList[index].conn with
  | leave zero =>
    simp only [hround] at h ⊢
    by_cases heof : (readEof || zero) = true
    · rw [if_pos heof] at h ⊢
      obtain ⟨socketctxs, hlist, rfl⟩ := threadClose_ok h
      exact .close hpoint hindex hround heof hlist
    · rw [if_neg heof] at h ⊢
      obtain rfl := Except.ok.inj h
      rw [Bool.not_eq_true, Bool.or_eq_false_iff] at heof
      obtain ⟨rfl, rfl⟩ := heof
      exact .leave hpoint hindex hround
  | length conn =>
    simp only [hround] at h
    obtain rfl := Except.ok.inj h
    exact .length hpoint hindex hround
  | body d conn =>
    simp only [hround] at h
    obtain ⟨client, hmsg, heq⟩ := bind_eq_ok.mp h
    obtain rfl := Except.ok.inj heq
    exact .body hpoint hindex hround hmsg

/-- A step that comes back is one of these. -/
theorem threadStep_stepped (h : threadStep gTrackerAddr p a = .ok p') :
    ThreadStepped gTrackerAddr p a p' (threadEvents p a) := by
  rw [threadStep] at h
  cases hpoint : p.point with
  | select =>
    simp only [hpoint] at h
    simp only [threadEvents, hpoint]
    cases hselect : a.select with
    | again =>
      simp only [hselect] at h
      obtain rfl := Except.ok.inj h
      exact .again hpoint
    | failed =>
      simp only [hselect] at h
      obtain rfl := Except.ok.inj h
      exact .failed hpoint
    | ready readable =>
      simp only [hselect] at h
      obtain rfl := Except.ok.inj h
      exact .ready hpoint hselect
  | visit i =>
    simp only [hpoint] at h
    by_cases hi : i ≤ p.maxfd
    · rw [if_pos hi] at h
      exact threadVisit_stepped hpoint hi h
    · rw [if_neg hi] at h
      obtain rfl := Except.ok.inj h
      simp only [threadEvents, hpoint]
      rw [if_neg fun hboth => hi hboth.1]
      exact .scanned hpoint (not_le.mp hi)
  | frames i index readEof =>
    simp only [hpoint] at h
    exact threadFrames_stepped hpoint h
  | ended =>
    simp only [hpoint] at h
    obtain rfl := Except.ok.inj h
    simp only [threadEvents, hpoint]
    exact .ended hpoint

end Stepped

/-- How the thread starts: it returns at once, or it gets to its loop. -/
theorem threadStart_cases {client : Client} {start : StartAnswers} {p : ClientProc}
    (h : threadStart client start = .ok p) :
    (∃ fds, p = threadFailed client fds) ∨
      ∃ listenfd unblockfd, listenfd < fdSetSize ∧ unblockfd < fdSetSize ∧ unblockfd ≠ listenfd ∧
        p = {
          client := client
          socketctxs := arrayNew 64
          readfds := insert unblockfd (insert listenfd ∅)
          tmpReadfds := ∅
          listenfd := listenfd
          unblockfd := unblockfd
          maxfd := max listenfd unblockfd
          fds := {listenfd, unblockfd}
          point := .select } := by
  unfold threadStart at h
  have hfailed : ∀ fds, Except.ok (threadFailed client fds) = (.ok p : Exec ClientProc) →
      ∃ fds, p = threadFailed client fds := fun fds heq => ⟨fds, (Except.ok.inj heq).symm⟩
  cases hsocket : start.socket with
  | none =>
    simp only [hsocket] at h
    exact Or.inl (hfailed _ h)
  | some listenfd =>
    simp only [hsocket] at h
    split at h
    · exact Or.inl (hfailed _ h)
    split at h
    · exact Or.inl (hfailed _ h)
    split at h
    · exact Or.inl (hfailed _ h)
    obtain ⟨readfds, hset, h⟩ := bind_eq_ok.mp h
    obtain ⟨hlisten, rfl⟩ := fdSet_ok hset
    cases hpipe : start.pipe with
    | none =>
      simp only [hpipe] at h
      cases h
    | some ends =>
      simp only [hpipe] at h
      split at h
      case isTrue => cases h
      case isFalse hne =>
        obtain ⟨readfds, hset, h⟩ := bind_eq_ok.mp h
        obtain ⟨hunblock, rfl⟩ := fdSet_ok hset
        exact Or.inr ⟨listenfd, ends.1, hlisten, hunblock, hne, (Except.ok.inj h).symm⟩

end TinyMsg
