import TinyMsg.Tracker.Dispatch
import TinyMsg.Tracker.Replication

/-!
# The loop handles one message after the other

The `select()` loop goes from socket to socket, and a visit may call `handle_msg` several times;
what has been proved of `handle_msg` is about a tracker that handles one message after the other
(`trackerStep`).  Here a run of the loop is such a run: over the messages of the calls, in the order
of the calls, with the addresses that the connections were accepted from (`loop_refines`).  What
`send_msg_to_hostaddr` is called with in the loop is what that tracker sends.

The record of `loopEvents` does not say where a connection comes from and what a message is
unpacked to, so it is refined here (`loopSeen`).
-/

namespace TinyMsg

/-! ## The refined record -/

/-- A call of `handle_msg`. -/
structure Handled where
  /-- The address that the connection comes from. -/
  fromaddr : HostAddr
  /-- The `msglen` bytes at `msgbytes`, and `msglen`. -/
  message : List UInt8 × ℕ
  /-- What is unpacked. -/
  msg : Option TrackerMsg

/-- What is seen of the loop, with addresses and messages. -/
inductive LoopSeen
  /-- A connection is accepted. -/
  | accepted (fd : ℕ) (fromaddr : HostAddr)
  /-- `handle_msg` is called for a connection. -/
  | handled (fd : ℕ) (h : Handled)
  /-- Anything else. -/
  | event (ev : LoopEvent)

/-- The event of the record that is refined. -/
def LoopSeen.loopEvent : LoopSeen → LoopEvent
  | .accepted fd _ => .accepted fd
  | .handled fd h => .dispatched fd h.message
  | .event ev => ev

/-- The events of the `while (1)` loop over the received bytes. -/
def frameLoopSeen (fd : ℕ) (ctx : CtxPtr) : ℕ → List MsgEnv → Peers → Net → List LoopSeen
  | 0, _, _, _ => []
  | fuel + 1, envs, p, n =>
    let c := n.memory.ctx ctx
    let readbuf := n.memory.buffer c.readbuf
    let env := envs.headD default
    if c.msglen = 0 then
      if 2 ≤ readbuf.len then
        if prefixLen readbuf = 0 then []
        else
          frameLoopSeen fd ctx fuel envs p
            { n with memory :=
                n.memory.putReadbuf ctx (bufferShift readbuf 2) (prefixLen readbuf) }
      else []
    else if c.msglen ≤ readbuf.len then
      .handled fd ⟨c.fromaddr, (readbuf.bs.take c.msglen, c.msglen),
          unpackTrackerMsg (msgMemory readbuf env.behind) c.msglen env.listenport⟩ ::
        ((handleEvents p n c.fromaddr readbuf c.msglen env).map .event ++
          match handleMsgBytes p n c.fromaddr readbuf c.msglen env with
          | .ok (p, n) =>
            let c := n.memory.ctx ctx
            let n := { n with memory :=
              n.memory.putReadbuf ctx (bufferShift (n.memory.buffer c.readbuf) c.msglen) 0 }
            frameLoopSeen fd ctx fuel envs.tail p n
          | .error _ => [])
    else []

/-- The events of the branch for a new connection. -/
def acceptSeen (a : Answers) : List LoopSeen :=
  match a.accept with
  | .ipv4 fd sa => [.accepted fd (hostAddrFromSockAddr sa)]
  | _ => []

/-- The events of the branch for received bytes. -/
def readSeen (t : Tracker) (a : Answers) : List LoopSeen :=
  match socketCtxFindByFd t.net.memory t.net.socketctxs t.i with
  | .ok (some ctx) =>
    let c := t.net.memory.ctx ctx
    let readbuf := (netRecv a.recvs (t.net.memory.buffer c.readbuf)).2
    .event (.received t.i (received a.recvs)) ::
      frameLoopSeen t.i ctx (readbuf.len + 1) a.msgs t.peers
        { t.net with memory := t.net.memory.putReadbuf ctx readbuf c.msglen }
  | _ => []

/-- The events of a step of the loop. -/
def loopSeen (t : Tracker) (a : Answers) : List LoopSeen :=
  if t.i ≤ t.net.maxfd ∧ t.i ∈ t.tmpReadfds then
    if t.i = t.listenfd then acceptSeen a else readSeen t a
  else []

section Events

theorem frameLoopSeen_event (fd : ℕ) (ctx : CtxPtr) (fuel : ℕ) (envs : List MsgEnv) (p : Peers)
    (n : Net) : (frameLoopSeen fd ctx fuel envs p n).map LoopSeen.loopEvent =
      frameLoopEvents fd ctx fuel envs p n := by
  induction fuel generalizing envs p n with
  | zero => rfl
  | succ fuel ih =>
    rw [frameLoopSeen, frameLoopEvents]
    dsimp only
    by_cases hlen : (n.memory.ctx ctx).msglen = 0
    · rw [if_pos hlen, if_pos hlen]
      split
      · split
        · rfl
        · exact ih _ _ _
      · rfl
    · rw [if_neg hlen, if_neg hlen]
      split
      · rw [List.map_cons, List.map_append, List.map_map]
        congr 2
        · exact List.map_id _
        · cases handleMsgBytes p n (n.memory.ctx ctx).fromaddr
            (n.memory.buffer (n.memory.ctx ctx).readbuf) (n.memory.ctx ctx).msglen
            (envs.headD default) with
          | error e => rfl
          | ok after => exact ih _ _ _
      · rfl

/-- The record is refined. -/
theorem loopSeen_event (t : Tracker) (a : Answers) :
    (loopSeen t a).map LoopSeen.loopEvent = loopEvents t a := by
  unfold loopSeen loopEvents
  split
  · split
    · unfold acceptSeen acceptEvents
      cases a.accept <;> rfl
    · unfold readSeen readEvents
      cases socketCtxFindByFd t.net.memory t.net.socketctxs t.i with
      | error e => rfl
      | ok found =>
        cases found with
        | none => rfl
        | some ctx =>
          rw [List.map_cons, frameLoopSeen_event]
          rfl
  · rfl

end Events

/-! ## What the record says -/

/-- What a call of `handle_msg` is to a tracker that handles one message after the other. -/
def Handled.input (h : Handled) : Option (HostAddr × TrackerMsg) :=
  h.msg.map fun m => (h.fromaddr, m)

/-- The message is what is unpacked of the bytes. -/
def Handled.Unpacked (h : Handled) : Prop :=
  h.message.2 = h.message.1.length ∧ ∃ mem listenport, Holds mem 0 h.message.1 ∧
    h.msg = unpackTrackerMsg mem h.message.1.length listenport

/-- What an event is to a tracker that handles one message after the other. -/
def LoopSeen.input : LoopSeen → Option (HostAddr × TrackerMsg)
  | .handled _ h => h.input
  | _ => none

/-- The messages that are handled, with their addresses. -/
def trackerInputs (seen : List LoopSeen) : List (HostAddr × TrackerMsg) :=
  seen.filterMap LoopSeen.input

/-- Bytes are received or handed over. -/
def LoopEvent.Moves : LoopEvent → Prop
  | .received _ _ => True
  | .sent _ _ _ => True
  | _ => False

/-- What `send_msg_to_hostaddr` is called with. -/
def LoopEvent.send : LoopEvent → Option (HostAddr × List UInt8)
  | .sent toaddr msgbytes _ => some (toaddr, msgbytes)
  | _ => none

/-- The calls of `send_msg_to_hostaddr` in a record. -/
def sentIn (seen : List LoopSeen) : List (HostAddr × List UInt8) :=
  seen.filterMap fun s => s.loopEvent.send

/-- What a call of `send_msg_to_hostaddr` hands over. -/
def Send.wire (x : Send) : HostAddr × List UInt8 := (x.toaddr, x.msg.handed)

/-- The sends of a tracker that handles one message after the other. -/
def TrackerLog.sends (log : TrackerLog) : List Send := log.processed.flatMap Processed.sends

/-- They are made one message after the other. -/
theorem TrackerLog.sends_concat (p : Peers) (log : List Processed) (s : Processed) :
    TrackerLog.sends ⟨p, log ++ [s]⟩ = log.flatMap Processed.sends ++ s.sends := by
  rw [TrackerLog.sends, List.flatMap_append, List.flatMap_singleton]

theorem trackerInputs_append (seen seen' : List LoopSeen) :
    trackerInputs (seen ++ seen') = trackerInputs seen ++ trackerInputs seen' :=
  List.filterMap_append

theorem sentIn_append (seen seen' : List LoopSeen) :
    sentIn (seen ++ seen') = sentIn seen ++ sentIn seen' := List.filterMap_append

/-- Events that are not calls of `handle_msg` are no messages. -/
theorem trackerInputs_event (evs : List LoopEvent) : trackerInputs (evs.map .event) = [] := by
  rw [trackerInputs, List.filterMap_map]
  exact List.filterMap_eq_nil_iff.mpr fun _ _ => rfl

theorem sentIn_event (evs : List LoopEvent) :
    sentIn (evs.map .event) = evs.filterMap LoopEvent.send := by
  rw [sentIn, List.filterMap_map]
  rfl

/-! ## One message -/

section Message

variable {p p' : Peers} {n n' : Net} {fromaddr : HostAddr} {log : TrackerLog}

/-- The calls that are made are on record. -/
theorem send_of_traced {s s' : Net × List ConnectCall} {sends : List Send}
    {trace : List LoopEvent}
    (h : run (traced sendPeerMsg sendEvents) (s, []) sends = .ok (s', trace)) :
    trace.filterMap LoopEvent.send = sends.map Send.wire := by
  refine run_history (I := fun sends x => x.2.filterMap LoopEvent.send = sends.map Send.wire)
    rfl ?_ h
  rintro sends ⟨s, before⟩ send s' hbefore hstep
  obtain ⟨s₁, -, heq⟩ := bind_eq_ok.mp hstep
  obtain rfl := Except.ok.inj heq
  dsimp only at hbefore ⊢
  rw [List.filterMap_append, hbefore, List.map_append]
  rfl

/-- A call of `handle_msg` hands bytes over. -/
theorem handleEvents_moves (hp : p.WF) {readbuf : Buffer} {msglen : ℕ} {env : MsgEnv} :
    ∀ ev ∈ handleEvents p n fromaddr readbuf msglen env, ev.Moves := by
  have hrun : ∀ {s s' : (Net × List ConnectCall) × List LoopEvent} {sends : List Send},
      (∀ ev ∈ s.2, ev.Moves) → run (traced sendPeerMsg sendEvents) s sends = .ok s' →
      ∀ ev ∈ s'.2, ev.Moves := by
    intro s s' sends hs h
    refine run_invariant (I := fun s => ∀ ev ∈ s.2, ev.Moves) ?_ hs h
    intro s x s' hs hstep ev hev
    obtain ⟨s₁, -, heq⟩ := bind_eq_ok.mp hstep
    obtain rfl := Except.ok.inj heq
    rcases List.mem_append.mp hev with hev | hev
    · exact hs ev hev
    · obtain rfl := List.mem_singleton.mp hev
      trivial
  have hnil : ∀ ev ∈ ([] : List LoopEvent), ev.Moves := fun _ hev => absurd hev List.not_mem_nil
  rw [handleEvents]
  cases hhandle : handleReceived (traced sendPeerMsg sendEvents) p ((n, env.calls), []) fromaddr
    (msgMemory readbuf env.behind) msglen env.listenport with
  | error e => exact hnil
  | ok after =>
    obtain ⟨p', s', trace⟩ := after
    rw [handleReceived] at hhandle
    cases hunpack : unpackTrackerMsg (msgMemory readbuf env.behind) msglen env.listenport with
    | none =>
      rw [hunpack] at hhandle
      obtain ⟨-, heq⟩ := Prod.mk.inj (Except.ok.inj hhandle)
      obtain ⟨-, rfl⟩ := Prod.mk.inj heq
      exact hnil
    | some m =>
      rw [hunpack] at hhandle
      cases m with
      | knock aliasStr hostname listenport => exact hrun hnil ((handleMsg_knock hp).mp hhandle).1
      | bye => exact hrun hnil (handleMsg_bye.mp hhandle).2.2

/-- A call of `handle_msg` is a step over its message, or none if the message is ignored. -/
theorem handleMsgBytes_refines (hp : p.WF) (ha : p.Addressed) (hfrom : hostAddrAddr fromaddr ≠ 0)
    {readbuf : Buffer} {msglen : ℕ} {env : MsgEnv}
    (h : handleMsgBytes p n fromaddr readbuf msglen env = .ok (p', n')) (hlog : log.peers = p) :
    ∃ log', run trackerStep log
        ((unpackTrackerMsg (msgMemory readbuf env.behind) msglen env.listenport).map
          fun m => (fromaddr, m)).toList = .ok log' ∧ log'.peers = p' ∧
      log'.sends.map Send.wire = log.sends.map Send.wire ++
        (handleEvents p n fromaddr readbuf msglen env).filterMap LoopEvent.send := by
  rw [handleMsgBytes_eq] at h
  obtain ⟨⟨p₁, n₁, calls'⟩, hhandle, heq⟩ := bind_eq_ok.mp h
  obtain ⟨rfl, rfl⟩ := Prod.mk.inj (Except.ok.inj heq)
  obtain ⟨sends, next, -, hiff⟩ := handleReceived_iff hp ha hfrom
    (msgMemory readbuf env.behind) msglen env.listenport
  obtain ⟨hnext, hrun⟩ := (hiff _ _ _ _).mp hhandle
  -- the same calls, on record and in the log
  obtain ⟨trace, htrace⟩ := traced_of_run sendEvents hrun
  have hevents := (hiff (traced sendPeerMsg sendEvents) ((n, env.calls), []) _ _).mpr
    ⟨hnext, htrace⟩
  have hlogged := (hiff logSend [] sends p₁).mpr ⟨hnext, by rw [run_logSend, List.nil_append]⟩
  rw [handleEvents, hevents]
  dsimp only
  rw [send_of_traced htrace]
  cases hunpack : unpackTrackerMsg (msgMemory readbuf env.behind) msglen env.listenport with
  | none =>
    rw [handleReceived, hunpack] at hlogged
    obtain ⟨rfl, rfl⟩ := Prod.mk.inj (Except.ok.inj hlogged)
    exact ⟨log, rfl, hlog, (List.append_nil _).symm⟩
  | some m =>
    rw [handleReceived, hunpack] at hlogged
    refine ⟨⟨p₁, log.processed ++ [⟨fromaddr, m, sends⟩]⟩, ?_, rfl, ?_⟩
    · have hstep : trackerStep log (fromaddr, m) =
          .ok ⟨p₁, log.processed ++ [⟨fromaddr, m, sends⟩]⟩ := by
        have hmsg : handleMsg logSend p [] fromaddr m = .ok (p₁, sends) := hlogged
        rw [trackerStep, hlog, hmsg, ok_bind]
      rw [Option.map_some, Option.toList_some, run_cons, hstep, ok_bind, run_nil]
    · rw [TrackerLog.sends_concat, List.map_append]
      rfl

end Message

/-! ## A visit -/

/-- What is seen of a visit to a connection from `fromaddr` is, for a tracker that handles one
message after the other, the way from `log` to the peer table `p`. -/
structure TrackerLog.Visited (log : TrackerLog) (p : Peers) (fd : ℕ) (fromaddr : HostAddr)
    (seen : List LoopSeen) : Prop where
  /-- The messages are handled, and the sends are made. -/
  handles : ∃ log', run trackerStep log (trackerInputs seen) = .ok log' ∧ log'.peers = p ∧
    log'.sends.map Send.wire = log.sends.map Send.wire ++ sentIn seen
  /-- They are messages of the connection. -/
  handled : ∀ fd' h, .handled fd' h ∈ seen → fd' = fd ∧ h.fromaddr = fromaddr ∧ h.Unpacked
  /-- No connection is accepted. -/
  accepted : ∀ fd' fromaddr', .accepted fd' fromaddr' ∉ seen
  /-- Otherwise bytes are received or handed over. -/
  events : ∀ ev, .event ev ∈ seen → ev.Moves

section Visit

variable {w₀ : Watch} {l₀ : Link} {ctx : CtxPtr} {p p' : Peers} {n n' : Net} {log : TrackerLog}
  {fd : ℕ} {fromaddr : HostAddr} {seen : List LoopSeen}

/-- A visit without events. -/
theorem TrackerLog.visited_nil (log : TrackerLog) (fd : ℕ) (fromaddr : HostAddr) :
    log.Visited log.peers fd fromaddr [] :=
  ⟨⟨log, rfl, rfl, (List.append_nil _).symm⟩, fun _ _ hmem => absurd hmem List.not_mem_nil,
    fun _ _ => List.not_mem_nil, fun _ hmem => absurd hmem List.not_mem_nil⟩

/-- A message, and what comes behind it. -/
theorem TrackerLog.Visited.cons {log' : TrackerLog} {h : Handled} {evs : List LoopEvent}
    (hfrom : h.fromaddr = fromaddr) (hunpacked : h.Unpacked)
    (hrun : run trackerStep log h.input.toList = .ok log')
    (hsends : log'.sends.map Send.wire =
      log.sends.map Send.wire ++ evs.filterMap LoopEvent.send)
    (hevs : ∀ ev ∈ evs, ev.Moves) (hrest : log'.Visited p fd fromaddr seen) :
    log.Visited p fd fromaddr (.handled fd h :: (evs.map .event ++ seen)) := by
  obtain ⟨⟨log'', hrun', hpeers, hsends'⟩, hhandled, haccepted, hevents⟩ := hrest
  refine ⟨⟨log'', ?_, hpeers, ?_⟩, fun fd' h' hmem => ?_, fun fd' fromaddr' hmem => ?_,
    fun ev hmem => ?_⟩
  · have hinputs : trackerInputs (.handled fd h :: (evs.map .event ++ seen)) =
        h.input.toList ++ trackerInputs seen := by
      have hone : trackerInputs [.handled fd h] = h.input.toList := by
        change List.filterMap LoopSeen.input [.handled fd h] = _
        rw [List.filterMap_cons, List.filterMap_nil, LoopSeen.input]
        cases h.input <;> rfl
      rw [← List.singleton_append, trackerInputs_append, hone, trackerInputs_append,
        trackerInputs_event, List.nil_append]
    rw [hinputs, run_append, hrun, ok_bind]
    exact hrun'
  · have hsent : sentIn (.handled fd h :: (evs.map .event ++ seen)) =
        evs.filterMap LoopEvent.send ++ sentIn seen := by
      rw [← sentIn_event, ← sentIn_append]
      rfl
    rw [hsent, hsends', hsends, List.append_assoc]
  · rcases List.mem_cons.mp hmem with heq | hmem
    · obtain ⟨rfl, rfl⟩ := LoopSeen.handled.inj heq
      exact ⟨rfl, hfrom, hunpacked⟩
    · rcases List.mem_append.mp hmem with hmem | hmem
      · obtain ⟨ev, -, heq⟩ := List.mem_map.mp hmem
        cases heq
      · exact hhandled fd' h' hmem
  · rcases List.mem_cons.mp hmem with heq | hmem
    · cases heq
    · rcases List.mem_append.mp hmem with hmem | hmem
      · obtain ⟨ev, -, heq⟩ := List.mem_map.mp hmem
        cases heq
      · exact haccepted fd' fromaddr' hmem
  · rcases List.mem_cons.mp hmem with heq | hmem
    · cases heq
    · rcases List.mem_append.mp hmem with hmem | hmem
      · obtain ⟨ev', hev', heq⟩ := List.mem_map.mp hmem
        obtain rfl := LoopSeen.event.inj heq
        exact hevs ev' hev'
      · exact hevents ev hmem

/-- The loop over the received bytes. -/
theorem Tending.frameLoop_visited (hw₀ : w₀.WF) (hl₀ : l₀ ∈ w₀.links) (h0 : l₀.toaddr = 0)
    (h : Tending w₀ l₀ ctx p n) {fuel : ℕ} {envs : List MsgEnv} {readEof readEof' : Bool}
    (hloop : trackerFrameLoop ctx fuel envs readEof p n = .ok (p', n', readEof')) (fd : ℕ)
    (hlog : log.peers = p) :
    log.Visited p' fd l₀.fromaddr (frameLoopSeen fd ctx fuel envs p n) := by
  induction fuel generalizing envs readEof p n log with
  | zero =>
    obtain ⟨rfl, -⟩ := Prod.mk.inj (Except.ok.inj hloop)
    rw [frameLoopSeen, ← hlog]
    exact log.visited_nil _ _
  | succ fuel ih =>
    have hstop : ∀ {eof : Bool}, (.ok (p, n, eof) : Exec (Peers × Net × Bool)) =
        .ok (p', n', readEof') → log.Visited p' fd l₀.fromaddr [] := by
      intro eof heq
      obtain ⟨rfl, -⟩ := Prod.mk.inj (Except.ok.inj heq)
      rw [← hlog]
      exact log.visited_nil _ _
    have hctx : (n.memory.ctx ctx).fromaddr = l₀.fromaddr := congrArg Link.fromaddr h.link
    rw [trackerFrameLoop] at hloop
    rw [frameLoopSeen]
    dsimp only at hloop ⊢
    by_cases hlen : (n.memory.ctx ctx).msglen = 0
    · rw [if_pos hlen] at hloop ⊢
      by_cases htwo : 2 ≤ (n.memory.buffer (n.memory.ctx ctx).readbuf).len
      · rw [if_pos htwo] at hloop ⊢
        by_cases hzero : prefixLen (n.memory.buffer (n.memory.ctx ctx).readbuf) = 0
        · rw [if_pos hzero] at hloop ⊢
          exact hstop hloop
        · rw [if_neg hzero] at hloop ⊢
          exact ih (h.putReadbuf _ _) hloop hlog
      · rw [if_neg htwo] at hloop ⊢
        exact hstop hloop
    · rw [if_neg hlen] at hloop ⊢
      by_cases hbody : (n.memory.ctx ctx).msglen ≤
          (n.memory.buffer (n.memory.ctx ctx).readbuf).len
      · rw [if_pos hbody] at hloop ⊢
        obtain ⟨⟨p₁, n₁⟩, hhandle, hloop⟩ := bind_eq_ok.mp hloop
        obtain ⟨hafter, -⟩ := h.handleMsgBytes hw₀ hl₀ h0 hhandle
        have hfrom : hostAddrAddr (n.memory.ctx ctx).fromaddr ≠ 0 :=
          hctx ▸ (hw₀.incoming l₀ hl₀ h0).2.2
        obtain ⟨log', hrun, hpeers, hsends⟩ :=
          handleMsgBytes_refines h.peers h.addressed hfrom hhandle hlog
        rw [hhandle]
        have htake := take_contents hbody
        have hlength : ((n.memory.buffer (n.memory.ctx ctx).readbuf).bs.take
            (n.memory.ctx ctx).msglen).length = (n.memory.ctx ctx).msglen := by
          rw [← htake, List.length_take, Buffer.length_contents, Nat.min_eq_left hbody]
        have hunpacked : Handled.Unpacked ⟨(n.memory.ctx ctx).fromaddr,
            ((n.memory.buffer (n.memory.ctx ctx).readbuf).bs.take (n.memory.ctx ctx).msglen,
              (n.memory.ctx ctx).msglen),
            unpackTrackerMsg (msgMemory (n.memory.buffer (n.memory.ctx ctx).readbuf)
              (envs.headD default).behind) (n.memory.ctx ctx).msglen
              (envs.headD default).listenport⟩ := by
          refine ⟨hlength.symm, msgMemory (n.memory.buffer (n.memory.ctx ctx).readbuf)
            (envs.headD default).behind, (envs.headD default).listenport, ?_, ?_⟩
          · dsimp only
            rw [← htake]
            exact holds_msgMemory _ _ _
          · dsimp only
            rw [hlength]
        exact .cons hctx hunpacked hrun hsends (handleEvents_moves h.peers)
          (ih (hafter.putReadbuf _ _) hloop hpeers)
      · rw [if_neg hbody] at hloop ⊢
        exact hstop hloop

end Visit

/-! ## A step of the loop -/

/-- The address that the last connection accepted at a descriptor comes from. -/
def originStep (fd : ℕ) (fromaddr : HostAddr) : LoopSeen → HostAddr
  | .accepted fd' fromaddr' => if fd' = fd then fromaddr' else fromaddr
  | _ => fromaddr

/-- The address that the connection at a descriptor comes from. -/
def originOf (fd : ℕ) (seen : List LoopSeen) : HostAddr := seen.foldl (originStep fd) 0

section Step

variable {t t' : Tracker} {a : Answers} {goOn : Bool} {log : TrackerLog} {seen : List LoopSeen}

/-- Accepting a connection does not touch the peer table. -/
theorem acceptBranch_peers (h : acceptBranch t a = .ok (t', goOn)) : t'.peers = t.peers := by
  unfold acceptBranch at h
  cases haccept : a.accept with
  | failed =>
    simp only [haccept] at h
    obtain ⟨rfl, -⟩ := Prod.mk.inj (Except.ok.inj h)
    rfl
  | other fd =>
    simp only [haccept] at h
    obtain ⟨n, -, heq⟩ := bind_eq_ok.mp h
    obtain ⟨rfl, -⟩ := Prod.mk.inj (Except.ok.inj heq)
    rfl
  | ipv4 fd sa =>
    simp only [haccept] at h
    obtain ⟨n, -, h⟩ := bind_eq_ok.mp h
    split at h
    · cases h
    obtain ⟨⟨m, ctxs, p⟩, -, h⟩ := bind_eq_ok.mp h
    obtain ⟨readfds, -, heq⟩ := bind_eq_ok.mp h
    obtain ⟨rfl, -⟩ := Prod.mk.inj (Except.ok.inj heq)
    rfl

/-- The accepted connections at the end are accepted connections at the beginning. -/
def Tracker.NoneAccepted (t t' : Tracker) : Prop :=
  ∀ l' ∈ t'.watch.links, l'.toaddr = 0 → ∃ l ∈ t.watch.links, l.toaddr = 0 ∧ l.fd = l'.fd ∧
    l.fromaddr = l'.fromaddr

/-- What a step of the loop is, with what is seen of it in the refined record. -/
inductive Tracker.SeenStep (t : Tracker) (a : Answers) : Tracker → List LoopSeen → Prop
  /-- Nothing is seen. -/
  | quiet {t' : Tracker} (hpeers : t'.peers = t.peers) (hlinks : t.NoneAccepted t') :
    SeenStep t a t' []
  /-- A visit to `listenfd`. -/
  | accept {t' : Tracker} {goOn : Bool} (h : acceptBranch t a = .ok (t', goOn)) :
    SeenStep t a { t' with i := t'.i + 1 } (acceptSeen a)
  /-- A visit to a connection that bytes have arrived at. -/
  | read {t' : Tracker} {goOn : Bool} (hread : t.i ∈ t.readfds) (hne : t.i ≠ t.listenfd)
    (h : readBranch t a = .ok (t', goOn)) :
    SeenStep t a { t' with i := t'.i + 1 } (readSeen t a)

/-- Sending does not touch the peer table, and accepts nothing. -/
theorem writeBranch_quiet (ht : t.WF) (hi : t.i ∈ t.net.writefds) (h : writeBranch t a = .ok t') :
    t'.peers = t.peers ∧ t.NoneAccepted t' := by
  constructor
  · obtain ⟨i, hlt, n₁, buf, -, -, -, -, hrun⟩ := writeBranch_eq (a := a) ht hi
    obtain rfl := Except.ok.inj (hrun.symm.trans h)
    rfl
  · obtain ⟨t₁, c, hrun, -, -, -, -, hwatch⟩ := writeBranch_ok (a := a) ht hi
    obtain rfl := Except.ok.inj (hrun.symm.trans h)
    -- only the number of bytes that wait has changed
    obtain ⟨pending, hlinks⟩ : ∃ pending,
        t₁.watch.links = (t.watch.setPending t.i pending).links := by
      split at hwatch
      · obtain ⟨k, -, heq⟩ := hwatch
        refine ⟨k, ?_⟩
        rw [heq]
        rfl
      · refine ⟨0, ?_⟩
        rw [hwatch]
        rfl
    intro l' hl' h0
    rw [hlinks] at hl'
    obtain ⟨l, hl, rfl⟩ := List.mem_map.mp hl'
    refine ⟨l, hl, ?_⟩
    by_cases hfd : l.fd = t.i
    · rw [if_pos hfd] at h0 ⊢
      exact ⟨h0, rfl, rfl⟩
    · rw [if_neg hfd] at h0 ⊢
      exact ⟨h0, rfl, rfl⟩

/-- A step of the loop is one of these. -/
theorem loopStep_seen (ht : t.WF) (h : loopStep t a = .ok t') :
    t.SeenStep a t' (loopSeen t a) := by
  have hsame : t.NoneAccepted t := fun l hl h0 => ⟨l, hl, h0, rfl, rfl⟩
  unfold loopStep at h
  unfold loopSeen
  by_cases hi : t.i ≤ t.net.maxfd
  case neg =>
    rw [if_neg hi] at h
    obtain rfl := Except.ok.inj h
    rw [if_neg fun hboth => hi hboth.1]
    exact .quiet rfl hsame
  rw [if_pos hi, trackerVisit] at h
  by_cases hmem : t.i ∈ t.tmpReadfds
  case neg =>
    rw [if_neg hmem, ok_bind] at h
    rw [if_neg fun hboth => hmem hboth.2]
    replace h : (if true = true ∧ t.i ∈ t.tmpWritefds then do
        let t ← writeBranch t a
        .ok { t with i := t.i + 1 }
      else .ok { t with i := t.i + 1 }) = Except.ok t' := h
    by_cases hwrite : t.i ∈ t.tmpWritefds
    · rw [if_pos ⟨rfl, hwrite⟩] at h
      obtain ⟨t₁, hbranch, heq⟩ := bind_eq_ok.mp h
      obtain rfl := Except.ok.inj heq
      obtain ⟨hpeers, hlinks⟩ := writeBranch_quiet ht ((ht.scan t.i le_rfl).2 hwrite) hbranch
      exact .quiet hpeers hlinks
    · rw [if_neg fun hboth => hwrite hboth.2] at h
      obtain rfl := Except.ok.inj h
      exact .quiet rfl hsame
  rw [if_pos hmem] at h
  rw [if_pos ⟨hi, hmem⟩]
  have hread := (ht.scan t.i le_rfl).1 hmem
  -- what is watched for reading is not watched for writing
  have hend : ∀ {t₁ : Tracker} {goOn : Bool}, t.Branched t₁ →
      (if goOn = true ∧ t₁.i ∈ t₁.tmpWritefds then do
        let t ← writeBranch t₁ a
        .ok { t with i := t.i + 1 }
      else .ok { t₁ with i := t₁.i + 1 }) = Except.ok t' → { t₁ with i := t₁.i + 1 } = t' := by
    intro t₁ goOn hbranched hrest
    have hwrite : ¬ (goOn = true ∧ t₁.i ∈ t₁.tmpWritefds) := by
      rw [hbranched.i, hbranched.tmpWritefds]
      rintro ⟨-, hboth⟩
      exact ht.watch.notMem_readfds ((ht.scan t.i le_rfl).2 hboth) hread
    rw [if_neg hwrite] at hrest
    exact Except.ok.inj hrest
  by_cases hlisten : t.i = t.listenfd
  · rw [if_pos hlisten] at h ⊢
    obtain ⟨⟨t₁, goOn⟩, hbranch, hrest⟩ := bind_eq_ok.mp h
    obtain rfl := hend (acceptBranch_ok ht hbranch).1 hrest
    exact .accept hbranch
  · rw [if_neg hlisten] at h ⊢
    obtain ⟨⟨t₁, goOn⟩, hbranch, hrest⟩ := bind_eq_ok.mp h
    obtain rfl := hend (readBranch_ok ht hread hlisten hbranch).1 hrest
    exact .read hread hlisten hbranch

/-- Sends accept no connection. -/
theorem Watch.Sends.mem_of_accepted {w w' : Watch} (hw : w.WF) (h : w.Sends w')
    (hread : w'.readfds = w.readfds) (hlisten : w'.listenfd = w.listenfd) {l : Link}
    (hl : l ∈ w'.links) (h0 : l.toaddr = 0) : l ∈ w.links := by
  have hw' := hw.steps h.steps
  have hfd := (hw'.incoming l hl h0).1
  rw [hread] at hfd
  rcases hw.readfds l.fd hfd with hlis | ⟨c, hc, hcfd, hc0⟩
  · exact absurd (hlis.trans hlisten.symm) (hw'.not_listen l hl)
  · have hsame := hw'.link_inj (h.incoming c hc hc0) hl hcfd
    exact hsame ▸ hc

/-- A visit that receives leads a tracker that handles one message after the other to the peer table
that is left, and accepts nothing. -/
theorem readBranch_visited (ht : t.WF) (hapart : t.net.memory.Apart t.contexts)
    (hi : t.i ∈ t.readfds) (hne : t.i ≠ t.listenfd) (h : readBranch t a = .ok (t', goOn))
    (hlog : log.peers = t.peers) :
    (∃ l ∈ t.watch.links, l.toaddr = 0 ∧ l.fd = t.i ∧
      log.Visited t'.peers t.i l.fromaddr (readSeen t a)) ∧ t.NoneAccepted t' := by
  obtain ⟨c, ctx, readbuf, p, n, readEof, hreading⟩ := readBranch_reading ht hapart hi hne h
  have hl : c.link ∈ t.watch.links := List.mem_map_of_mem hreading.mem
  constructor
  · refine ⟨c.link, hl, hreading.toaddr, hreading.fd, ?_⟩
    have hfind : socketCtxFindByFd t.net.memory t.net.socketctxs t.i = .ok
        ((t.contexts.findIdx? fun c => c.fd = t.i).map fun i => ⟨t.net.socketctxs.items, i⟩) :=
      socketCtxFindByFd_eq _ _ _
    cases hidx : t.contexts.findIdx? fun c => c.fd = t.i with
    | none =>
      have hnone := lookup_eq_none_iff.mp (findIdx?_eq_none_iff_lookup.mp hidx)
      exact absurd hreading.fd (hnone c hreading.mem)
    | some i =>
      obtain ⟨hlt, hvalid, hctx, hfd, -⟩ := ht.found hidx
      have hsame : t.contexts[i] = c := List.inj_on_of_nodup_map ht.net.fds_nodup
        (List.getElem_mem hlt) hreading.mem (hfd.trans hreading.fd.symm)
      rw [hsame] at hctx
      have htending : Tending t.watch c.link ⟨t.net.socketctxs.items, i⟩ t.peers t.net := by
        refine ⟨⟨ht.peers, ht.addressed, ht.array, .refl _, hvalid, by rw [hctx]⟩, ?_⟩
        refine hapart.mono le_rfl fun d hd => ?_
        rcases List.mem_cons.mp hd with rfl | hd
        · exact hctx ▸ hreading.mem
        · exact hd
      rw [readBranch, hfind, ok_bind, hidx, Option.map_some] at h
      rw [readSeen, hfind, hidx, Option.map_some]
      dsimp only at h ⊢
      obtain ⟨⟨p, n, readEof⟩, hloop, h⟩ := bind_eq_ok.mp h
      have hvisited := (htending.putReadbuf _ _).frameLoop_visited ht.watch hl hreading.toaddr
        hloop t.i hlog
      have hpeers : t'.peers = p := by
        dsimp only at h
        split at h
        · obtain ⟨readfds, -, h⟩ := bind_eq_ok.mp h
          obtain ⟨n', -, heq⟩ := bind_eq_ok.mp h
          rw [← (Prod.mk.inj (Except.ok.inj heq)).1]
        · rw [← (Prod.mk.inj (Except.ok.inj h)).1]
      rw [hpeers]
      -- the bytes that arrive are no message yet
      obtain ⟨hhandles, hhandled, haccepted, hevents⟩ := hvisited
      refine ⟨hhandles, fun fd h hmem => hhandled fd h ?_, fun fd fromaddr hmem => ?_,
        fun ev hmem => ?_⟩
      · exact (List.mem_cons.mp hmem).resolve_left LoopSeen.noConfusion
      · exact haccepted fd fromaddr ((List.mem_cons.mp hmem).resolve_left LoopSeen.noConfusion)
      · rcases List.mem_cons.mp hmem with heq | hmem
        · obtain rfl := LoopSeen.event.inj heq
          trivial
        · exact hevents ev hmem
  · have hserving := (hreading.tending.putReadbuf readbuf c.msglen).toServing.frameLoop
      ht.watch hl hreading.toaddr hreading.loop
    have hkept : ∀ d ∈ n.contexts, d.toaddr = 0 → d.link ∈ t.watch.links := fun d hd h0 =>
      hserving.sends.mem_of_accepted ht.watch rfl rfl (List.mem_map_of_mem hd) h0
    intro l' hl' h0
    obtain ⟨d, hd, rfl⟩ := List.mem_map.mp hl'
    refine ⟨d.link, hkept d ?_ h0, h0, rfl, rfl⟩
    cases hreadEof : readEof with
    | true =>
      have hclosed : t'.contexts = n.contexts.filter fun d => d.fd ≠ c.fd :=
        (hreading.closed hreadEof).contexts
      have hmem : d ∈ t'.contexts := hd
      rw [hclosed] at hmem
      exact List.mem_of_mem_filter hmem
    | false =>
      have hmem : d ∈ t'.net.contexts := hd
      rwa [hreading.goesOn hreadEof] at hmem

/-- Accepting a connection adds its link, and is seen. -/
theorem acceptBranch_links (h : acceptBranch t a = .ok (t', goOn)) :
    (acceptSeen a = [] ∧ t'.watch.links = t.watch.links) ∨
      ∃ fd fromaddr, acceptSeen a = [.accepted fd fromaddr] ∧ fd ∉ t.net.fds ∧
        t'.watch.links = t.watch.links ++ [⟨fd, fromaddr, 0, 0, false⟩] := by
  unfold acceptBranch at h
  unfold acceptSeen
  cases haccept : a.accept with
  | failed =>
    simp only [haccept] at h
    obtain ⟨rfl, -⟩ := Prod.mk.inj (Except.ok.inj h)
    exact Or.inl ⟨rfl, rfl⟩
  | other fd =>
    simp only [haccept] at h
    obtain ⟨n, hopen, heq⟩ := bind_eq_ok.mp h
    obtain ⟨-, rfl⟩ := (openFd_meets _ _).of_ok hopen
    obtain ⟨rfl, -⟩ := Prod.mk.inj (Except.ok.inj heq)
    exact Or.inl ⟨rfl, rfl⟩
  | ipv4 fd sa =>
    simp only [haccept] at h
    obtain ⟨n, hopen, h⟩ := bind_eq_ok.mp h
    obtain ⟨hnew, rfl⟩ := (openFd_meets _ _).of_ok hopen
    split at h
    · cases h
    obtain ⟨⟨m, ctxs, p⟩, hnewctx, h⟩ := bind_eq_ok.mp h
    obtain ⟨readfds, -, heq⟩ := bind_eq_ok.mp h
    obtain ⟨rfl, -⟩ := Prod.mk.inj (Except.ok.inj heq)
    obtain ⟨hlist, -⟩ := socketCtxNew_ok hnewctx
    refine Or.inr ⟨fd, hostAddrFromSockAddr sa, rfl, hnew, ?_⟩
    have hlinks := congrArg (List.map SocketCtx.link) hlist
    rw [List.map_append] at hlinks
    exact hlinks

end Step

/-! ## Whole runs -/

/-- The tracker of the loop has handled what is seen of it, one message after the other. -/
structure Tracker.Handles (t : Tracker) (seen : List LoopSeen) : Prop where
  /-- A tracker that handles one message after the other has the same table, and has made the same
  sends. -/
  refines : ∃ log, run trackerStep trackerLogInit (trackerInputs seen) = .ok log ∧
    log.peers = t.peers ∧ log.sends.map Send.wire = sentIn seen
  /-- The connections come from where they were accepted from. -/
  origins : ∀ l ∈ t.watch.links, l.toaddr = 0 → l.fromaddr = originOf l.fd seen
  /-- The messages come from there, and are unpacked of the bytes. -/
  handled : ∀ before fd h after, seen = before ++ .handled fd h :: after →
    h.fromaddr = originOf fd before ∧ h.Unpacked
  /-- The addresses that connections were accepted from are 64-bit numbers. -/
  addresses : ∀ fd fromaddr, .accepted fd fromaddr ∈ seen → fromaddr < 2 ^ 64
  /-- Otherwise bytes are received or handed over. -/
  events : ∀ ev, .event ev ∈ seen → ev.Moves

section Runs

variable {t t' : Tracker} {a : Answers} {seen evs : List LoopSeen}

/-- Where nothing is accepted the connections stay the same. -/
theorem originOf_append {fd : ℕ} (h : ∀ fromaddr, .accepted fd fromaddr ∉ evs) :
    originOf fd (seen ++ evs) = originOf fd seen := by
  rw [originOf, List.foldl_append, ← originOf]
  induction evs using List.reverseRecOn with
  | nil => rfl
  | append_singleton evs ev ih =>
    rw [List.foldl_append, ih fun fromaddr hmem => h fromaddr (List.mem_append_left _ hmem)]
    cases ev with
    | accepted fd' fromaddr =>
      have hne : fd' ≠ fd := fun heq =>
        h fromaddr (List.mem_append_right _ (heq ▸ List.mem_singleton_self _))
      exact if_neg hne
    | handled fd' handled => rfl
    | event ev => rfl

/-- The address of a connection is one of those accepted from. -/
theorem originOf_lt (h : ∀ fd fromaddr, .accepted fd fromaddr ∈ seen → fromaddr < 2 ^ 64)
    (fd : ℕ) : originOf fd seen < 2 ^ 64 := by
  induction seen using List.reverseRecOn with
  | nil => exact Nat.two_pow_pos 64
  | append_singleton seen ev ih =>
    have hbefore := ih fun fd' fromaddr hmem => h fd' fromaddr (List.mem_append_left _ hmem)
    rw [originOf, List.foldl_append]
    cases ev with
    | accepted fd' fromaddr =>
      change (if fd' = fd then fromaddr else originOf fd seen) < 2 ^ 64
      split
      · exact h fd' fromaddr (List.mem_append_right _ (List.mem_singleton_self _))
      · exact hbefore
    | handled fd' handled => exact hbefore
    | event ev => exact hbefore

/-- A message in a longer record. -/
theorem Tracker.Handles.handled_append (h : t.Handles seen)
    (hnew : ∀ before fd handled after, evs = before ++ .handled fd handled :: after →
      handled.fromaddr = originOf fd (seen ++ before) ∧ handled.Unpacked) {before : List LoopSeen}
    {fd : ℕ} {handled : Handled} {after : List LoopSeen}
    (heq : seen ++ evs = before ++ .handled fd handled :: after) :
    handled.fromaddr = originOf fd before ∧ handled.Unpacked := by
  rcases append_eq_append_cons heq with ⟨rest, rfl, hevs⟩ | ⟨rest, hseen⟩
  · exact hnew rest fd handled after hevs
  · exact h.handled before fd handled rest hseen

/-- A step of the loop. -/
theorem loopStep_handles (ht : t.WF) (hapart : t.net.memory.Apart t.contexts)
    (hh : t.Handles seen) (h : loopStep t a = .ok t') : t'.Handles (seen ++ loopSeen t a) := by
  have hstep := loopStep_seen ht h
  generalize loopSeen t a = evs at hstep
  cases hstep with
  | quiet hpeers hlinks =>
    rw [List.append_nil]
    refine ⟨?_, fun l' hl' h0 => ?_, hh.handled, hh.addresses, hh.events⟩
    · rw [hpeers]
      exact hh.refines
    · obtain ⟨l, hl, hl0, hfd, hfrom⟩ := hlinks l' hl' h0
      rw [← hfd, ← hfrom]
      exact hh.origins l hl hl0
  | @accept t₁ goOn hbranch =>
    obtain ⟨log, hrun, hpeers, hsends⟩ := hh.refines
    have hnone : trackerInputs (acceptSeen a) = [] ∧ sentIn (acceptSeen a) = [] := by
      unfold acceptSeen
      cases a.accept <;> exact ⟨rfl, rfl⟩
    refine ⟨⟨log, ?_, hpeers.trans (acceptBranch_peers hbranch).symm, ?_⟩, fun l hl h0 => ?_,
      fun before fd handled after heq => hh.handled_append ?_ heq, fun fd fromaddr hmem => ?_,
      fun ev hmem => ?_⟩
    · rw [trackerInputs_append, hnone.1, List.append_nil]
      exact hrun
    · rw [sentIn_append, hnone.2, List.append_nil]
      exact hsends
    · have hl' : l ∈ t₁.watch.links := hl
      rcases acceptBranch_links hbranch with ⟨hseen, hlinks⟩ | ⟨fd, fromaddr, hseen, hnew, hlinks⟩
      · rw [hlinks] at hl'
        rw [hseen, List.append_nil]
        exact hh.origins l hl' h0
      · rw [hlinks] at hl'
        rw [hseen]
        rcases List.mem_append.mp hl' with hold | hmem
        · have hne : fd ≠ l.fd := fun heq => hnew (heq ▸ ht.watch.fds_open l hold)
          rw [originOf_append fun fromaddr' hmem => ?_]
          · exact hh.origins l hold h0
          · exact hne (LoopSeen.accepted.inj (List.mem_singleton.mp hmem)).1.symm
        · obtain rfl := List.mem_singleton.mp hmem
          rw [originOf, List.foldl_append]
          exact (if_pos rfl).symm
    · intro before fd handled after heq
      have hmem : .handled fd handled ∈ acceptSeen a := by
        rw [heq]
        exact List.mem_append_right _ List.mem_cons_self
      unfold acceptSeen at hmem
      split at hmem
      · exact absurd (List.mem_singleton.mp hmem) LoopSeen.noConfusion
      · exact absurd hmem List.not_mem_nil
    · rcases List.mem_append.mp hmem with hmem | hmem
      · exact hh.addresses fd fromaddr hmem
      · unfold acceptSeen at hmem
        split at hmem
        · obtain ⟨-, rfl⟩ := LoopSeen.accepted.inj (List.mem_singleton.mp hmem)
          exact hostAddrFromSockAddr_lt _
        · exact absurd hmem List.not_mem_nil
    · rcases List.mem_append.mp hmem with hmem | hmem
      · exact hh.events ev hmem
      · unfold acceptSeen at hmem
        split at hmem
        · exact absurd (List.mem_singleton.mp hmem) LoopSeen.noConfusion
        · exact absurd hmem List.not_mem_nil
  | @read t₁ goOn hread hne hbranch =>
    obtain ⟨log, hrun, hpeers, hsends⟩ := hh.refines
    obtain ⟨⟨l, hl, hl0, hfd, hvisited⟩, hlinks⟩ :=
      readBranch_visited ht hapart hread hne hbranch hpeers
    obtain ⟨log', hrun', hpeers', hsends'⟩ := hvisited.handles
    refine ⟨⟨log', ?_, hpeers', ?_⟩, fun l' hl' h0 => ?_,
      fun before fd handled after heq => hh.handled_append ?_ heq, fun fd fromaddr hmem => ?_,
      fun ev hmem => ?_⟩
    · rw [trackerInputs_append, run_append, hrun, ok_bind]
      exact hrun'
    · rw [sentIn_append, hsends', hsends]
    · obtain ⟨d, hd, hd0, hdfd, hfrom⟩ := hlinks l' hl' h0
      rw [originOf_append fun fromaddr => hvisited.accepted _ fromaddr, ← hdfd, ← hfrom]
      exact hh.origins d hd hd0
    · intro before fd handled after heq
      obtain ⟨rfl, hfrom, hunpacked⟩ := hvisited.handled fd handled (by simp [heq])
      have hnone : ∀ fromaddr, .accepted t.i fromaddr ∉ before := fun fromaddr hmem =>
        hvisited.accepted t.i fromaddr (by simp [heq, hmem])
      rw [originOf_append hnone, hfrom]
      exact ⟨(hh.origins l hl hl0).trans (by rw [hfd]), hunpacked⟩
    · rcases List.mem_append.mp hmem with hmem | hmem
      · exact hh.addresses fd fromaddr hmem
      · exact absurd hmem (hvisited.accepted fd fromaddr)
    · rcases List.mem_append.mp hmem with hmem | hmem
      · exact hh.events ev hmem
      · exact hvisited.events ev hmem

/-- The blocks of the contexts stay apart. -/
theorem loopStep_apart (ht : t.WF) (hapart : t.net.memory.Apart t.contexts)
    (h : loopStep t a = .ok t') : t'.net.memory.Apart t'.contexts := by
  have hstepped := loopStep_stepped ht h
  generalize loopEvents t a = evs at hstepped
  cases hstepped with
  | idle hnet =>
    rw [Tracker.contexts, hnet]
    exact hapart
  | accept hbranch => exact (acceptBranch_carries ht hapart hbranch).1
  | read _ _ hread hne hbranch => exact (readBranch_carries ht hapart hread hne hbranch).1
  | write hwrite hbranch => exact (writeBranch_keeps ht hapart hwrite hbranch).1

/-- What is seen of a run has been handled. -/
theorem loopRun_handles {listenfd : Fin fdSetSize} {fds : Finset ℕ} {es : List Answers}
    (hrun : run (traced loopStep loopSeen) (trackerInit listenfd fds, []) es = .ok (t, seen)) :
    t.Handles seen := by
  have hnil : ∀ fd handled before after, ([] : List LoopSeen) ≠
      before ++ .handled fd handled :: after := by
    intro fd handled before after heq
    exact List.cons_ne_nil _ _ (List.append_eq_nil_iff.mp heq.symm).2
  have hinit : (trackerInit listenfd fds).Handles [] := by
    refine ⟨⟨trackerLogInit, rfl, rfl, rfl⟩, fun l hl => absurd hl List.not_mem_nil, ?_,
      fun fd fromaddr hmem => absurd hmem List.not_mem_nil, fun ev hmem => absurd hmem
        List.not_mem_nil⟩
    intro before fd handled after heq
    exact absurd heq (hnil fd handled before after)
  have hapart : (trackerInit listenfd fds).net.memory.Apart (trackerInit listenfd fds).contexts :=
    Memory.apart_nil _
  refine (run_invariant (I := fun s : Tracker × List LoopSeen => s.1.WF ∧
    s.1.net.memory.Apart s.1.contexts ∧ s.1.Handles s.2) ?_
    ⟨trackerInit_wf listenfd fds, hapart, hinit⟩ hrun).2.2
  rintro s a s' ⟨ht, hapart, hh⟩ hs'
  obtain ⟨t₁, ht₁, heq⟩ := bind_eq_ok.mp hs'
  obtain rfl := Except.ok.inj heq
  exact ⟨loopStep_wf ht ht₁, loopStep_apart ht hapart ht₁, loopStep_handles ht hapart hh ht₁⟩

/-- In every run of the loop a tracker that handles the messages one after the other has the same
peer table and has made the same sends; and every message is what is unpacked of the bytes that were
dispatched, with the address that its connection was accepted from. -/
theorem loop_refines (listenfd : Fin fdSetSize) (fds : Finset ℕ) (es : List Answers)
    (hrun : run (traced loopStep loopSeen) (trackerInit listenfd fds, []) es = .ok (t, seen)) :
    run (traced loopStep loopEvents) (trackerInit listenfd fds, []) es =
        .ok (t, seen.map LoopSeen.loopEvent) ∧
      (∃ log, run trackerStep trackerLogInit (trackerInputs seen) = .ok log ∧
        log.peers = t.peers ∧ log.sends.map Send.wire = sentIn seen) ∧
      ∀ before fd h after, seen = before ++ .handled fd h :: after →
        h.fromaddr = originOf fd before ∧ h.Unpacked := by
  have hh := loopRun_handles hrun
  exact ⟨run_traced_map loopSeen_event hrun, hh.refines, hh.handled⟩

/-- What is left and seen when a peer that is announced to itself knocks three times. -/
theorem abandoningRun_ok : ∃ t seen,
    run (traced loopStep loopSeen) (trackerInit ⟨3, by decide⟩ {0, 1, 2}, []) abandoningRun =
      .ok (t, seen) ∧
    trackerInputs seen = List.replicate 3
      (4294984073343, .knock (CStr.ofBytes [97]) (CStr.ofBytes [104]) 1234) ∧
    t.net.accepted 5 = (List.replicate 2 [0, 23, 1, 0, 1, 97, 0, 1, 104, 0, 0, 3, 232, 1, 0, 0, 127,
      0, 0, 210, 4, 1, 0, 0, 127]).flatten ∧
    (t.contexts.map fun c => (c.fd, c.toaddr)) = [(4, 0), (5, 230914638479487)] := by
  have hview : (run (traced loopStep loopSeen) (trackerInit ⟨3, by decide⟩ {0, 1, 2}, [])
      abandoningRun).toOption.map (fun s => (trackerInputs s.2, s.1.net.accepted 5,
        s.1.contexts.map fun c => (c.fd, c.toaddr))) =
      some (List.replicate 3 (4294984073343, .knock (CStr.ofBytes [97]) (CStr.ofBytes [104]) 1234),
        (List.replicate 2 [0, 23, 1, 0, 1, 97, 0, 1, 104, 0, 0, 3, 232, 1, 0, 0, 127,
          0, 0, 210, 4, 1, 0, 0, 127]).flatten, [(4, 0), (5, 230914638479487)]) := by
    decide +kernel
  obtain ⟨⟨t, seen⟩, hrun, hview⟩ := Option.map_eq_some_iff.mp hview
  obtain ⟨hinputs, hrest⟩ := Prod.mk.inj hview
  obtain ⟨haccepted, hctxs⟩ := Prod.mk.inj hrest
  exact ⟨t, seen, toOption_eq_some.mp hrun, hinputs, haccepted, hctxs⟩

/-- The KNOCKs have been handled one after the other. -/
theorem loop_refines_knocks : ∃ t seen log,
    run (traced loopStep loopSeen) (trackerInit ⟨3, by decide⟩ {0, 1, 2}, []) abandoningRun =
      .ok (t, seen) ∧
    run trackerStep trackerLogInit (List.replicate 3
      (4294984073343, .knock (CStr.ofBytes [97]) (CStr.ofBytes [104]) 1234)) = .ok log ∧
    log.peers = t.peers := by
  obtain ⟨t, seen, hrun, hinputs, -⟩ := abandoningRun_ok
  obtain ⟨-, ⟨log, hlog, hpeers, -⟩, -⟩ := loop_refines _ _ _ hrun
  rw [hinputs] at hlog
  exact ⟨t, seen, log, hrun, hlog, hpeers⟩

end Runs

end TinyMsg
