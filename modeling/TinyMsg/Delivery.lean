import TinyMsg.Client.ThreadRefines
import TinyMsg.Convergence
import TinyMsg.Tracker.Handled

/-!
# The tracker's messages on their way to a client

The bytes that the tracker hands over for an address are frames, one for each message, as long as
the names that are announced are short (`Fits`).  The kernel is given a prefix of them, in order,
and a client that has received a prefix of that handles a prefix of the messages, each of them once
and unpacked to what the tracker sent (`messages_delivered`).  So from the call of `handle_msg` in
the tracker to the call of `handle_msg` in the client nothing is lost in between, invented or
reordered, whatever the two loops do besides and wherever the streams are cut.
-/

namespace TinyMsg

/-! ## Messages that fit -/

/-- The message fits a frame, prefix included, and its fields their conversions. -/
structure PeerMsg.Fits (m : PeerMsg) : Prop where
  /-- The values are in the range of the conversions. -/
  args : ArgsMatch m.fmt m.args
  /-- The 16-bit length of the whole frame does not wrap. -/
  size : m.body.length + 2 < 2 ^ 16

/-- The names of a KNOCK leave room in the message that announces them. -/
def TrackerMsg.Short : TrackerMsg → Prop
  | .knock aliasStr hostname _ => strlen aliasStr + strlen hostname + 23 < 2 ^ 16
  | .bye => True

/-- The addresses of the active records are 64-bit numbers. -/
def Peers.AddrsFit (p : Peers) : Prop :=
  ∀ a info, p.activeAt a = some info → a < 2 ^ 64 ∧ info.toaddr < 2 ^ 64

section Fits

variable {m : PeerMsg} {aliasStr hostname : CStr} {fromaddr toaddr : HostAddr}

theorem fits_online (hnames : strlen aliasStr + strlen hostname + 23 < 2 ^ 16)
    (hfrom : fromaddr < 2 ^ 64) (hto : toaddr < 2 ^ 64) :
    (PeerMsg.online aliasStr hostname fromaddr toaddr).Fits := by
  have halias : strlen aliasStr < 2 ^ 16 := by omega
  have hhostname : strlen hostname < 2 ^ 16 := by omega
  refine ⟨online_argsMatch halias hhostname hfrom hto, ?_⟩
  rw [length_body_online halias hhostname]
  omega

theorem fits_offline (hfrom : fromaddr < 2 ^ 64) : (PeerMsg.offline fromaddr).Fits := by
  constructor
  · rw [ArgsMatch, PeerMsg.fmt, fmtSpecs_peerOffline]
    have hno : MsgNo.peerOffline < 256 ^ 1 := by decide
    exact .cons hno (.cons hfrom .nil)
  · have hlen : (PeerMsg.offline fromaddr).body.length = 9 := by
      change (bigEndian 1 MsgNo.peerOffline ++ (bigEndian 8 fromaddr ++ [])).length = 9
      simp
    rw [hlen]
    decide

/-- The first byte of a message is its number, so it is no message of the other kind. -/
theorem PeerMsg.Fits.decodePeerMsg (h : m.Fits) : decodePeerMsg m.body = some m := by
  have hbody : decode .none m.fmt m.body = some (m.args.map Arg.value) := decode_packedBytes h.args
  cases m with
  | online aliasStr hostname fromaddr toaddr =>
    change decode .none Fmt.peerOnline _ = some [.num 1, .str aliasStr.bytes, .str hostname.bytes,
      .num fromaddr, .num toaddr] at hbody
    rw [TinyMsg.decodePeerMsg, hbody]
    simp only [CStr.ofBytes_bytes]
  | offline fromaddr =>
    change decode .none Fmt.peerOffline _ = some [.num 2, .num fromaddr] at hbody
    have hother : ∀ vs, decode .none Fmt.peerOnline (PeerMsg.offline fromaddr).body = some vs →
        vs.head? = some (.num 2) := by
      intro vs hvs
      have hhead := decode_byte hvs (holds_getD _)
      rwa [← decode_byte hbody (holds_getD _)] at hhead
    rw [TinyMsg.decodePeerMsg, hbody]
    split
    case h_1 honline =>
      have hhead := hother _ honline
      cases hhead
    case h_2 hoffline _ =>
      cases hoffline
      rfl
    case h_3 _ hno =>
      exact absurd rfl (hno fromaddr)

theorem PeerMsg.Fits.body_ne_nil (h : m.Fits) : m.body ≠ [] := by
  intro hnil
  have hdec := h.decodePeerMsg
  rw [hnil] at hdec
  cases hdec

end Fits

/-! ## What the tracker sends -/

section Sends

variable {t t' : TrackerLog} {fromaddr : HostAddr} {m : TrackerMsg}

/-- The names of a record are short. -/
theorem fits_catchUpWith {p : Peers} {toaddr : HostAddr} (hp : p.WF) (ha : p.AddrsFit) {q : Peer}
    (hq : q ∈ p.active) : (catchUpWith fromaddr toaddr q).msg.Fits := by
  obtain ⟨hmem, hactive⟩ := List.mem_filter.mp hq
  obtain ⟨hfrom, hto⟩ := ha q.fromaddr q.info
    ((activeAt_eq_some_iff hp).mpr ⟨q, hmem, hactive, rfl, rfl⟩)
  have halias : strlen q.aliasStr.str ≤ aliasSize - 1 := q.aliasStr.fits
  have hhostname : strlen q.hostname.str ≤ hostnameSize - 1 := q.hostname.fits
  refine fits_online ?_ hfrom hto
  have hsizes : aliasSize - 1 + (hostnameSize - 1) + 23 < 2 ^ 16 := by decide
  omega

/-- What a message announces fits when its names are short. -/
theorem TrackerMsg.Short.fits (h : m.Short) (hfrom : fromaddr < 2 ^ 64) :
    (m.announces fromaddr).Fits := by
  cases m with
  | knock aliasStr hostname listenport =>
    exact fits_online h hfrom (hostAddrFromSockAddr_lt _)
  | bye => exact fits_offline hfrom

/-- The messages sent for a short message fit, and the addresses stay 64-bit numbers. -/
theorem trackerStep_fits (ht : t.peers.WF) (ha : t.peers.AddrsFit) (hfrom : fromaddr < 2 ^ 64)
    (hshort : m.Short) (h : trackerStep t (fromaddr, m) = .ok t') :
    t'.peers.WF ∧ t'.peers.AddrsFit ∧
      ∃ sends, t'.sends = t.sends ++ sends ∧ ∀ x ∈ sends, x.msg.Fits := by
  obtain ⟨sends, hlog, hhandle, hsends⟩ := trackerStep_cases ht h
  have hfits := hshort.fits hfrom
  refine ⟨handleMsg_wf ht hhandle, fun a info hinfo => ?_, sends, ?_, fun x hx => ?_⟩
  · rw [handleMsg_activeAt ht hhandle, Function.update_apply] at hinfo
    split at hinfo
    case isTrue heq =>
      rw [heq]
      cases m with
      | knock aliasStr hostname listenport =>
        obtain rfl := Option.some.inj hinfo
        exact ⟨hfrom, hostAddrFromSockAddr_lt _⟩
      | bye => cases hinfo
    case isFalse => exact ha a info hinfo
  · rw [TrackerLog.sends, hlog, List.flatMap_append, List.flatMap_singleton, TrackerLog.sends]
  · rcases hsends with ⟨_, _, listenport, -, rfl⟩ | ⟨-, rfl⟩
    · rcases List.mem_append.mp hx with hx | hx
      · rw [eq_of_mem_broadcasts hx]
        exact hfits
      · obtain ⟨q, hq, rfl⟩ := List.mem_map.mp hx
        exact fits_catchUpWith ht ha hq
    · rw [eq_of_mem_broadcasts hx]
      exact hfits

/-- All messages sent fit when the messages handled are short. -/
theorem sends_fit {es : List (HostAddr × TrackerMsg)}
    (hes : ∀ e ∈ es, e.1 < 2 ^ 64 ∧ e.2.Short) (hrun : run trackerStep trackerLogInit es = .ok t) :
    ∀ x ∈ t.sends, x.msg.Fits := by
  have hstep : ∀ (s : TrackerLog) (e : HostAddr × TrackerMsg) s',
      s.peers.WF ∧ s.peers.AddrsFit ∧ (∀ x ∈ s.sends, x.msg.Fits) → e.1 < 2 ^ 64 ∧ e.2.Short →
      trackerStep s e = .ok s' →
      s'.peers.WF ∧ s'.peers.AddrsFit ∧ ∀ x ∈ s'.sends, x.msg.Fits := by
    rintro s ⟨fromaddr, m⟩ s' ⟨hwf, ha, hfits⟩ ⟨hfrom, hshort⟩ hs'
    obtain ⟨hwf', ha', sends, heq, hnew⟩ := trackerStep_fits hwf ha hfrom hshort hs'
    refine ⟨hwf', ha', fun x hx => ?_⟩
    rw [heq] at hx
    exact (List.mem_append.mp hx).elim (hfits x) (hnew x)
  have hinit : trackerLogInit.peers.AddrsFit := fun a info hinfo => by
    simp [trackerLogInit] at hinfo
  exact (run_of_good ⟨peersInit_wf, hinit, fun x hx => absurd hx List.not_mem_nil⟩ hstep
    (fun fs e s hfs _ => hes e (hfs.subset (by simp))) hrun).2.2

end Sends

/-! ## The bytes that the tracker hands over -/

/-- What is handed over for an address. -/
def handedTo (toaddr : HostAddr) (sends : List (HostAddr × List UInt8)) : List (List UInt8) :=
  (sends.filter fun x => x.1 = toaddr).map Prod.snd

section Streams

variable {toaddr : HostAddr} {t : Tracker} {seen : List LoopSeen}

theorem handedTo_wire (sends : List Send) :
    handedTo toaddr (sends.map Send.wire) = (msgsTo toaddr sends).map PeerMsg.handed := by
  rw [handedTo, List.filter_map, List.map_map, msgsTo, List.map_map]
  rfl

/-- What a call of `send_msg_to_hostaddr` for an address hands over, and what becomes of it. -/
def LoopEvent.callTo (toaddr : HostAddr) : LoopEvent → Option (List UInt8 × Handover)
  | .sent toaddr' msgbytes out => if toaddr' = toaddr then some (msgbytes, out) else none
  | _ => none

/-- The calls for an address, in order. -/
def callsTo (toaddr : HostAddr) (trace : List LoopEvent) : List (List UInt8 × Handover) :=
  trace.filterMap (LoopEvent.callTo toaddr)

theorem handedTo_send (trace : List LoopEvent) :
    handedTo toaddr (trace.filterMap LoopEvent.send) = (callsTo toaddr trace).map Prod.fst := by
  induction trace with
  | nil => rfl
  | cons ev trace ih =>
    rw [callsTo] at ih
    rw [callsTo]
    cases ev with
    | accepted fd => exact ih
    | received fd bytes => exact ih
    | dispatched fd message => exact ih
    | sent toaddr' msgbytes out =>
      have hsend : LoopEvent.send (.sent toaddr' msgbytes out) = some (toaddr', msgbytes) := rfl
      have hcall : LoopEvent.callTo toaddr (.sent toaddr' msgbytes out) =
          if toaddr' = toaddr then some (msgbytes, out) else none := rfl
      rw [List.filterMap_cons_some hsend]
      by_cases hto : toaddr' = toaddr
      · rw [List.filterMap_cons_some (hcall.trans (if_pos hto)), List.map_cons, ← ih]
        exact congrArg (List.map _) (List.filter_cons_of_pos (by simpa using hto))
      · rw [List.filterMap_cons_none (hcall.trans (if_neg hto)), ← ih]
        exact congrArg (List.map _) (List.filter_cons_of_neg (by simpa using hto))

/-- A call that needs no context: all of the message was sent at once, or the call has failed. -/
def Handover.AtOnce (out : Handover) (msgbytes : List UInt8) : Prop :=
  ∃ ret taken, out = .closed ret taken ∧ SentAtOnce msgbytes ret taken

/-- The calls for an address and the stream to it: each call up to the one that opens the connection
needs no context, and those behind it append to what is carried. -/
def StreamOf (calls : List (List UInt8 × Handover)) : Option (List UInt8) → Prop
  | none => ∀ x ∈ calls, x.2.AtOnce x.1
  | some stream => ∃ (early : List (List UInt8 × Handover)) (first : List UInt8)
      (later : List (List UInt8)),
      calls = early ++ (first, .opened) :: later.map (fun msgbytes => (msgbytes, .queued)) ∧
      (∀ x ∈ early, x.2.AtOnce x.1) ∧ stream = first ++ later.flatten

/-- One more call. -/
theorem StreamOf.concat {calls : List (List UInt8 × Handover)} {stream : Option (List UInt8)}
    {msgbytes : List UInt8} {out : Handover} (h : StreamOf calls stream)
    (hout : out.Orderly stream msgbytes) :
    StreamOf (calls ++ [(msgbytes, out)])
      (streamStep toaddr stream (.sent toaddr msgbytes out)) := by
  rw [streamStep, if_pos rfl]
  cases out with
  | queued =>
    obtain ⟨bytes, rfl⟩ := Option.ne_none_iff_exists'.mp hout
    obtain ⟨early, first, later, rfl, hearly, rfl⟩ := h
    rw [if_neg Handover.noConfusion]
    refine ⟨early, first, later ++ [msgbytes], ?_, hearly, ?_⟩
    · rw [List.map_append, List.append_assoc, List.cons_append, List.map_singleton]
    · change (first ++ later.flatten) ++ msgbytes = _
      rw [List.flatten_append, List.flatten_singleton, List.append_assoc]
  | opened =>
    obtain rfl : stream = none := hout
    rw [if_pos rfl]
    exact ⟨calls, msgbytes, [], rfl, h, (List.append_nil _).symm⟩
  | closed ret taken =>
    obtain ⟨rfl, honce⟩ := hout
    rw [if_neg Handover.noConfusion]
    change ∀ x ∈ calls ++ [(msgbytes, Handover.closed ret taken)], x.2.AtOnce x.1
    intro x hx
    rcases List.mem_append.mp hx with hx | hx
    · exact h x hx
    · obtain rfl := List.mem_singleton.mp hx
      exact ⟨ret, taken, rfl, honce⟩

/-- The stream for an address is what was handed over for it from the call on that has opened the
connection. -/
theorem streamOf_callsTo {trace : List LoopEvent}
    (hcalls : ∀ before msgbytes out after, trace = before ++ .sent toaddr msgbytes out :: after →
      out.Orderly (streamTo toaddr before) msgbytes) :
    StreamOf (callsTo toaddr trace) (streamTo toaddr trace) := by
  induction trace using List.reverseRecOn with
  | nil =>
    change ∀ x ∈ ([] : List (List UInt8 × Handover)), x.2.AtOnce x.1
    exact fun x hx => absurd hx List.not_mem_nil
  | append_singleton trace ev ih =>
    have hbefore := ih fun before msgbytes out after hsplit =>
      hcalls before msgbytes out (after ++ [ev]) (by rw [hsplit]; simp)
    have hsame : LoopEvent.callTo toaddr ev = none →
        streamStep toaddr (streamTo toaddr trace) ev = streamTo toaddr trace →
        StreamOf (callsTo toaddr (trace ++ [ev])) (streamTo toaddr (trace ++ [ev])) := by
      intro hnone hstep
      rw [callsTo, List.filterMap_append, List.filterMap_cons_none hnone, List.filterMap_nil,
        List.append_nil, streamTo, List.foldl_append]
      change StreamOf _ (streamStep toaddr (streamTo toaddr trace) ev)
      rw [hstep]
      exact hbefore
    cases ev with
    | accepted fd => exact hsame rfl rfl
    | received fd bytes => exact hsame rfl rfl
    | dispatched fd message => exact hsame rfl rfl
    | sent toaddr' msgbytes out =>
      by_cases hto : toaddr' = toaddr
      case neg => exact hsame (if_neg hto) (if_neg hto)
      subst hto
      have hcall : LoopEvent.callTo toaddr' (.sent toaddr' msgbytes out) = some (msgbytes, out) :=
        if_pos rfl
      rw [callsTo, List.filterMap_append, List.filterMap_cons_some hcall, List.filterMap_nil,
        streamTo, List.foldl_append]
      exact hbefore.concat (hcalls trace msgbytes out [] rfl)

end Streams

/-! ## The messages that the client handles -/

/-- What the client unpacks of a message. -/
def Received.msg (r : Received) : Option ClientMsg := unpackClientMsg r.mem r.body.length r.uninit

section Client

variable {gTrackerAddr : HostAddr} {client : Client} {start : StartAnswers} {es : List ProcInput}
  {p₀ p : ClientProc} {trace : List ThreadEvent} {fd : ℕ} {msgs : List PeerMsg} {w : Wire}

/-- The messages that are handed over as frames. -/
theorem map_handed (h : ∀ m ∈ msgs, m.Fits) :
    msgs.map PeerMsg.handed = (msgs.map PeerMsg.body).map (frame 2) := by
  rw [List.map_map]
  exact List.map_congr_left fun m hm => handed_of_lt (h m hm).size

/-- They are read back. -/
theorem parse_handed (h : ∀ m ∈ msgs, m.Fits) :
    (parse 2 (msgs.map PeerMsg.handed).flatten).bodies = msgs.map PeerMsg.body := by
  rw [map_handed h]
  refine parse_frames fun body hbody => ?_
  obtain ⟨m, hm, rfl⟩ := List.mem_map.mp hbody
  exact ⟨(h m hm).body_ne_nil, Nat.lt_of_add_right_lt (h m hm).size⟩

/-- Bodies of messages that fit are unpacked to the messages. -/
theorem Wire.handled_msgs (h : ∀ m ∈ msgs, m.Fits) (hbodies : w.bodies = msgs.map PeerMsg.body) :
    w.handled.map Received.msg = msgs.map fun m => some (.peer m) := by
  have hmem : ∀ r ∈ w.handled, ∃ m ∈ msgs, m.body = r.body := by
    intro r hr
    have hbody : r.body ∈ w.bodies := List.mem_map_of_mem hr
    rw [hbodies] at hbody
    exact List.mem_map.mp hbody
  have hleft : w.handled.map Received.msg =
      w.bodies.map fun body => (decodePeerMsg body).map ClientMsg.peer := by
    rw [Wire.bodies, List.map_map]
    refine List.map_congr_left fun r hr => ?_
    obtain ⟨m, hm, hbody⟩ := hmem r hr
    have hdec : decodePeerMsg r.body = some m := hbody ▸ (h m hm).decodePeerMsg
    rw [Received.msg, unpackClientMsg_peer r.holds hdec, Function.comp_apply, hdec]
    rfl
  rw [hleft, hbodies, List.map_map]
  refine List.map_congr_left fun m hm => ?_
  rw [Function.comp_apply, (h m hm).decodePeerMsg]
  rfl

/-- A client that has received the beginning of a stream of messages has handled the first of them,
and all of them when it has received all and has left the loop over the frames. -/
theorem handled_of_stream (h : ∀ m ∈ msgs, m.Fits) (hstart : threadStart client start = .ok p₀)
    (hrun : run (traced (procStep gTrackerAddr) procEvents) (p₀, []) es = .ok (p, trace))
    (hwire : (wireOf fd trace).received <+: (msgs.map PeerMsg.handed).flatten) :
    (wireOf fd trace).handled.map Received.msg <+: msgs.map (fun m => some (.peer m)) ∧
      ((wireOf fd trace).received = (msgs.map PeerMsg.handed).flatten →
        ¬ p.point.ReadsFrames fd →
        (wireOf fd trace).handled.map Received.msg = msgs.map fun m => some (.peer m)) := by
  have hfollows := procRun_follows hstart hrun fd
  obtain ⟨hfirst, hall⟩ := hfollows.bodies_prefix
  constructor
  · have hbodies := hfirst.trans (parse_mono 2 hwire)
    rw [parse_handed h] at hbodies
    obtain ⟨msgs', hmsgs', hbodies⟩ := List.prefix_map_iff.mp hbodies
    rw [Wire.handled_msgs (fun m hm => h m (hmsgs'.subset hm)) hbodies]
    exact hmsgs'.map _
  · intro heq hpoint
    refine Wire.handled_msgs h ?_
    rw [hall hpoint, heq, parse_handed h]

end Client

/-! ## From one loop to the other -/

/-- A context of the tracker that sends, and a connection of a client that the bytes arrive on.  The
messages sent to the address before the context was made needed none: each was sent whole at once
over a connection of its own, or the call failed.  From the one on for which the context was made,
the messages sent to the address are the ones whose frames the context carries; the client handles
them in this order, from the first one on, unpacked to what was sent; and when all bytes have gone
out and have been received, it has handled them all. -/
theorem messages_delivered (listenfd : Fin fdSetSize) (fds : Finset ℕ) (es : List Answers)
    (hsends : ∀ a ∈ es, .error ∉ a.sends) {t : Tracker} {seen : List LoopSeen}
    (hrun : run (traced loopStep loopSeen) (trackerInit listenfd fds, []) es = .ok (t, seen))
    (hshort : ∀ x ∈ trackerInputs seen, x.2.Short) {log : TrackerLog}
    (hlog : run trackerStep trackerLogInit (trackerInputs seen) = .ok log) {c : SocketCtx}
    (hc : c ∈ t.contexts) (h0 : c.toaddr ≠ 0) (client : Client) (start : StartAnswers)
    (gTrackerAddr : HostAddr) (ces : List ProcInput) {p₀ p : ClientProc}
    {trace : List ThreadEvent} (hstart : threadStart client start = .ok p₀)
    (hcrun : run (traced (procStep gTrackerAddr) procEvents) (p₀, []) ces = .ok (p, trace))
    (fd : ℕ) (hwire : (wireOf fd trace).received <+: t.net.accepted c.fd) :
    ∃ early outs first later, msgsTo c.toaddr log.sends = early ++ first :: later ∧
      (callsTo c.toaddr (seen.map LoopSeen.loopEvent)).map Prod.snd =
        outs ++ .opened :: later.map (fun _ => .queued) ∧
      List.Forall₂ (fun m out => Handover.AtOnce out (frame 2 m.body)) early outs ∧
      ((first :: later).map fun m => frame 2 m.body).flatten =
        t.net.accepted c.fd ++ (t.net.memory.buffer c.writebuf).contents ∧
      (wireOf fd trace).handled.map Received.msg <+:
        (first :: later).map (fun m => some (.peer m)) ∧
      ((t.net.memory.buffer c.writebuf).contents = [] →
        (wireOf fd trace).received = t.net.accepted c.fd → ¬ p.point.ReadsFrames fd →
        (wireOf fd trace).handled.map Received.msg =
          (first :: later).map fun m => some (.peer m)) := by
  obtain ⟨⟨log', hlog', -, hsent⟩, -, hhandled, haddrs, -⟩ := loopRun_handles hrun
  obtain rfl := Except.ok.inj (hlog'.symm.trans hlog)
  -- the messages come from addresses of 64 bits
  have hfits : ∀ x ∈ log'.sends, x.msg.Fits := by
    refine sends_fit (fun e he => ⟨?_, hshort e he⟩) hlog
    obtain ⟨ev, hev, hinput⟩ := List.mem_filterMap.mp he
    cases ev with
    | accepted | event => cases hinput
    | handled fd' h =>
      obtain ⟨m, -, rfl⟩ := Option.map_eq_some_iff.mp hinput
      obtain ⟨before, after, hsplit⟩ := List.append_of_mem hev
      have hfrom := (hhandled before fd' h after hsplit).1
      have hlt : originOf fd' before < 2 ^ 64 := originOf_lt (fun fd fromaddr hmem =>
        haddrs fd fromaddr (hsplit ▸ List.mem_append_left _ hmem)) fd'
      exact hfrom ▸ hlt
  have hmsgsFit : ∀ m ∈ msgsTo c.toaddr log'.sends, m.Fits := by
    intro m hm
    obtain ⟨x, hx, -, rfl⟩ := mem_msgsTo.mp hm
    exact hfits x hx
  -- the calls for the address, and what they have handed over
  obtain ⟨ht, hcarries⟩ := loopRun_carries hsends (run_traced_map loopSeen_event hrun)
  have hstream : streamTo c.toaddr (seen.map LoopSeen.loopEvent) = some (t.net.carried c) := by
    rw [← ht.stream_of_mem hc h0]
    exact (hcarries.stream c.toaddr h0).symm
  have hcalls := streamOf_callsTo fun before msgbytes out after hsplit =>
    (hcarries.calls before c.toaddr msgbytes out after hsplit).2
  rw [hstream] at hcalls
  obtain ⟨calls, first, later, hsplit, honce, hcarried⟩ := hcalls
  have hwires : (seen.map LoopSeen.loopEvent).filterMap LoopEvent.send = sentIn seen := by
    rw [List.filterMap_map]
    rfl
  have hto : handedTo c.toaddr ((seen.map LoopSeen.loopEvent).filterMap LoopEvent.send) =
      (callsTo c.toaddr (seen.map LoopSeen.loopEvent)).map Prod.fst := handedTo_send _
  rw [hwires, ← hsent, handedTo_wire, hsplit, List.map_append, List.map_cons] at hto
  obtain ⟨early, msgs, hmsgs, hearly, hkept⟩ := List.map_eq_append_iff.mp hto
  obtain ⟨m, ms, rfl, rfl, hlater⟩ := List.map_eq_cons_iff.mp hkept
  obtain rfl : later = ms.map PeerMsg.handed := by
    rw [hlater, List.map_map]
    exact (List.map_id later).symm
  have hframe : ∀ m ∈ msgsTo c.toaddr log'.sends, m.handed = frame 2 m.body := fun m hm =>
    handed_of_lt (hmsgsFit m hm).size
  rw [hmsgs] at hmsgsFit hframe
  have hkeptFit : ∀ m' ∈ m :: ms, m'.Fits := fun m' hm' =>
    hmsgsFit m' (List.mem_append_right early hm')
  have hbytes : ((m :: ms).map PeerMsg.handed).flatten = t.net.carried c := by
    rw [List.map_cons, List.flatten_cons, hcarried]
  have hbegins : (wireOf fd trace).received <+: ((m :: ms).map PeerMsg.handed).flatten := by
    rw [hbytes]
    exact hwire.trans (List.prefix_append _ _)
  obtain ⟨hfirst, hall⟩ := handled_of_stream hkeptFit hstart hcrun hbegins
  refine ⟨early, calls.map Prod.snd, m, ms, hmsgs, ?_, ?_, ?_, hfirst,
    fun hempty heq hpoint => hall ?_ hpoint⟩
  · rw [hsplit, List.map_append, List.map_cons, List.map_map, List.map_map]
    rfl
  · have hpairs : List.Forall₂ (fun m x => PeerMsg.handed m = Prod.fst x) early calls := by
      have hsame : List.Forall₂ (· = ·) (early.map PeerMsg.handed) (calls.map Prod.fst) :=
        hearly ▸ List.forall₂_refl _
      exact List.forall₂_map_right_iff.mp (List.forall₂_map_left_iff.mp hsame)
    refine List.forall₂_map_right_iff.mpr (List.forall₂_iff_zip.mpr
      ⟨hpairs.length_eq, fun {m x} hmem => ?_⟩)
    obtain ⟨hm, hx⟩ := List.of_mem_zip hmem
    rw [← hframe m (List.mem_append_left _ hm), (List.forall₂_iff_zip.mp hpairs).2 hmem]
    exact honce x hx
  · rw [← Net.carried, ← hbytes, map_handed hkeptFit, List.map_map]
    rfl
  · rw [hbytes, heq, Net.carried, hempty, List.append_nil]

/-- The tracker connects, and one message and the beginning of the next one arrive. -/
def relayedRun : List ProcInput :=
  acceptingRun ++ .net { (default : ThreadAnswers) with select := .ready {4} } ::
    (List.replicate 4 (.net default) ++
      .net { (default : ThreadAnswers) with
        recvs := [.data ⟨[0, 23, 1, 0, 1, 97, 0, 1, 104, 0, 0, 3, 232, 1, 0, 0, 127, 0, 0, 210,
          4, 1, 0, 0, 127, 0, 23, 1, 0, 1, 97], by decide, by decide⟩] } ::
        List.replicate 3 (.net default))

/-- The run comes back, and a message has been handled. -/
theorem relayedRun_ok : ∃ p₀ p trace, threadStart clientInit startAnswers = .ok p₀ ∧
    run (traced (procStep 4294984073343) procEvents) (p₀, []) relayedRun = .ok (p, trace) ∧
    (wireOf 4 trace).received = [0, 23, 1, 0, 1, 97, 0, 1, 104, 0, 0, 3, 232, 1, 0, 0, 127, 0, 0,
      210, 4, 1, 0, 0, 127, 0, 23, 1, 0, 1, 97] ∧
    (wireOf 4 trace).handled.length = 1 := by
  have hview : (threadStart clientInit startAnswers >>= fun p₀ =>
      run (traced (procStep 4294984073343) procEvents) (p₀, []) relayedRun).toOption.map
        (fun s => ((wireOf 4 s.2).received, (wireOf 4 s.2).handled.length)) =
      some ([0, 23, 1, 0, 1, 97, 0, 1, 104, 0, 0, 3, 232, 1, 0, 0, 127, 0, 0, 210, 4, 1, 0, 0, 127,
        0, 23, 1, 0, 1, 97], 1) := by decide +kernel
  obtain ⟨⟨p, trace⟩, hp, hview⟩ := Option.map_eq_some_iff.mp hview
  obtain ⟨p₀, hstart, hrun⟩ := bind_eq_ok.mp (toOption_eq_some.mp hp)
  exact ⟨p₀, p, trace, hstart, hrun, Prod.mk.inj hview⟩

/-- The peer that the tracker announces to itself handles the announcement. -/
theorem messages_delivered_announcing : ∃ t seen log p₀ p trace early first later,
    run (traced loopStep loopSeen) (trackerInit ⟨3, by decide⟩ {0, 1, 2}, []) abandoningRun =
      .ok (t, seen) ∧
    run trackerStep trackerLogInit (trackerInputs seen) = .ok log ∧
    threadStart clientInit startAnswers = .ok p₀ ∧
    run (traced (procStep 4294984073343) procEvents) (p₀, []) relayedRun = .ok (p, trace) ∧
    (wireOf 4 trace).handled.length = 1 ∧
    msgsTo 230914638479487 log.sends = early ++ first :: later ∧
    (wireOf 4 trace).handled.map Received.msg <+:
      (first :: later).map fun m => some (.peer m) := by
  obtain ⟨t, seen, hrun, hinputs, haccepted, hctxs⟩ := abandoningRun_ok
  obtain ⟨p₀, p, trace, hstart, hcrun, hreceived, hone⟩ := relayedRun_ok
  obtain ⟨log, hlog, -⟩ := (loopRun_handles hrun).refines
  have hmem : (5, 230914638479487) ∈ t.contexts.map fun c => (c.fd, c.toaddr) := by
    rw [hctxs]
    exact List.mem_cons_of_mem _ List.mem_cons_self
  obtain ⟨c, hc, hfields⟩ := List.mem_map.mp hmem
  obtain ⟨hfd, hto⟩ := Prod.mk.inj hfields
  have hshort : ∀ x ∈ trackerInputs seen, x.2.Short := by
    intro x hx
    rw [hinputs] at hx
    obtain rfl := List.eq_of_mem_replicate hx
    change strlen (CStr.ofBytes [97]) + strlen (CStr.ofBytes [104]) + 23 < 2 ^ 16
    decide
  have hwire : (wireOf 4 trace).received <+: t.net.accepted c.fd := by
    rw [hfd, haccepted, hreceived]
    decide
  obtain ⟨early, outs, first, later, hsplit, -, -, -, hhandled, -⟩ := messages_delivered _ _ _
    (by decide) hrun hshort hlog hc (by rw [hto]; decide) _ _ _ _ hstart hcrun 4 hwire
  rw [hto] at hsplit
  exact ⟨t, seen, log, p₀, p, trace, early, first, later, hrun, hlog, hstart, hcrun, hone, hsplit,
    hhandled⟩

end TinyMsg
