import TinyMsg.Client.Step
import TinyMsg.Tracker.Replication

/-!
# Delivering the tracker's messages in any order

Each message of the tracker travels on a connection of its own, so those in flight to a client may
arrive in any order.  A peer `c` that knocks listens at its `toaddr`, and is sent there what the
tracker sends to that address from its KNOCK on (`sentTo`).  The client handles one message after
the other, each followed by the idle callback it posts (`deliver`).

The messages carry no sequence number.  On both sides an address is active exactly when the last
message about it is a PEER_ONLINE: the last one sent for the tracker (`Reports`), the last one
delivered for the client (`deliver_run`).  So the two sides agree in the end exactly when these two
messages are of the same kind for every address.
-/

namespace TinyMsg

/-! ## The messages in flight -/

/-- What was sent since the last KNOCK of `c`, at that KNOCK and later. -/
def sentSince (c : HostAddr) (log : List Processed) : List Send :=
  log.foldl (fun sends s => if s.isKnockOf c then s.sends else sends ++ s.sends) []

/-- The messages sent to an address. -/
def msgsTo (toaddr : HostAddr) (sends : List Send) : List PeerMsg :=
  (sends.filter fun x => x.toaddr = toaddr).map Send.msg

/-- The messages sent to `toaddr` since the last KNOCK of `c`. -/
def sentTo (c toaddr : HostAddr) (log : List Processed) : List PeerMsg :=
  msgsTo toaddr (sentSince c log)

/-- A message arrives from an address of the tracker, and the idle callback runs. -/
def deliver (d : HostAddr × PeerMsg) : List ClientEvent := [.recv d.1 (.peer d.2), .idle]

/-- The addresses of the active records, without `c`. -/
def Peers.onlineAddrs (p : Peers) (c : HostAddr) : Set HostAddr :=
  {a | a ≠ c ∧ ∃ q ∈ p.records, q.active = true ∧ q.fromaddr = a}

theorem Peers.WF.mem_onlineAddrs {p : Peers} (hp : p.WF) {a c : HostAddr} :
    a ∈ p.onlineAddrs c ↔ a ≠ c ∧ (p.activeAt a).isSome := by
  refine and_congr_right fun _ => ?_
  rw [Option.isSome_iff_exists]
  constructor
  · rintro ⟨q, hq, hactive, hfrom⟩
    exact ⟨q.info, (activeAt_eq_some_iff hp).mpr ⟨q, hq, hactive, hfrom, rfl⟩⟩
  · rintro ⟨info, hinfo⟩
    obtain ⟨q, hq, hactive, hfrom, -⟩ := (activeAt_eq_some_iff hp).mp hinfo
    exact ⟨q, hq, hactive, hfrom⟩

/-! ## What the tracker has sent -/

/-- What the tracker has sent to its active peers reports its table. -/
structure Reports (t : TrackerLog) : Prop where
  /-- The table is well formed. -/
  wf : t.peers.WF
  /-- At the address of an active peer the last message about another address tells whether that
  is active. -/
  last : ∀ c info, t.peers.activeAt c = some info → ∀ a, a ≠ c →
    (lastOnline (sentTo c info.toaddr t.processed) a = true ↔ (t.peers.activeAt a).isSome)
  /-- Every address announced has a record. -/
  known : ∀ s ∈ t.processed, ∀ x ∈ s.sends, ∀ a, x.msg.onlineAddr = some a → a ∈ t.peers.addrs

section Sends

variable {p : Peers} {c fromaddr toaddr : HostAddr} {msg m : PeerMsg}

theorem msgsTo_append (toaddr : HostAddr) (xs ys : List Send) :
    msgsTo toaddr (xs ++ ys) = msgsTo toaddr xs ++ msgsTo toaddr ys := by
  rw [msgsTo, List.filter_append, List.map_append]
  rfl

theorem mem_msgsTo {sends : List Send} :
    m ∈ msgsTo toaddr sends ↔ ∃ x ∈ sends, x.toaddr = toaddr ∧ x.msg = m := by
  simp [msgsTo, and_assoc]

/-- A broadcast brings one message. -/
theorem eq_of_mem_broadcasts {x : Send} (hx : x ∈ broadcasts p msg) : x.msg = msg := by
  obtain ⟨q, -, rfl⟩ := List.mem_map.mp hx
  rfl

/-- A broadcast goes to every active peer. -/
theorem broadcast_mem (hp : p.WF) {info : PeerInfo} (hc : p.activeAt c = some info)
    (msg : PeerMsg) : msg ∈ msgsTo info.toaddr (broadcasts p msg) := by
  obtain ⟨q, hq, hactive, -, rfl⟩ := (activeAt_eq_some_iff hp).mp hc
  refine mem_msgsTo.mpr ⟨broadcastTo msg q, ?_, rfl, rfl⟩
  exact List.mem_map_of_mem (List.mem_filter.mpr ⟨hq, hactive⟩)

/-- The catch-up messages announce the active peers. -/
theorem catchUp_mem_iff (hp : p.WF) {a : HostAddr} :
    (∃ x ∈ catchUps p fromaddr toaddr, x.msg.fromaddr = a) ↔ (p.activeAt a).isSome := by
  rw [Option.isSome_iff_exists]
  constructor
  · rintro ⟨x, hx, rfl⟩
    obtain ⟨q, hq, rfl⟩ := List.mem_map.mp hx
    obtain ⟨hq, hactive⟩ := List.mem_filter.mp hq
    exact ⟨q.info, (activeAt_eq_some_iff hp).mpr ⟨q, hq, hactive, rfl, rfl⟩⟩
  · rintro ⟨info, hinfo⟩
    obtain ⟨q, hq, hactive, rfl, -⟩ := (activeAt_eq_some_iff hp).mp hinfo
    refine ⟨catchUpWith fromaddr toaddr q, ?_, rfl⟩
    exact List.mem_map_of_mem (List.mem_filter.mpr ⟨hq, hactive⟩)

/-- Catch-up messages are PEER_ONLINE messages to the peer that knocks. -/
theorem catchUp_spec {x : Send} (hx : x ∈ catchUps p fromaddr toaddr) :
    x.toaddr = toaddr ∧ x.msg.isOnline = true := by
  obtain ⟨q, -, rfl⟩ := List.mem_map.mp hx
  exact ⟨rfl, rfl⟩

end Sends

theorem sentSince_concat (c : HostAddr) (log : List Processed) (s : Processed) :
    sentSince c (log ++ [s]) =
      if s.isKnockOf c then s.sends else sentSince c log ++ s.sends := by
  rw [sentSince, List.foldl_append]
  rfl

/-- What was sent to an address, with one more message handled. -/
theorem sentTo_concat (c toaddr : HostAddr) (log : List Processed) (s : Processed) :
    sentTo c toaddr (log ++ [s]) =
      (if s.isKnockOf c then [] else sentTo c toaddr log) ++ msgsTo toaddr s.sends := by
  rw [sentTo, sentSince_concat]
  split
  · rfl
  · rw [msgsTo_append]
    rfl

section Step

variable {t t' : TrackerLog} {fromaddr : HostAddr} {aliasStr hostname : CStr}
  {listenport : UInt16}

/-- After a KNOCK the messages sent report the table. -/
theorem knock_reports (ht : Reports t)
    (hmap : t'.peers.activeAt = Function.update t.peers.activeAt fromaddr
      (some (storedInfo aliasStr hostname (knockToaddr fromaddr listenport))))
    (hlog : t'.processed = t.processed ++ [⟨fromaddr, .knock aliasStr hostname listenport,
      broadcasts t.peers (.online aliasStr hostname fromaddr (knockToaddr fromaddr listenport)) ++
        catchUps t.peers fromaddr (knockToaddr fromaddr listenport)⟩])
    {c : HostAddr} {info : PeerInfo} (hc : t'.peers.activeAt c = some info) {a : HostAddr}
    (ha : a ≠ c) :
    lastOnline (sentTo c info.toaddr t'.processed) a = true ↔ (t'.peers.activeAt a).isSome := by
  -- a KNOCK causes PEER_ONLINE messages only
  have honline : ∀ m ∈ msgsTo info.toaddr
      (broadcasts t.peers (.online aliasStr hostname fromaddr (knockToaddr fromaddr listenport)) ++
        catchUps t.peers fromaddr (knockToaddr fromaddr listenport)),
      m.isOnline = true := by
    intro m hm
    obtain ⟨x, hx, -, rfl⟩ := mem_msgsTo.mp hm
    rcases List.mem_append.mp hx with hx | hx
    · rw [eq_of_mem_broadcasts hx]
      rfl
    · exact (catchUp_spec hx).2
  rw [hlog, sentTo_concat, lastOnline_append_online honline, hmap]
  by_cases hknock : fromaddr = c
  · subst hknock
    have hcatch : (∃ x ∈ catchUps t.peers fromaddr (knockToaddr fromaddr listenport),
        x.msg.fromaddr = a) ↔ (t.peers.activeAt a).isSome := catchUp_mem_iff ht.wf
    rw [if_pos (by simp [Processed.isKnockOf]), Function.update_of_ne ha, ← hcatch]
    have hinfo : info.toaddr = knockToaddr fromaddr listenport := by
      rw [hmap, Function.update_self] at hc
      rw [← Option.some.inj hc]
      rfl
    constructor
    · rintro (hnil | ⟨m, hm, rfl⟩)
      · cases hnil
      · obtain ⟨x, hx, -, rfl⟩ := mem_msgsTo.mp hm
        rcases List.mem_append.mp hx with hx | hx
        · exact absurd (congrArg PeerMsg.fromaddr (eq_of_mem_broadcasts hx)) ha
        · exact ⟨x, hx, rfl⟩
    · rintro ⟨x, hx, rfl⟩
      refine Or.inr ⟨x.msg, mem_msgsTo.mpr ⟨x, List.mem_append_right _ hx, ?_, rfl⟩, rfl⟩
      rw [hinfo, (catchUp_spec hx).1]
  · rw [if_neg (by simp [Processed.isKnockOf, hknock])]
    rw [hmap, Function.update_of_ne (Ne.symm hknock)] at hc
    rw [ht.last c info hc a ha, Function.update_apply]
    split
    case isTrue hfrom =>
      refine ⟨fun _ => rfl, fun _ => Or.inr ⟨.online aliasStr hostname fromaddr
        (knockToaddr fromaddr listenport), ?_, hfrom.symm⟩⟩
      rw [msgsTo_append]
      exact List.mem_append_left _ (broadcast_mem ht.wf hc _)
    case isFalse hfrom =>
      refine ⟨?_, Or.inl⟩
      rintro (hold | ⟨m, hm, rfl⟩)
      · exact hold
      · obtain ⟨x, hx, -, rfl⟩ := mem_msgsTo.mp hm
        rcases List.mem_append.mp hx with hx | hx
        · exact absurd (congrArg PeerMsg.fromaddr (eq_of_mem_broadcasts hx)) hfrom
        · exact (catchUp_mem_iff ht.wf).mp ⟨x, hx, rfl⟩

/-- After a BYE the messages sent report the table. -/
theorem bye_reports (ht : Reports t) (hwf' : t'.peers.WF)
    (hmap : t'.peers.activeAt = Function.update t.peers.activeAt fromaddr none)
    (hlog : t'.processed =
      t.processed ++ [⟨fromaddr, .bye, broadcasts t'.peers (.offline fromaddr)⟩])
    {c : HostAddr} {info : PeerInfo} (hc : t'.peers.activeAt c = some info) {a : HostAddr}
    (ha : a ≠ c) :
    lastOnline (sentTo c info.toaddr t'.processed) a = true ↔ (t'.peers.activeAt a).isSome := by
  have hmem := broadcast_mem hwf' hc (.offline fromaddr)
  rw [hlog, sentTo_concat, if_neg (by simp [Processed.isKnockOf])]
  have hc' := hc
  rw [hmap, Function.update_apply] at hc'
  split at hc'
  · cases hc'
  · rw [hmap, Function.update_apply]
    split
    case isTrue hfrom =>
      -- the broadcast brings copies of one PEER_OFFLINE, and there is at least one
      have hoffline : ∀ m ∈ msgsTo info.toaddr (broadcasts t'.peers (.offline fromaddr)),
          m.fromaddr = a → m.isOnline = false := by
        intro m hm _
        obtain ⟨x, hx, -, rfl⟩ := mem_msgsTo.mp hm
        rw [eq_of_mem_broadcasts hx]
        rfl
      rw [lastOnline_append_kind hoffline hmem hfrom.symm]
      rfl
    case isFalse hfrom =>
      rw [lastOnline_append_other, ht.last c info hc' a ha]
      intro m hm
      obtain ⟨x, hx, -, rfl⟩ := mem_msgsTo.mp hm
      rw [eq_of_mem_broadcasts hx]
      exact Ne.symm hfrom

/-- Every address announced by a step has a record afterwards. -/
theorem sends_known {m : TrackerMsg} {sends : List Send} (ht : t.peers.WF)
    (hhandle : handleMsg logSend t.peers [] fromaddr m = .ok (t'.peers, sends))
    (hsends : (∃ aliasStr hostname listenport, m = .knock aliasStr hostname listenport ∧
        sends = broadcasts t.peers (m.announces fromaddr) ++
          catchUps t.peers fromaddr (knockToaddr fromaddr listenport)) ∨
        (m = .bye ∧ sends = broadcasts t'.peers (m.announces fromaddr))) :
    ∀ x ∈ sends, ∀ a, x.msg.onlineAddr = some a → a ∈ t'.peers.addrs := by
  obtain ⟨hkeep, hnew⟩ := handleMsg_addrs ht hhandle
  intro x hx a ha
  rcases hsends with ⟨aliasStr, hostname, listenport, rfl, rfl⟩ | ⟨rfl, rfl⟩
  · rcases List.mem_append.mp hx with hx | hx
    · rw [eq_of_mem_broadcasts hx] at ha
      exact hnew a ha
    · obtain ⟨q, hq, rfl⟩ := List.mem_map.mp hx
      obtain rfl : q.fromaddr = a := Option.some.inj ha
      exact hkeep _ (List.mem_map_of_mem (List.mem_of_mem_filter hq))
  · rw [eq_of_mem_broadcasts hx] at ha
    exact hnew a ha

/-- Handling a message keeps the reports right. -/
theorem reports_step {e : HostAddr × TrackerMsg} (ht : Reports t) (h : trackerStep t e = .ok t') :
    Reports t' := by
  obtain ⟨fromaddr, m⟩ := e
  obtain ⟨sends, hlog, hhandle, hsends⟩ := trackerStep_cases ht.wf h
  have hwf' := handleMsg_wf ht.wf hhandle
  have hmap := handleMsg_activeAt ht.wf hhandle
  have hknown := sends_known ht.wf hhandle hsends
  refine ⟨hwf', fun c info hc a ha => ?_, fun s hs x hx a ha => ?_⟩
  · rcases hsends with ⟨aliasStr, hostname, listenport, rfl, rfl⟩ | ⟨rfl, rfl⟩
    · exact knock_reports ht hmap hlog hc ha
    · exact bye_reports ht hwf' hmap hlog hc ha
  · rw [hlog] at hs
    rcases List.mem_append.mp hs with hs | hs
    · exact (handleMsg_addrs ht.wf hhandle).1 a (ht.known s hs x hx a ha)
    · obtain rfl := List.mem_singleton.mp hs
      exact hknown x hx a ha

/-- The reports are right after every run. -/
theorem reports_run {es : List (HostAddr × TrackerMsg)}
    (h : run trackerStep trackerLogInit es = .ok t) : Reports t := by
  refine run_invariant (I := Reports) (fun t e t' ht hstep => reports_step ht hstep) ?_ h
  exact ⟨peersInit_wf, fun c info hc => absurd hc (by simp [trackerLogInit]),
    fun s hs => absurd hs List.not_mem_nil⟩

/-- An address announced to a peer has a record. -/
theorem Reports.sentTo_known (ht : Reports t) {c toaddr : HostAddr} {m : PeerMsg}
    (hm : m ∈ sentTo c toaddr t.processed) {a : HostAddr} (ha : m.onlineAddr = some a) :
    a ∈ t.peers.addrs := by
  have hsub : ∀ log : List Processed, ∀ x ∈ sentSince c log, ∃ s ∈ log, x ∈ s.sends := by
    intro log
    induction log using List.reverseRecOn with
    | nil => exact fun x hx => absurd hx List.not_mem_nil
    | append_singleton log s ih =>
      intro x hx
      have hs : s ∈ log ++ [s] := List.mem_append_right _ (List.mem_singleton_self s)
      rw [sentSince_concat] at hx
      split at hx
      · exact ⟨s, hs, hx⟩
      · rcases List.mem_append.mp hx with hx | hx
        · obtain ⟨s', hs', hx⟩ := ih x hx
          exact ⟨s', List.mem_append_left _ hs', hx⟩
        · exact ⟨s, hs, hx⟩
  obtain ⟨x, hx, -, rfl⟩ := mem_msgsTo.mp hm
  obtain ⟨s, hs, hx⟩ := hsub t.processed x hx
  exact ht.known s hs x hx a ha

end Step

/-! ## What the client has been told -/

section Client

variable {gTrackerAddr : HostAddr} {c c' : Client} {m : PeerMsg} {r : Peers}

/-- An address is active in the map that messages build when the last one about it is a
PEER_ONLINE. -/
theorem mapOf_isSome (msgs : List PeerMsg) (a : HostAddr) :
    (mapOf msgs a).isSome = lastOnline msgs a := by
  induction msgs using List.reverseRecOn with
  | nil => rfl
  | append_singleton msgs m ih =>
    rw [mapOf_concat, lastOnline_concat, Function.update_apply, PeerMsg.write_key]
    by_cases h : a = m.fromaddr
    · rw [if_pos h, if_pos h.symm, PeerMsg.write_isSome]
    · rw [if_neg h, if_neg (Ne.symm h), ih]

/-- With one callback posted, the next step of the GUI thread runs it. -/
theorem idle_posted {i : Idle} (hqueue : c.queue = [])
    (h : ClientStepped gTrackerAddr (gIdleAdd c i) .idle c') :
    IdleDone { gIdleAdd c i with queue := [] } i c' := by
  have hposted : (gIdleAdd c i).queue = [i] := by rw [gIdleAdd, hqueue, List.nil_append]
  cases h with
  | idle hcons hdone =>
    obtain ⟨rfl, rfl⟩ := List.cons.inj (hposted.symm.trans hcons)
    exact hdone
  | noIdle hnil => cases hposted.symm.trans hnil

/-- Handling a message of the tracker and running the callback it posts does to the table what
the message does to a replica. -/
theorem handled_settles {c₁ c₂ : Client} {fromaddr : HostAddr} (hc : c.WF) (hqueue : c.queue = [])
    (hfrom : hostAddrIpaddrEquals fromaddr gTrackerAddr = true)
    (happly : applyPeerMsg c.peers m = .ok r)
    (hhandled : ClientHandled gTrackerAddr c fromaddr (.peer m) c₁)
    (hidle : ClientStepped gTrackerAddr c₁ .idle c₂) :
    c₂.queue = [] ∧ c₂.peers = r ∧ r.gPeers.cap ≠ 0 := by
  cases hhandled with
  | foreign _ hforeign =>
    rw [hforeign] at hfrom
    cases hfrom
  | online _ hcreate =>
    simp only [applyPeerMsg, hcreate, ok_bind] at happly
    obtain rfl := Except.ok.inj happly
    have hdone := idle_posted (by exact hqueue) hidle
    cases hdone with
    | peerOnline => exact ⟨rfl, rfl, createPeer_cap hc.peers hcreate⟩
  | offline _ hcap hq =>
    simp only [applyPeerMsg, destroyFromaddr, findPeerFromaddr_eq, hq, ok_bind,
      Option.map_some] at happly
    have hdone := idle_posted hqueue hidle
    cases hdone with
    | peerOffline _ _ _ hdestroy =>
      obtain rfl := Except.ok.inj (happly.symm.trans hdestroy)
      obtain ⟨p, hok, -, -, -, hsame⟩ := destroyPeer_eq hc.peers _
      obtain rfl := Except.ok.inj (happly.symm.trans hok)
      exact ⟨rfl, rfl, hsame ▸ hcap⟩
  | offlineUnknown _ hcap hq =>
    simp only [applyPeerMsg, destroyFromaddr, findPeerFromaddr_eq, hq, ok_bind,
      Option.map_none] at happly
    obtain rfl := Except.ok.inj happly
    cases hidle with
    | noIdle => exact ⟨hqueue, rfl, hcap⟩
    | idle hcons => cases hqueue.symm.trans hcons

/-- Delivering a message trips no assertion but that of `print_peers`. -/
theorem deliver_ok (hc : c.WF) (hqueue : c.queue = []) {d : HostAddr × PeerMsg}
    (hfrom : hostAddrIpaddrEquals d.1 gTrackerAddr = true)
    (happly : applyPeerMsg c.peers d.2 = .ok r)
    (hcap : d.2.isOnline = true ∨ c.peers.gPeers.cap ≠ 0) :
    ∃ c', run (clientStep gTrackerAddr) c (deliver d) = .ok c' ∧ c'.WF ∧ c'.queue = [] ∧
      c'.peers = r ∧ r.gPeers.cap ≠ 0 := by
  obtain ⟨fromaddr, m⟩ := d
  rcases clientStep_cases hc gTrackerAddr (.recv fromaddr (.peer m)) with
    ⟨c₁, hrecv, hstepped⟩ | ⟨-, fromaddr', m', heq, hstopped⟩
  · have hc₁ := hstepped.wf hc
    rcases clientStep_cases hc₁ gTrackerAddr .idle with
      ⟨c₂, hidle, hstepped'⟩ | ⟨-, fromaddr', m', heq, -⟩
    · refine ⟨c₂, ?_, hstepped'.wf hc₁, ?_⟩
      · rw [deliver, run_cons, hrecv, ok_bind, run_cons, hidle]
        rfl
      · cases hstepped with
        | recv hhandled => exact handled_settles hc hqueue hfrom happly hhandled hstepped'
    · cases heq
  · obtain ⟨rfl, rfl⟩ := ClientEvent.recv.inj heq
    cases hstopped with
    | @online aliasStr hostname _ toaddr _ hnew hfull =>
      have herr : createPeer c.peers aliasStr hostname _ toaddr = .error .assertion :=
        (createPeer_error_iff hc.peers).mpr ⟨rfl, hnew, hfull⟩
      simp only [applyPeerMsg, herr, error_bind] at happly
      cases happly
    | offline _ hzero =>
      rcases hcap with honline | hcap
      · cases honline
      · exact absurd hzero hcap

/-- Delivering messages does to the client's table what folding them does to a replica. -/
theorem deliver_run {ds : List (HostAddr × PeerMsg)}
    (hfrom : ∀ d ∈ ds, hostAddrIpaddrEquals d.1 gTrackerAddr = true)
    (hfirst : ∀ d ∈ ds.head?, d.2.isOnline = true)
    (hfold : run applyPeerMsg peersInit (ds.map Prod.snd) = .ok r) :
    ∃ c', run (clientStep gTrackerAddr) clientInit (ds.flatMap deliver) = .ok c' ∧ c'.WF ∧
      c'.queue = [] ∧ c'.peers = r ∧ (ds ≠ [] → r.gPeers.cap ≠ 0) := by
  induction ds using List.reverseRecOn generalizing r with
  | nil =>
    obtain rfl := Except.ok.inj hfold
    exact ⟨clientInit, rfl, clientInit_wf, rfl, rfl, fun h => absurd rfl h⟩
  | append_singleton ds d ih =>
    rw [List.map_append, List.map_singleton, run_concat, bind_eq_ok] at hfold
    obtain ⟨r₁, hfold, happly⟩ := hfold
    have hfirst' : ∀ d ∈ ds.head?, d.2.isOnline = true := by
      intro d' hd'
      refine hfirst d' ?_
      rw [List.head?_append, Option.mem_def.mp hd']
      rfl
    obtain ⟨c₁, hrun, hwf, hqueue, rfl, hcap⟩ :=
      ih (fun d' hd' => hfrom d' (List.mem_append_left _ hd')) hfirst' hfold
    have hd : d.2.isOnline = true ∨ c₁.peers.gPeers.cap ≠ 0 := by
      by_cases hds : ds = []
      · subst hds
        exact Or.inl (hfirst d rfl)
      · exact Or.inr (hcap hds)
    obtain ⟨c₂, hrun₂, hwf₂, hqueue₂, hpeers, hcap₂⟩ := deliver_ok hwf hqueue
      (hfrom d (List.mem_append_right _ (List.mem_singleton_self d))) happly hd
    refine ⟨c₂, ?_, hwf₂, hqueue₂, hpeers, fun _ => hcap₂⟩
    rw [List.flatMap_append, run_append, hrun, ok_bind, List.flatMap_singleton, hrun₂]

end Client

/-! ## Convergence -/

/-- For every run of the tracker, every active peer and every order in which the messages sent to
it since its last KNOCK are delivered, unless a PEER_OFFLINE comes first of all: the client handles
them all, and then has the tracker's active peers, other than itself, exactly when for every other
address the message about it delivered last is of the kind of the message about it sent last. -/
theorem convergence (es : List (HostAddr × TrackerMsg)) (t : TrackerLog)
    (hrun : run trackerStep trackerLogInit es = .ok t) (q : Peer) (hq : q ∈ t.peers.records)
    (hactive : q.active = true) (gTrackerAddr : HostAddr) (ds : List (HostAddr × PeerMsg))
    (hfrom : ∀ d ∈ ds, hostAddrIpaddrEquals d.1 gTrackerAddr = true)
    (hperm : (ds.map Prod.snd).Perm (sentTo q.fromaddr q.toaddr t.processed))
    (hfirst : ∀ d ∈ ds.head?, d.2.isOnline = true) :
    ∃ c', run (clientStep gTrackerAddr) clientInit (ds.flatMap deliver) = .ok c' ∧
      c'.queue = [] ∧
      (c'.peers.onlineAddrs q.fromaddr = t.peers.onlineAddrs q.fromaddr ↔
        ∀ a, a ≠ q.fromaddr → lastOnline (ds.map Prod.snd) a =
          lastOnline (sentTo q.fromaddr q.toaddr t.processed) a) := by
  have ht := reports_run hrun
  have hle : t.peers.addrs.length ≤ maxPeers := by
    rw [Peers.addrs, List.length_map]
    exact ht.wf.length_le
  have hknown : ∀ m ∈ ds.map Prod.snd, ∀ a, m.onlineAddr = some a → a ∈ t.peers.addrs :=
    fun m hm a ha => ht.sentTo_known (hperm.subset hm) ha
  obtain ⟨r, hfold, hwf, hmap, -⟩ := fold_ok hle hknown
  obtain ⟨c', hclient, -, hqueue, rfl, -⟩ := deliver_run hfrom hfirst hfold
  have hclientAt : ∀ a, (c'.peers.activeAt a).isSome = lastOnline (ds.map Prod.snd) a := by
    intro a
    rw [hmap, mapOf_isSome]
  have htrackerAt : ∀ a, a ≠ q.fromaddr → (lastOnline (sentTo q.fromaddr q.toaddr t.processed) a ↔
      (t.peers.activeAt a).isSome) :=
    ht.last q.fromaddr q.info ((activeAt_eq_some_iff ht.wf).mpr ⟨q, hq, hactive, rfl, rfl⟩)
  refine ⟨c', hclient, hqueue, ?_⟩
  rw [Set.ext_iff]
  refine forall_congr' fun a => ?_
  rw [hwf.mem_onlineAddrs, ht.wf.mem_onlineAddrs, hclientAt]
  constructor
  · intro h ha
    rw [Bool.eq_iff_iff, htrackerAt a ha]
    simpa [ha] using h
  · intro h
    refine and_congr_right fun ha => ?_
    rw [h ha, htrackerAt a ha]

/-- A peer joins, a second one joins and leaves; delivered in the order they were sent, the
messages bring the client to the tracker's active peers. -/
theorem convergence_in_order :
    ∃ t c', run trackerStep trackerLogInit
        [(2, .knock CStr.empty CStr.empty 8001), (3, .knock CStr.empty CStr.empty 8001),
          (4, .knock CStr.empty CStr.empty 8001), (4, .bye)] = .ok t ∧
      run (clientStep 1) clientInit (([(1, .online CStr.empty CStr.empty 3 (knockToaddr 3 8001)),
        (1, .online CStr.empty CStr.empty 4 (knockToaddr 4 8001)), (1, .offline 4)] :
          List (HostAddr × PeerMsg)).flatMap deliver) = .ok c' ∧
      c'.peers.onlineAddrs 2 = t.peers.onlineAddrs 2 := by
  obtain ⟨c', hrun, -, hiff⟩ := convergence
    [(2, .knock CStr.empty CStr.empty 8001), (3, .knock CStr.empty CStr.empty 8001),
      (4, .knock CStr.empty CStr.empty 8001), (4, .bye)] _ rfl
    (peerNew 1 CStr.empty CStr.empty 2 (knockToaddr 2 8001)) (by decide) rfl 1
    [(1, .online CStr.empty CStr.empty 3 (knockToaddr 3 8001)),
      (1, .online CStr.empty CStr.empty 4 (knockToaddr 4 8001)), (1, .offline 4)]
    (by decide) (by decide) (by decide)
  exact ⟨_, c', rfl, hrun, hiff.mpr fun a _ => rfl⟩

/-- A peer that joined and left stays active at a client that gets its PEER_OFFLINE before its
PEER_ONLINE. -/
theorem late_online_diverges :
    ∃ t q c', ∃ ds : List (HostAddr × PeerMsg), run trackerStep trackerLogInit
        [(2, .knock CStr.empty CStr.empty 8001), (3, .knock CStr.empty CStr.empty 8001),
          (4, .knock CStr.empty CStr.empty 8001), (4, .bye)] = .ok t ∧
      q ∈ t.peers.records ∧ q.active = true ∧ (∀ d ∈ ds, hostAddrIpaddrEquals d.1 1 = true) ∧
      (ds.map Prod.snd).Perm (sentTo q.fromaddr q.toaddr t.processed) ∧
      run (clientStep 1) clientInit (ds.flatMap deliver) = .ok c' ∧ c'.queue = [] ∧
      c'.peers.onlineAddrs q.fromaddr ≠ t.peers.onlineAddrs q.fromaddr := by
  refine ⟨_, peerNew 1 CStr.empty CStr.empty 2 (knockToaddr 2 8001), _,
    [(1, .online CStr.empty CStr.empty 3 (knockToaddr 3 8001)), (1, .offline 4),
      (1, .online CStr.empty CStr.empty 4 (knockToaddr 4 8001))],
    rfl, by decide, rfl, by decide, by decide, rfl, rfl, fun heq => ?_⟩
  have hmem := (Set.ext_iff.mp heq 4).mp (And.intro (by decide) (by decide))
  exact absurd (And.right hmem) (by decide)

end TinyMsg
