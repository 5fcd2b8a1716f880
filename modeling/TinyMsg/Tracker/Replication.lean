import TinyMsg.Tracker.Messages

/-!
# The messages to a peer as a replication log

The tracker handles one message after the other and sends messages about its peers to its peers.
Seen from one peer `c`, the messages addressed to its record since its last KNOCK are a log of
writes: first the active peers there were, then every change.  A client folds such a log through
`create_peer` and `find_peer_fromaddr` with `destroy_peer` (`applyPeerMsg`).

Both sides are maps from addresses to announced data (`Peers.activeAt`), a message is a write of
one address (`PeerMsg.write`), and a message to the tracker is the same write as the broadcast it
causes.  So the two maps take the same writes from the last KNOCK of `c` on, and at that KNOCK the
log begins with a copy of the tracker's map.  They may differ at the address of `c` only, since
the tracker enters `c` after informing it of the others.
-/

namespace TinyMsg

/-! ## The tracker and its log -/

/-- A message that the tracker has handled, with the sends it caused. -/
structure Processed where
  /-- Where the message came from. -/
  fromaddr : HostAddr
  /-- The message. -/
  msg : TrackerMsg
  /-- The calls of `send_msg_to_hostaddr`, in order. -/
  sends : List Send

/-- The peer table of the tracker and what it has handled. -/
structure TrackerLog where
  /-- The peer table. -/
  peers : Peers
  /-- The messages handled, in order. -/
  processed : List Processed

/-- A tracker that has just started. -/
def trackerLogInit : TrackerLog := ⟨peersInit, []⟩

/-- A send that only goes on record. -/
def logSend (sends : List Send) (x : Send) : Exec (List Send) := .ok (sends ++ [x])

/-- Handling one message, with its address. -/
def trackerStep (t : TrackerLog) (e : HostAddr × TrackerMsg) : Exec TrackerLog := do
  let (peers, sends) ← handleMsg logSend t.peers [] e.1 e.2
  .ok ⟨peers, t.processed ++ [⟨e.1, e.2, sends⟩]⟩

/-- The messages of a step that are addressed to the record of `c`. -/
def Processed.addressed (s : Processed) (c : HostAddr) : List PeerMsg :=
  (s.sends.filter fun x => x.record = c).map Send.msg

/-- Those of them that inform `c` of existing peers. -/
def Processed.caughtUp (s : Processed) (c : HostAddr) : List PeerMsg :=
  (s.sends.filter fun x => x.record = c ∧ x.kind = .catchUp).map Send.msg

/-- The step is a KNOCK of `c`. -/
def Processed.isKnockOf (s : Processed) (c : HostAddr) : Bool :=
  match s.msg with
  | .knock .. => s.fromaddr = c
  | .bye => false

/-- The messages addressed to the record of `c` since its last KNOCK: the catch-up messages of
that KNOCK, then each later broadcast. -/
def addressedTo (c : HostAddr) (log : List Processed) : List PeerMsg :=
  log.foldl (fun msgs s => if s.isKnockOf c then s.caughtUp c else msgs ++ s.addressed c) []

/-! ## A replica -/

/-- What a message does to the table of the peer that receives it. -/
def applyPeerMsg (r : Peers) : PeerMsg → Exec Peers
  | .online aliasStr hostname fromaddr toaddr => do
    let (r, _) ← createPeer r aliasStr hostname fromaddr toaddr
    .ok r
  | .offline fromaddr => destroyFromaddr r fromaddr

/-- The records of the table that are active and not at address `c`, as address and data. -/
def Peers.others (p : Peers) (c : HostAddr) : Set (HostAddr × PeerInfo) :=
  {x | ∃ q ∈ p.records, q.active = true ∧ q.fromaddr ≠ c ∧ x = (q.fromaddr, q.info)}

/-! ## Messages as writes -/

/-- The write of a message to a peer. -/
def PeerMsg.write : PeerMsg → Write HostAddr PeerInfo
  | .online aliasStr hostname fromaddr toaddr =>
    ⟨fromaddr, some (storedInfo aliasStr hostname toaddr)⟩
  | .offline fromaddr => ⟨fromaddr, none⟩

@[simp] theorem PeerMsg.write_key (m : PeerMsg) : m.write.key = m.fromaddr := by
  cases m <;> rfl

/-- A message adds its address to the map when it is a PEER_ONLINE. -/
theorem PeerMsg.write_isSome (m : PeerMsg) : m.write.value.isSome = m.isOnline := by
  cases m <;> rfl

/-- The broadcast that a message to the tracker causes. -/
def TrackerMsg.announces (fromaddr : HostAddr) : TrackerMsg → PeerMsg
  | .knock aliasStr hostname listenport =>
    .online aliasStr hostname fromaddr (knockToaddr fromaddr listenport)
  | .bye => .offline fromaddr

/-- The address that a message announces as online. -/
def PeerMsg.onlineAddr : PeerMsg → Option HostAddr
  | .online _ _ fromaddr _ => some fromaddr
  | .offline _ => none

/-- The map that the messages of a log build. -/
def mapOf (msgs : List PeerMsg) : HostAddr → Option PeerInfo :=
  replay (fun _ => none) (msgs.map PeerMsg.write)

theorem mapOf_concat (msgs : List PeerMsg) (m : PeerMsg) :
    mapOf (msgs ++ [m]) = Function.update (mapOf msgs) m.write.key m.write.value := by
  rw [mapOf, List.map_append, List.map_singleton, replay_concat]
  rfl

section Table

variable {p p' : Peers} {fromaddr c : HostAddr} {m : TrackerMsg}

/-- An active record is found under its address. -/
theorem activeAt_eq_some_iff (hp : p.WF) {info : PeerInfo} :
    p.activeAt fromaddr = some info ↔
      ∃ q ∈ p.records, q.active = true ∧ q.fromaddr = fromaddr ∧ q.info = info := by
  rw [Peers.activeAt, Option.map_eq_some_iff]
  constructor
  · rintro ⟨q, hq, hinfo⟩
    obtain ⟨hq, hactive⟩ := Option.filter_eq_some_iff.mp hq
    obtain ⟨hmem, hkey⟩ := lookup_some hq
    exact ⟨q, hmem, hactive, hkey, hinfo⟩
  · rintro ⟨q, hmem, hactive, rfl, hinfo⟩
    refine ⟨q, ?_, hinfo⟩
    rw [Peers.at, lookup_of_mem hp.fromaddr_nodup hmem, Option.filter_some, if_pos hactive]

/-- The addresses of the active records are distinct. -/
theorem Peers.WF.active_nodup (hp : p.WF) : (p.active.map Peer.fromaddr).Nodup :=
  hp.fromaddr_nodup.sublist (List.filter_sublist.map _)

/-- What is found among the active records. -/
theorem lookup_active (hp : p.WF) (a : HostAddr) :
    (lookup Peer.fromaddr p.active a).map Peer.info = p.activeAt a := by
  rw [Peers.active, lookup_filter hp.fromaddr_nodup]
  rfl

/-- The map of the messages that inform a peer of the active ones is the tracker's map. -/
theorem mapOf_catchUps (hp : p.WF) (toaddr : HostAddr) :
    mapOf ((catchUps p fromaddr toaddr).map Send.msg) = p.activeAt := by
  have hwrites : ((catchUps p fromaddr toaddr).map Send.msg).map PeerMsg.write =
      p.active.map fun q => ⟨q.fromaddr, some q.info⟩ := by
    rw [catchUps, List.map_map, List.map_map]
    refine List.map_congr_left fun q _ => ?_
    simp only [Function.comp_apply, catchUpWith, PeerMsg.write, storedInfo, staticstrCopy_str,
      Peer.info]
  funext a
  rw [mapOf, hwrites, replay_map hp.active_nodup (fun q => some q.info), ← lookup_active hp]
  cases lookup Peer.fromaddr p.active a <;> rfl

/-- A broadcast reaches the record of an active peer once. -/
theorem broadcasts_addressed (hp : p.WF) (msg : PeerMsg) (hc : (p.activeAt c).isSome) :
    ((broadcasts p msg).filter fun x => x.record = c).map Send.msg = [msg] := by
  rw [← lookup_active hp, Option.isSome_map, Option.isSome_iff_exists] at hc
  obtain ⟨q, hq⟩ := hc
  rw [broadcasts, List.filter_map]
  change ((p.active.filter fun q => q.fromaddr = c).map (broadcastTo msg)).map Send.msg = _
  rw [filter_key_eq hp.active_nodup, hq]
  rfl

/-- What the handler does to the map. -/
theorem handleMsg_activeAt {σ : Type} {send : σ → Send → Exec σ} {s s' : σ} (hp : p.WF)
    (h : handleMsg send p s fromaddr m = .ok (p', s')) :
    p'.activeAt =
      Function.update p.activeAt (m.announces fromaddr).write.key
        (m.announces fromaddr).write.value := by
  cases m with
  | knock aliasStr hostname listenport =>
    obtain ⟨-, hpeer, hcreate⟩ := (handleMsg_knock hp).mp h
    exact createPeer_activeAt hp hcreate
  | bye =>
    obtain ⟨hdestroy, -⟩ := handleMsg_bye.mp h
    obtain ⟨p₁, hok, -, -, -, hmap⟩ := destroyFromaddr_ok hp fromaddr
    obtain rfl := Except.ok.inj (hdestroy.symm.trans hok)
    exact hmap

/-- The addresses that have a record, as a list. -/
def Peers.addrs (p : Peers) : List HostAddr := p.records.map Peer.fromaddr

/-- An address that is found has a record. -/
theorem Peers.at_eq_none_iff : p.at fromaddr = none ↔ fromaddr ∉ p.addrs := by
  rw [Peers.at, lookup_eq_none_iff, Peers.addrs]
  simp

/-- `create_peer` adds its address to those with a record. -/
theorem createPeer_addrs {hpeer : TMHandle} {aliasStr hostname : CStr} {toaddr : HostAddr}
    (hp : p.WF) (h : createPeer p aliasStr hostname fromaddr toaddr = .ok (p', hpeer)) :
    ∀ a, a ∈ p'.addrs ↔ a ∈ p.addrs ∨ a = fromaddr := by
  intro a
  obtain ⟨r, -, -, -, -, hat⟩ := createPeer_at hp h
  have hnone : p'.at a = none ↔ ¬(a ∈ p.addrs ∨ a = fromaddr) := by
    rw [hat]
    by_cases ha : a = fromaddr
    · simp [ha]
    · rw [if_neg ha, Peers.at_eq_none_iff]
      simp [ha]
  rw [Peers.at_eq_none_iff] at hnone
  exact not_iff_not.mp hnone

end Table

/-! ## Folding a log -/

/-- What a message does to a replica that has room. -/
theorem applyPeerMsg_ok {r : Peers} {m : PeerMsg} (hr : r.WF)
    (hroom : ∀ a, m.onlineAddr = some a → a ∈ r.addrs ∨ r.records.length < maxPeers) :
    ∃ r', applyPeerMsg r m = .ok r' ∧ r'.WF ∧
      r'.activeAt = Function.update r.activeAt m.write.key m.write.value ∧
      ∀ a ∈ r'.addrs, a ∈ r.addrs ∨ m.onlineAddr = some a := by
  cases m with
  | online aliasStr hostname fromaddr toaddr =>
    cases hcreate : createPeer r aliasStr hostname fromaddr toaddr with
    | error e =>
      obtain ⟨-, hnew, hfull⟩ := (createPeer_error_iff hr).mp hcreate
      rcases hroom fromaddr rfl with hold | hlt
      · exact absurd hold (Peers.at_eq_none_iff.mp hnew)
      · omega
    | ok res =>
      obtain ⟨r', hpeer⟩ := res
      refine ⟨r', by simp only [applyPeerMsg, hcreate, ok_bind], createPeer_wf hr hcreate,
        createPeer_activeAt hr hcreate, fun a ha => ?_⟩
      rcases (createPeer_addrs hr hcreate a).mp ha with h | rfl
      · exact Or.inl h
      · exact Or.inr rfl
  | offline fromaddr =>
    obtain ⟨r', hok, hwf, -, haddrs, hmap⟩ := destroyFromaddr_ok hr fromaddr
    refine ⟨r', hok, hwf, hmap, fun a ha => Or.inl ?_⟩
    rwa [Peers.addrs, haddrs] at ha

/-- A log that announces no more addresses than fit can be folded, and the replica has the map of
the log. -/
theorem fold_ok {msgs : List PeerMsg} {addrs : List HostAddr} (hle : addrs.length ≤ maxPeers)
    (hmsgs : ∀ m ∈ msgs, ∀ a, m.onlineAddr = some a → a ∈ addrs) :
    ∃ r, run applyPeerMsg peersInit msgs = .ok r ∧ r.WF ∧ r.activeAt = mapOf msgs ∧
      ∀ a ∈ r.addrs, a ∈ addrs := by
  induction msgs using List.reverseRecOn with
  | nil => exact ⟨peersInit, rfl, peersInit_wf, rfl, fun a ha => absurd ha List.not_mem_nil⟩
  | append_singleton msgs m ih =>
    obtain ⟨r, hrun, hwf, hmap, haddrs⟩ :=
      ih fun m' hm' => hmsgs m' (List.mem_append_left _ hm')
    have hm := hmsgs m (List.mem_append_right _ (List.mem_singleton_self m))
    have hroom : ∀ a, m.onlineAddr = some a → a ∈ r.addrs ∨ r.records.length < maxPeers := by
      intro a ha
      by_cases hmem : a ∈ r.addrs
      · exact Or.inl hmem
      · -- the address and those of the replica are distinct and among those that fit
        have hnodup : (a :: r.addrs).Nodup := List.nodup_cons.mpr ⟨hmem, hwf.fromaddr_nodup⟩
        have hsub : a :: r.addrs ⊆ addrs := by
          intro b hb
          rcases List.mem_cons.mp hb with rfl | hb
          · exact hm b ha
          · exact haddrs b hb
        have hlen := (hnodup.subperm hsub).length_le
        rw [List.length_cons, Peers.addrs, List.length_map] at hlen
        exact Or.inr (by omega)
    obtain ⟨r', hok, hwf', hmap', haddrs'⟩ := applyPeerMsg_ok hwf hroom
    refine ⟨r', by rw [run_concat, hrun, ok_bind, hok], hwf', ?_, fun a ha => ?_⟩
    · rw [hmap', hmap, mapOf_concat]
    · exact (haddrs' a ha).elim (haddrs a) (hm a)

/-! ## The invariant -/

/-- What links the tracker's table to its log. -/
structure Replicates (t : TrackerLog) : Prop where
  /-- The table is well formed. -/
  wf : t.peers.WF
  /-- The log of an active peer builds the tracker's map, but for the peer itself. -/
  agrees : ∀ c, (t.peers.activeAt c).isSome →
    ∀ a, a ≠ c → mapOf (addressedTo c t.processed) a = t.peers.activeAt a
  /-- Every address announced to an active peer has a record. -/
  known : ∀ c, (t.peers.activeAt c).isSome →
    ∀ m ∈ addressedTo c t.processed, ∀ a, m.onlineAddr = some a → a ∈ t.peers.addrs

theorem addressedTo_concat (c : HostAddr) (log : List Processed) (s : Processed) :
    addressedTo c (log ++ [s]) =
      if s.isKnockOf c then s.caughtUp c else addressedTo c log ++ s.addressed c := by
  rw [addressedTo, List.foldl_append]
  rfl

/-- What a run of recorded sends leaves. -/
theorem run_logSend (sends xs : List Send) : run logSend sends xs = .ok (sends ++ xs) := by
  induction xs generalizing sends with
  | nil => rw [run_nil, List.append_nil]
  | cons x xs ih => rw [run_cons, logSend, ok_bind, ih, List.append_assoc, List.singleton_append]

/-- The sends of a message to the tracker. -/
theorem trackerStep_cases {t t' : TrackerLog} {fromaddr : HostAddr} {m : TrackerMsg}
    (ht : t.peers.WF) (h : trackerStep t (fromaddr, m) = .ok t') :
    ∃ sends, t'.processed = t.processed ++ [⟨fromaddr, m, sends⟩] ∧
      handleMsg logSend t.peers [] fromaddr m = .ok (t'.peers, sends) ∧
      ((∃ aliasStr hostname listenport, m = .knock aliasStr hostname listenport ∧
        sends = broadcasts t.peers (m.announces fromaddr) ++
          catchUps t.peers fromaddr (knockToaddr fromaddr listenport)) ∨
        (m = .bye ∧ sends = broadcasts t'.peers (m.announces fromaddr))) := by
  rw [trackerStep, bind_eq_ok] at h
  obtain ⟨⟨peers, sends⟩, hhandle, h⟩ := h
  obtain rfl := Except.ok.inj h
  refine ⟨sends, rfl, hhandle, ?_⟩
  cases m with
  | knock aliasStr hostname listenport =>
    obtain ⟨hsends, -⟩ := (handleMsg_knock ht).mp hhandle
    rw [run_logSend, List.nil_append] at hsends
    exact Or.inl ⟨aliasStr, hostname, listenport, rfl, (Except.ok.inj hsends).symm⟩
  | bye =>
    obtain ⟨-, -, hsends⟩ := handleMsg_bye.mp hhandle
    rw [run_logSend, List.nil_append] at hsends
    exact Or.inr ⟨rfl, (Except.ok.inj hsends).symm⟩

/-- A peer that knocks is informed of the active peers there are. -/
theorem caughtUp_knock (p : Peers) (fromaddr toaddr : HostAddr) (m : TrackerMsg) (msg : PeerMsg) :
    Processed.caughtUp ⟨fromaddr, m, broadcasts p msg ++ catchUps p fromaddr toaddr⟩ fromaddr =
      (catchUps p fromaddr toaddr).map Send.msg := by
  have hb : ((broadcasts p msg).filter fun x => x.record = fromaddr ∧ x.kind = .catchUp) = [] := by
    refine List.filter_eq_nil_iff.mpr fun x hx => ?_
    obtain ⟨q, -, rfl⟩ := List.mem_map.mp hx
    simp [broadcastTo]
  have hc : ((catchUps p fromaddr toaddr).filter fun x => x.record = fromaddr ∧
      x.kind = .catchUp) = catchUps p fromaddr toaddr := by
    refine List.filter_eq_self.mpr fun x hx => ?_
    obtain ⟨q, -, rfl⟩ := List.mem_map.mp hx
    simp [catchUpWith]
  rw [Processed.caughtUp, List.filter_append, hb, hc, List.nil_append]

/-- The catch-up messages of another peer's KNOCK are not addressed to `c`. -/
theorem catchUps_addressed {fromaddr c : HostAddr} (hne : fromaddr ≠ c) (p : Peers)
    (toaddr : HostAddr) :
    ((catchUps p fromaddr toaddr).filter fun x => x.record = c).map Send.msg = [] := by
  rw [List.map_eq_nil_iff, List.filter_eq_nil_iff]
  intro x hx
  obtain ⟨q, -, rfl⟩ := List.mem_map.mp hx
  simp [catchUpWith, hne]

/-- What a step adds to the log of another active peer: the one broadcast. -/
theorem addressed_step {t t' : TrackerLog} {fromaddr c : HostAddr} {m : TrackerMsg}
    {sends : List Send} (ht : t.peers.WF) (ht' : t'.peers.WF) (hne : fromaddr ≠ c)
    (hc : (t.peers.activeAt c).isSome) (hc' : (t'.peers.activeAt c).isSome)
    (hsends : (∃ aliasStr hostname listenport, m = .knock aliasStr hostname listenport ∧
        sends = broadcasts t.peers (m.announces fromaddr) ++
          catchUps t.peers fromaddr (knockToaddr fromaddr listenport)) ∨
        (m = .bye ∧ sends = broadcasts t'.peers (m.announces fromaddr))) :
    Processed.addressed ⟨fromaddr, m, sends⟩ c = [m.announces fromaddr] := by
  rcases hsends with ⟨_, _, listenport, -, rfl⟩ | ⟨-, rfl⟩
  · rw [Processed.addressed, List.filter_append, List.map_append, broadcasts_addressed ht _ hc,
      catchUps_addressed hne, List.append_nil]
  · exact broadcasts_addressed ht' _ hc'

/-- Every address with a record keeps it, and an address announced has one afterwards. -/
theorem handleMsg_addrs {σ : Type} {send : σ → Send → Exec σ} {s s' : σ} {p p' : Peers}
    {fromaddr : HostAddr} {m : TrackerMsg} (hp : p.WF)
    (h : handleMsg send p s fromaddr m = .ok (p', s')) :
    (∀ a ∈ p.addrs, a ∈ p'.addrs) ∧
      ∀ a, (m.announces fromaddr).onlineAddr = some a → a ∈ p'.addrs := by
  cases m with
  | knock aliasStr hostname listenport =>
    obtain ⟨-, hpeer, hcreate⟩ := (handleMsg_knock hp).mp h
    have haddrs := createPeer_addrs hp hcreate
    refine ⟨fun a ha => (haddrs a).mpr (Or.inl ha), fun a ha => (haddrs a).mpr (Or.inr ?_)⟩
    exact (Option.some.inj ha).symm
  | bye =>
    obtain ⟨hdestroy, -⟩ := handleMsg_bye.mp h
    obtain ⟨p₁, hok, -, -, haddrs, -⟩ := destroyFromaddr_ok hp fromaddr
    obtain rfl := Except.ok.inj (hdestroy.symm.trans hok)
    refine ⟨fun a ha => ?_, fun a ha => by cases ha⟩
    rwa [Peers.addrs, haddrs]

/-- Handling a message keeps the link between the table and the log. -/
theorem replicates_step {t t' : TrackerLog} {e : HostAddr × TrackerMsg} (ht : Replicates t)
    (h : trackerStep t e = .ok t') : Replicates t' := by
  obtain ⟨fromaddr, m⟩ := e
  obtain ⟨sends, hlog, hhandle, hsends⟩ := trackerStep_cases ht.wf h
  have hwf' := handleMsg_wf ht.wf hhandle
  have hmap := handleMsg_activeAt ht.wf hhandle
  obtain ⟨hkeep, hnew⟩ := handleMsg_addrs ht.wf hhandle
  have hkey : (m.announces fromaddr).write.key = fromaddr := by cases m <;> rfl
  rw [hkey] at hmap
  -- a peer other than the sender is active afterwards only if it was before
  have hother : ∀ c, fromaddr ≠ c → t'.peers.activeAt c = t.peers.activeAt c := fun c hne => by
    rw [hmap, Function.update_of_ne hne.symm]
  have hstep : ∀ c, (t'.peers.activeAt c).isSome →
      (∃ toaddr, c = fromaddr ∧ addressedTo c t'.processed =
        (catchUps t.peers fromaddr toaddr).map Send.msg) ∨
      (fromaddr ≠ c ∧ addressedTo c t'.processed =
        addressedTo c t.processed ++ [m.announces fromaddr]) := by
    intro c hc
    rw [hlog, addressedTo_concat]
    by_cases hne : fromaddr = c
    · subst hne
      rcases hsends with ⟨aliasStr, hostname, listenport, rfl, rfl⟩ | ⟨rfl, -⟩
      · refine Or.inl ⟨knockToaddr fromaddr listenport, rfl, ?_⟩
        rw [if_pos (by simp [Processed.isKnockOf]), caughtUp_knock]
      · -- after its BYE the sender is not active
        rw [hmap, Function.update_self] at hc
        cases hc
    · refine Or.inr ⟨hne, ?_⟩
      have hknock : Processed.isKnockOf ⟨fromaddr, m, sends⟩ c = false := by
        cases m <;> simp [Processed.isKnockOf, hne]
      rw [hknock, if_neg (by simp),
        addressed_step ht.wf hwf' hne (hother c hne ▸ hc) hc hsends]
  refine ⟨hwf', fun c hc a ha => ?_, fun c hc msg hmsg a honline => ?_⟩
  · rcases hstep c hc with ⟨toaddr, rfl, hc'⟩ | ⟨hne, hc'⟩
    · rw [hc', mapOf_catchUps ht.wf, hother a ha.symm]
    · rw [hc', mapOf_concat, hkey, hmap, Function.update_apply, Function.update_apply,
        ht.agrees c (hother c hne ▸ hc) a ha]
  · rcases hstep c hc with ⟨toaddr, rfl, hc'⟩ | ⟨hne, hc'⟩
    · rw [hc'] at hmsg
      obtain ⟨x, hx, rfl⟩ := List.mem_map.mp hmsg
      obtain ⟨q, hq, rfl⟩ := List.mem_map.mp hx
      obtain rfl : q.fromaddr = a := Option.some.inj honline
      exact hkeep _ (List.mem_map_of_mem (List.mem_of_mem_filter hq))
    · rw [hc'] at hmsg
      rcases List.mem_append.mp hmsg with hmsg | hmsg
      · exact hkeep a (ht.known c (hother c hne ▸ hc) msg hmsg a honline)
      · obtain rfl := List.mem_singleton.mp hmsg
        exact hnew a honline

/-- The table and the log are linked after every run. -/
theorem replicates_run {es : List (HostAddr × TrackerMsg)} {t : TrackerLog}
    (h : run trackerStep trackerLogInit es = .ok t) : Replicates t := by
  refine run_invariant (I := Replicates) (fun t e t' ht hstep => replicates_step ht hstep) ?_ h
  refine ⟨peersInit_wf, fun c hc => ?_, fun c hc => ?_⟩
  · exact absurd hc (by simp [trackerLogInit])
  · exact absurd hc (by simp [trackerLogInit])

/-! ## Replication -/

/-- Two tables with the same map but for address `c` have the same active records but for it. -/
theorem others_eq {r p : Peers} {c : HostAddr} (hr : r.WF) (hp : p.WF)
    (h : ∀ a, a ≠ c → r.activeAt a = p.activeAt a) : r.others c = p.others c := by
  have hiff : ∀ {q : Peers}, q.WF → ∀ x : HostAddr × PeerInfo,
      x ∈ q.others c ↔ x.1 ≠ c ∧ q.activeAt x.1 = some x.2 := by
    intro q hq x
    rw [activeAt_eq_some_iff hq]
    constructor
    · rintro ⟨y, hy, hactive, hne, rfl⟩
      exact ⟨hne, y, hy, hactive, rfl, rfl⟩
    · rintro ⟨hne, y, hy, hactive, hfrom, hinfo⟩
      exact ⟨y, hy, hactive, hfrom ▸ hne, by rw [hfrom, hinfo]⟩
  ext x
  rw [hiff hr, hiff hp]
  constructor
  · rintro ⟨hne, hx⟩
    exact ⟨hne, h x.1 hne ▸ hx⟩
  · rintro ⟨hne, hx⟩
    exact ⟨hne, (h x.1 hne).symm ▸ hx⟩

/-- For every run of the tracker and every peer `c` active afterwards, folding the messages
addressed to the record of `c` since its last KNOCK from an empty table gives the tracker's active
records, but for the one of `c`. -/
theorem replication (es : List (HostAddr × TrackerMsg)) (t : TrackerLog)
    (hrun : run trackerStep trackerLogInit es = .ok t) (c : HostAddr)
    (hc : ∃ q ∈ t.peers.records, q.active = true ∧ q.fromaddr = c) :
    ∃ r, run applyPeerMsg peersInit (addressedTo c t.processed) = .ok r ∧
      r.others c = t.peers.others c := by
  have ht := replicates_run hrun
  obtain ⟨q, hq, hactive, hfrom⟩ := hc
  have hsome : (t.peers.activeAt c).isSome :=
    Option.isSome_iff_exists.mpr
      ⟨q.info, (activeAt_eq_some_iff ht.wf).mpr ⟨q, hq, hactive, hfrom, rfl⟩⟩
  have hle : t.peers.addrs.length ≤ maxPeers := by
    rw [Peers.addrs, List.length_map]
    exact ht.wf.length_le
  obtain ⟨r, hfold, hwf, hmap, -⟩ := fold_ok hle (ht.known c hsome)
  refine ⟨r, hfold, others_eq hwf ht.wf fun a ha => ?_⟩
  rw [hmap, ht.agrees c hsome a ha]

/-- Two peers join, the first leaves and comes back under another name: the second has followed. -/
theorem replication_of_rejoin :
    ∃ t r,
      run trackerStep trackerLogInit
        [(1, .knock (CStr.ofBytes [97]) CStr.empty 8001), (2, .knock CStr.empty CStr.empty 8001),
          (1, .bye), (1, .knock (CStr.ofBytes [98]) CStr.empty 8002)] = .ok t ∧
      run applyPeerMsg peersInit (addressedTo 2 t.processed) = .ok r ∧
      r.others 2 = t.peers.others 2 := by
  obtain ⟨r, hr⟩ := replication
    [(1, .knock (CStr.ofBytes [97]) CStr.empty 8001), (2, .knock CStr.empty CStr.empty 8001),
      (1, .bye), (1, .knock (CStr.ofBytes [98]) CStr.empty 8002)] _ rfl 2 (by decide)
  exact ⟨_, r, rfl, hr⟩

end TinyMsg
