import TinyMsg.Client.Step
import TinyMsg.Tracker.Net

/-!
# Which messages trip an assertion

Two assertions can fail in the message handlers.  `print_peers` asserts that there is a peer table,
and the table is made by the first `create_peer`; and `ArrayAppend` asserts that there is a free
slot, which fails when a full array cannot double its 16-bit capacity.

What the messages do to the peer table is a list of `PeerUse`s: an address is announced, by a KNOCK
to the tracker or a PEER_ONLINE to a client, or a peer leaves.  `Orderly` says of such a list that
the table survives it, and `TableOf` what the table is like then.  The tracker's sends go through
sockets; whatever state these are in (`Net.WF`) and whatever the system calls answer, they fail no
assertion, so `Orderly` decides.  A client also stores chat texts, of which as many fit as peers.
-/

namespace TinyMsg

/-! ## What messages do to a peer table -/

/-- What a message does to the peer table. -/
inductive PeerUse
  /-- The address is announced. -/
  | announce (a : HostAddr)
  /-- A peer leaves. -/
  | leave
  deriving DecidableEq

/-- The addresses announced. -/
def announced (us : List PeerUse) : List HostAddr :=
  us.filterMap fun
    | .announce a => some a
    | .leave => none

/-- The peer table survives these uses. -/
structure Orderly (us : List PeerUse) : Prop where
  /-- No peer leaves before the first is announced. -/
  announce_first : us.head? ≠ some .leave
  /-- There are no more addresses than fit. -/
  fits : (announced us).toFinset.card ≤ maxPeers

/-- What the peer table is like after these uses. -/
structure TableOf (p : Peers) (us : List PeerUse) : Prop where
  /-- The table is well formed. -/
  wf : p.WF
  /-- The addresses announced have records. -/
  at_eq_none_iff : ∀ a, p.at a = none ↔ a ∉ announced us
  /-- There is a table once an address was announced. -/
  cap_eq_zero_iff : p.gPeers.cap = 0 ↔ announced us = []

theorem announced_append (us vs : List PeerUse) :
    announced (us ++ vs) = announced us ++ announced vs := List.filterMap_append

@[simp] theorem announced_concat_announce (us : List PeerUse) (a : HostAddr) :
    announced (us ++ [.announce a]) = announced us ++ [a] := announced_append _ _

@[simp] theorem announced_concat_leave (us : List PeerUse) :
    announced (us ++ [.leave]) = announced us := by
  rw [announced_append]
  exact List.append_nil _

theorem tableOf_init : TableOf peersInit [] :=
  ⟨peersInit_wf, fun _ => by simp [announced, Peers.at], by simp [announced, peersInit, arrayZero]⟩

section Uses

variable {us : List PeerUse} {p p' : Peers} {a : HostAddr} {aliasStr hostname : CStr}
  {toaddr : HostAddr} {hpeer : TMHandle}

/-- The first uses of an orderly list are orderly. -/
theorem Orderly.init {vs : List PeerUse} (h : Orderly (us ++ vs)) : Orderly us := by
  refine ⟨fun hhead => h.announce_first ?_, le_trans (Finset.card_le_card ?_) h.fits⟩
  · rw [List.head?_append, hhead]
    rfl
  · rw [announced_append, List.toFinset_append]
    exact Finset.subset_union_left

/-- A peer may leave as soon as one was announced. -/
theorem Orderly.concat_leave_iff (h : Orderly us) :
    Orderly (us ++ [.leave]) ↔ announced us ≠ [] := by
  constructor
  · rintro hleave hnil
    cases us with
    | nil => exact hleave.announce_first rfl
    | cons u us =>
      cases u with
      | announce a => cases hnil
      | leave => exact h.announce_first rfl
  · intro hne
    refine ⟨?_, by rw [announced_concat_leave]; exact h.fits⟩
    cases us with
    | nil => exact absurd rfl hne
    | cons u us => exact h.announce_first

/-- There are as many records as addresses. -/
theorem TableOf.length_records (h : TableOf p us) :
    p.records.length = (announced us).toFinset.card := by
  have hset : (p.records.map Peer.fromaddr).toFinset = (announced us).toFinset := by
    ext a
    rw [List.mem_toFinset, List.mem_toFinset, ← not_iff_not, ← h.at_eq_none_iff,
      Peers.at, lookup_eq_none_iff]
    simp
  rw [← hset, List.toFinset_card_of_nodup h.wf.fromaddr_nodup, List.length_map]

/-- An address may be announced unless it is new and the table is full. -/
theorem TableOf.concat_announce_iff (h : TableOf p us) (hus : Orderly us) :
    Orderly (us ++ [.announce a]) ↔ ¬ (p.at a = none ∧ p.records.length = maxPeers) := by
  have hann : (announced (us ++ [PeerUse.announce a])).toFinset =
      insert a (announced us).toFinset := by
    rw [announced_concat_announce, List.toFinset_append, Finset.union_comm]
    rfl
  have hhead : (us ++ [PeerUse.announce a]).head? ≠ some .leave := by
    cases us with
    | nil => exact fun h => by cases h
    | cons u us => exact hus.announce_first
  have hfits := hus.fits
  rw [h.length_records, h.at_eq_none_iff]
  constructor
  · rintro ho ⟨hnew, hfull⟩
    have hcard := ho.fits
    rw [hann, Finset.card_insert_of_notMem (by simpa using hnew), hfull] at hcard
    exact absurd hcard (Nat.not_succ_le_self _)
  · intro hroom
    refine ⟨hhead, ?_⟩
    rw [hann]
    by_cases hnew : a ∈ announced us
    · rwa [Finset.insert_eq_of_mem (by simpa using hnew)]
    · rw [Finset.card_insert_of_notMem (by simpa using hnew)]
      exact Nat.lt_of_le_of_ne hfits fun hfull => hroom ⟨hnew, hfull⟩

/-- `create_peer` announces an address. -/
theorem TableOf.createPeer (h : TableOf p us)
    (hcreate : createPeer p aliasStr hostname a toaddr = .ok (p', hpeer)) :
    TableOf p' (us ++ [.announce a]) := by
  obtain ⟨r, -, -, -, -, hat⟩ := createPeer_at h.wf hcreate
  refine ⟨createPeer_wf h.wf hcreate, fun b => ?_, ?_⟩
  · rw [hat, announced_concat_announce, List.mem_append, List.mem_singleton]
    split
    case isTrue hb => simp [hb]
    case isFalse hb => simp [h.at_eq_none_iff, hb]
  · simp [createPeer_cap h.wf hcreate]

/-- A table with the same records. -/
theorem TableOf.of_fromaddr (h : TableOf p us) (hwf : p'.WF)
    (haddr : p'.records.map Peer.fromaddr = p.records.map Peer.fromaddr)
    (hcap : p'.gPeers.cap = p.gPeers.cap) : TableOf p' us := by
  refine ⟨hwf, fun a => ?_, hcap ▸ h.cap_eq_zero_iff⟩
  have hmem : ∀ q : Peers, q.at a = none ↔ a ∉ q.records.map Peer.fromaddr := fun q => by
    rw [Peers.at, lookup_eq_none_iff]
    simp
  rw [hmem, haddr, ← hmem, h.at_eq_none_iff]

/-- Nothing is announced when a peer leaves. -/
theorem TableOf.leave (h : TableOf p us) : TableOf p (us ++ [.leave]) :=
  ⟨h.wf, by simpa using h.at_eq_none_iff, by simpa using h.cap_eq_zero_iff⟩

end Uses

/-! ## The tracker -/

/-- What a message does to the tracker's table. -/
def trackerUse (fromaddr : HostAddr) : TrackerMsg → PeerUse
  | .knock .. => .announce fromaddr
  | .bye => .leave

section Tracker

variable {σ : Type} {send : σ → Send → Exec σ} {J : σ → Prop} {E : Fault → Prop} {p : Peers}
  {s : σ} {us : List PeerUse}

/-- A loop of sends keeps what each send keeps. -/
theorem sendForEach_meets (hsend : ∀ s call, J s → Meets (send s call) J E) (p : Peers) (hs : J s)
    (call : Peer → Send) : Meets (sendForEach send p s call) J E := by
  rw [sendForEach_eq]
  exact meets_run hs fun s c _ hs => hsend s c hs

/-- A message that the table survives is handled, if the sends come back. -/
theorem handleMsg_meets (h : TableOf p us) (hsend : ∀ s call, J s → Meets (send s call) J E)
    (hs : J s) (hus : Orderly us) {fromaddr : HostAddr} {m : TrackerMsg}
    (hm : Orderly (us ++ [trackerUse fromaddr m])) :
    Meets (handleMsg send p s fromaddr m)
      (fun r => TableOf r.1 (us ++ [trackerUse fromaddr m]) ∧ J r.2) E := by
  cases m with
  | knock aliasStr hostname listenport =>
    rw [handleMsg]
    refine (sendForEach_meets hsend p hs _).bind fun s₁ hs₁ => ?_
    refine (sendForEach_meets hsend p hs₁ _).bind fun s₂ hs₂ => ?_
    rcases createPeer_cases h.wf aliasStr hostname fromaddr (knockToaddr fromaddr listenport) with
      ⟨p', hpeer, hcreate, -⟩ | ⟨-, hfull⟩
    · have hprint : printPeers p' = .ok () := by
        rw [printPeers_eq, if_neg (createPeer_cap h.wf hcreate)]
      rw [hcreate, ok_bind]
      change Meets (printPeers p' >>= _) _ _
      rw [hprint]
      exact ⟨h.createPeer hcreate, hs₂⟩
    · exact absurd hfull ((h.concat_announce_iff hus).mp hm)
  | bye =>
    obtain ⟨p', hdestroy, hwf, hcap, haddr, -⟩ := destroyFromaddr_ok h.wf fromaddr
    have htable := h.of_fromaddr hwf haddr hcap
    have hne : p'.gPeers.cap ≠ 0 :=
      fun hzero => hus.concat_leave_iff.mp hm (htable.cap_eq_zero_iff.mp hzero)
    rw [handleMsg, hdestroy, ok_bind, printPeers_eq, if_neg hne, ok_bind]
    refine (sendForEach_meets hsend p' hs _).bind fun s₁ hs₁ => ?_
    exact ⟨htable.leave, hs₁⟩

/-- A message that the table does not survive is not handled to the end. -/
theorem handleMsg_stops (h : TableOf p us) (hsend : ∀ s call, J s → Meets (send s call) J E)
    (hs : J s) (hus : Orderly us) {fromaddr : HostAddr} {m : TrackerMsg}
    (hm : ¬ Orderly (us ++ [trackerUse fromaddr m])) :
    Meets (handleMsg send p s fromaddr m) (fun _ => False) (fun e => e = .assertion ∨ E e) := by
  cases m with
  | knock aliasStr hostname listenport =>
    have hfull : p.at fromaddr = none ∧ p.records.length = maxPeers := by
      by_contra hroom
      exact hm ((h.concat_announce_iff hus).mpr hroom)
    have hcreate : createPeer p aliasStr hostname fromaddr (knockToaddr fromaddr listenport) =
        .error .assertion := (createPeer_error_iff h.wf).mpr ⟨rfl, hfull⟩
    rw [handleMsg]
    refine ((sendForEach_meets hsend p hs _).mono (fun _ h => h) fun _ => Or.inr).bind
      fun s₁ hs₁ => ?_
    refine ((sendForEach_meets hsend p hs₁ _).mono (fun _ h => h) fun _ => Or.inr).bind
      fun s₂ hs₂ => ?_
    rw [hcreate]
    exact Or.inl rfl
  | bye =>
    obtain ⟨p', hdestroy, hwf, hcap, haddr, -⟩ := destroyFromaddr_ok h.wf fromaddr
    have htable := h.of_fromaddr hwf haddr hcap
    have hzero : p'.gPeers.cap = 0 := by
      by_contra hne
      exact hm (hus.concat_leave_iff.mpr fun hnil => hne (htable.cap_eq_zero_iff.mpr hnil))
    rw [handleMsg, hdestroy, ok_bind, printPeers_eq, if_pos hzero]
    exact Or.inl rfl

end Tracker

/-- A message to the tracker as it is handled: its sender, the state that the sockets are in, and
the results of the system calls that its sends make. -/
structure TrackerCall where
  /-- `fromaddr` -/
  fromaddr : HostAddr
  /-- The message. -/
  msg : TrackerMsg
  /-- The sockets. -/
  net : Net
  /-- They are in order. -/
  net_wf : net.WF
  /-- The results of the system calls. -/
  calls : List ConnectCall

/-- What the message does to the table. -/
def TrackerCall.use (e : TrackerCall) : PeerUse := trackerUse e.fromaddr e.msg

/-- The tracker handles a message. -/
def trackerCall (p : Peers) (e : TrackerCall) : Exec Peers := do
  let (p, _) ← handleMsg sendPeerMsg p (e.net, e.calls) e.fromaddr e.msg
  .ok p

section TrackerRun

variable {J : Net × List ConnectCall → Prop} {E : Fault → Prop} {es : List TrackerCall}

/-- Messages that the table survives are handled, if the sends come back. -/
theorem trackerRun_meets (hsend : ∀ s call, J s → Meets (sendPeerMsg s call) J E)
    (hnet : ∀ e ∈ es, J (e.net, e.calls)) (hes : Orderly (es.map TrackerCall.use)) :
    Meets (run trackerCall peersInit es) (fun p => TableOf p (es.map TrackerCall.use)) E := by
  induction es using List.reverseRecOn with
  | nil => exact tableOf_init
  | append_singleton es e ih =>
    rw [List.map_append] at hes ⊢
    rw [run_concat]
    have hnet' : ∀ f ∈ es, J (f.net, f.calls) := fun f hf => hnet f (List.mem_append_left _ hf)
    refine (ih hnet' hes.init).bind fun p hp => ?_
    have he : J (e.net, e.calls) := hnet e (List.mem_append_right _ List.mem_cons_self)
    exact (handleMsg_meets hp hsend he hes.init hes).bind fun r hr => hr.1

/-- Messages that the table does not survive are not handled to the end. -/
theorem trackerRun_stops (hsend : ∀ s call, J s → Meets (sendPeerMsg s call) J E)
    (hnet : ∀ e ∈ es, J (e.net, e.calls)) (hes : ¬ Orderly (es.map TrackerCall.use)) :
    Meets (run trackerCall peersInit es) (fun _ => False) fun e => e = .assertion ∨ E e := by
  induction es using List.reverseRecOn with
  | nil => exact absurd ⟨nofun, Nat.zero_le _⟩ hes
  | append_singleton es e ih =>
    rw [List.map_append] at hes
    rw [run_concat]
    have hnet' : ∀ f ∈ es, J (f.net, f.calls) := fun f hf => hnet f (List.mem_append_left _ hf)
    have he : J (e.net, e.calls) := hnet e (List.mem_append_right _ List.mem_cons_self)
    by_cases hinit : Orderly (es.map TrackerCall.use)
    · refine ((trackerRun_meets hsend hnet' hinit).mono (fun _ h => h) fun _ => Or.inr).bind
        fun p hp => ?_
      exact (handleMsg_stops hp hsend he hinit hes).bind fun r hr => hr.elim
    · exact (ih hnet' hinit).bind fun p hp => hp.elim

end TrackerRun

/-- Messages that the table survives fail no assertion, whatever the sockets do. -/
theorem trackerRun_no_assertion {es : List TrackerCall} (hes : Orderly (es.map TrackerCall.use)) :
    run trackerCall peersInit es ≠ .error .assertion := by
  have hsend : ∀ (s : Net × List ConnectCall) (call : Send), s.1.WF →
      Meets (sendPeerMsg s call) (fun s => s.1.WF) NoAssertion := fun s call hs =>
    (sendPeerMsg_meets hs call).mono (fun _ h => h.wf) fun _ h => h
  intro herr
  exact (trackerRun_meets hsend (fun e _ => e.net_wf) hes).of_error herr rfl

/-- A message to a tracker that can open no socket. -/
def unreachableCall (x : HostAddr × TrackerMsg) : TrackerCall :=
  ⟨x.1, x.2, netInit 0 ∅, netInit_wf 0 ∅, []⟩

/-- Messages that the table does not survive fail an assertion, for instance where no socket can
be opened. -/
theorem unreachableRun_assertion {msgs : List (HostAddr × TrackerMsg)}
    (hmsgs : ¬ Orderly (msgs.map fun x => trackerUse x.1 x.2)) :
    run trackerCall peersInit (msgs.map unreachableCall) = .error .assertion := by
  have hsend : ∀ (s : Net × List ConnectCall) (call : Send), s = (netInit 0 ∅, []) →
      Meets (sendPeerMsg s call) (fun s => s = (netInit 0 ∅, [])) fun _ => False := by
    rintro s call rfl
    rw [sendPeerMsg_unreachable rfl]
    rfl
  have hnet : ∀ e ∈ msgs.map unreachableCall, (e.net, e.calls) = (netInit 0 ∅, []) := by
    intro e he
    obtain ⟨x, -, rfl⟩ := List.mem_map.mp he
    rfl
  have huses : (msgs.map unreachableCall).map TrackerCall.use =
      msgs.map fun x => trackerUse x.1 x.2 := by
    rw [List.map_map]
    rfl
  have hstop := trackerRun_stops hsend hnet (huses ▸ hmsgs)
  cases hrun : run trackerCall peersInit (msgs.map unreachableCall) with
  | ok p => exact (hstop.of_ok hrun).elim
  | error e => rw [(hstop.of_error hrun).resolve_right id]

/-! ## A client -/

/-- What an event does to a client's table: messages about peers count when they come from the
tracker. -/
def clientUse (gTrackerAddr : HostAddr) : ClientEvent → Option PeerUse
  | .recv fromaddr (.peer m) =>
    if hostAddrIpaddrEquals fromaddr gTrackerAddr then
      some (if m.isOnline then .announce m.fromaddr else .leave)
    else none
  | _ => none

/-- What the events do to a client's table. -/
def clientUses (gTrackerAddr : HostAddr) (es : List ClientEvent) : List PeerUse :=
  es.filterMap (clientUse gTrackerAddr)

/-- The event is a CHATTEXT from one of the addresses. -/
def isTextFrom (known : List HostAddr) : ClientEvent → Bool
  | .recv fromaddr (.chattext _) => fromaddr ∈ known
  | _ => false

/-- The number of CHATTEXTs that a client stores, those from addresses announced before, when the
addresses in `known` have been announced already. -/
def textsKept (gTrackerAddr : HostAddr) (known : List HostAddr) : List ClientEvent → ℕ
  | [] => 0
  | e :: es => (if isTextFrom known e then 1 else 0) +
    textsKept gTrackerAddr (known ++ announced (clientUse gTrackerAddr e).toList) es

/-- The client survives these events. -/
structure ClientOrderly (gTrackerAddr : HostAddr) (es : List ClientEvent) : Prop where
  /-- The peer table survives them. -/
  uses : Orderly (clientUses gTrackerAddr es)
  /-- There are no more chat texts than fit. -/
  texts : textsKept gTrackerAddr [] es ≤ maxPeers

/-- What a client is like after these events. -/
structure ClientOf (gTrackerAddr : HostAddr) (c : Client) (es : List ClientEvent) : Prop where
  /-- The client is well formed. -/
  wf : c.WF
  /-- The peer table is the one of the events. -/
  table : TableOf c.peers (clientUses gTrackerAddr es)
  /-- The chat texts are those kept. -/
  texts : c.gChatTexts.len = textsKept gTrackerAddr [] es
  /-- Their array has doubled. -/
  texts_cap : ∃ k ≤ 9, c.gChatTexts.cap = 64 * 2 ^ k

section Client

variable {gTrackerAddr fromaddr : HostAddr} {es : List ClientEvent} {e : ClientEvent}
  {c c' : Client} {m : ClientMsg}

theorem clientUses_concat (gTrackerAddr : HostAddr) (es : List ClientEvent) (e : ClientEvent) :
    clientUses gTrackerAddr (es ++ [e]) =
      clientUses gTrackerAddr es ++ (clientUse gTrackerAddr e).toList := by
  rw [clientUses, List.filterMap_append]
  cases h : clientUse gTrackerAddr e <;> simp [clientUses, h]

/-- A further event counts when it is a CHATTEXT from an address announced by then. -/
theorem textsKept_concat (gTrackerAddr : HostAddr) (known : List HostAddr)
    (es : List ClientEvent) (e : ClientEvent) :
    textsKept gTrackerAddr known (es ++ [e]) = textsKept gTrackerAddr known es +
      if isTextFrom (known ++ announced (clientUses gTrackerAddr es)) e then 1 else 0 := by
  induction es generalizing known with
  | nil => simp [textsKept, clientUses, announced]
  | cons f es ih =>
    have huses : clientUses gTrackerAddr (f :: es) =
        (clientUse gTrackerAddr f).toList ++ clientUses gTrackerAddr es := by
      rw [clientUses, List.filterMap_cons]
      cases clientUse gTrackerAddr f <;> rfl
    rw [List.cons_append, textsKept, textsKept, ih, huses, announced_append, List.append_assoc,
      Nat.add_assoc]

/-- One more event, by what it does to the table and to the chat texts. -/
theorem ClientOf.extend (hwf : c'.WF)
    (htable : TableOf c'.peers
      (clientUses gTrackerAddr es ++ (clientUse gTrackerAddr e).toList))
    (huses : Orderly (clientUses gTrackerAddr es ++ (clientUse gTrackerAddr e).toList))
    (hlen : c'.gChatTexts.len = textsKept gTrackerAddr [] es +
      if isTextFrom (announced (clientUses gTrackerAddr es)) e then 1 else 0)
    (hle : c'.gChatTexts.len ≤ maxPeers) (hcap : ∃ k ≤ 9, c'.gChatTexts.cap = 64 * 2 ^ k) :
    ClientOf gTrackerAddr c' (es ++ [e]) ∧ ClientOrderly gTrackerAddr (es ++ [e]) := by
  rw [← clientUses_concat] at htable huses
  have htexts : c'.gChatTexts.len = textsKept gTrackerAddr [] (es ++ [e]) := by
    rw [textsKept_concat]
    exact hlen
  exact ⟨⟨hwf, htable, htexts, hcap⟩, huses, htexts ▸ hle⟩

/-- One more event that leaves the table and the chat texts alone. -/
theorem ClientOf.extend_same (h : ClientOf gTrackerAddr c es) (hes : ClientOrderly gTrackerAddr es)
    (hwf : c'.WF) (huse : clientUse gTrackerAddr e = none)
    (htext : isTextFrom (announced (clientUses gTrackerAddr es)) e = false)
    (htable : TableOf c'.peers (clientUses gTrackerAddr es))
    (htexts : c'.gChatTexts = c.gChatTexts) :
    ClientOf gTrackerAddr c' (es ++ [e]) ∧ ClientOrderly gTrackerAddr (es ++ [e]) := by
  refine ClientOf.extend hwf ?_ ?_ ?_ ?_ ?_
  · rw [huse]
    simpa using htable
  · rw [huse]
    simpa using hes.uses
  · rw [htexts, htext, h.texts]
    simp
  · rw [htexts, h.texts]
    exact hes.texts
  · rw [htexts]
    exact h.texts_cap

/-- A message about a peer that comes from the tracker. -/
theorem clientUse_peer {m : PeerMsg} (hfrom : hostAddrIpaddrEquals fromaddr gTrackerAddr = true) :
    clientUse gTrackerAddr (.recv fromaddr (.peer m)) =
      some (if m.isOnline then .announce m.fromaddr else .leave) := by
  rw [clientUse, if_pos hfrom]

/-- A message that the client survives leaves it as the events say. -/
theorem ClientOf.handled (h : ClientOf gTrackerAddr c es) (hes : ClientOrderly gTrackerAddr es)
    (hh : ClientHandled gTrackerAddr c fromaddr m c') :
    ClientOf gTrackerAddr c' (es ++ [.recv fromaddr m]) ∧
      ClientOrderly gTrackerAddr (es ++ [.recv fromaddr m]) := by
  have hwf := hh.wf h.wf
  have hlen : c.gChatTexts.len ≤ maxPeers := h.texts ▸ hes.texts
  cases hh with
  | foreign m hfrom =>
    exact h.extend_same hes hwf (by rw [clientUse, hfrom]; rfl) rfl h.table rfl
  | online hfrom hcreate =>
    have htable := h.table.createPeer hcreate
    refine ClientOf.extend hwf ?_ ?_ h.texts hlen h.texts_cap
    · rw [clientUse_peer hfrom]
      exact htable
    · rw [clientUse_peer hfrom]
      refine (h.table.concat_announce_iff hes.uses).mpr fun hfull => ?_
      exact absurd (hcreate.symm.trans ((createPeer_error_iff h.wf.peers).mpr ⟨rfl, hfull⟩)) nofun
  | offline hfrom hcap | offlineUnknown hfrom hcap =>
    refine ClientOf.extend hwf ?_ ?_ h.texts hlen h.texts_cap
    · rw [clientUse_peer hfrom]
      exact h.table.leave
    · rw [clientUse_peer hfrom]
      exact hes.uses.concat_leave_iff.mpr fun hnil => hcap (h.table.cap_eq_zero_iff.mpr hnil)
  | @chattext text q gChatTexts hq happend =>
    have hknown : fromaddr ∈ announced (clientUses gTrackerAddr es) := by
      by_contra hnew
      rw [(h.table.at_eq_none_iff fromaddr).mpr hnew] at hq
      cases hq
    rcases arrayAppend_doubling h.texts_cap ⟨fromaddr, 0, stringDup text⟩ with
      ⟨a, ha, hroom, hcap⟩ | ⟨herr, -⟩
    · obtain rfl := Except.ok.inj (happend.symm.trans ha)
      have hlen' := (arrayAppend_ok happend).2.1
      have huse : clientUse gTrackerAddr (.recv fromaddr (.chattext text)) = none := rfl
      refine ClientOf.extend hwf ?_ ?_ ?_ ?_ hcap
      · rw [huse, Option.toList_none, List.append_nil]
        exact h.table
      · rw [huse, Option.toList_none, List.append_nil]
        exact hes.uses
      · simp [gIdleAdd, hlen', h.texts, isTextFrom, hknown]
      · change gChatTexts.len ≤ maxPeers
        rw [hlen']
        exact hroom
    · rw [happend] at herr
      cases herr
  | chattextUnknown hq =>
    have hnew := (h.table.at_eq_none_iff fromaddr).mp hq
    exact h.extend_same hes hwf rfl (by simp [isTextFrom, hnew]) h.table rfl

/-- An event that the client survives leaves it as the events say. -/
theorem ClientOf.step (h : ClientOf gTrackerAddr c es) (hes : ClientOrderly gTrackerAddr es)
    (hstep : ClientStepped gTrackerAddr c e c') :
    ClientOf gTrackerAddr c' (es ++ [e]) ∧ ClientOrderly gTrackerAddr (es ++ [e]) := by
  have hwf := hstep.wf h.wf
  have hopen : ∀ {c : Client} {hpeer : TMHandle}, WinOpened c hpeer c' →
      c'.peers = c.peers ∧ c'.gChatTexts = c.gChatTexts := fun hopened => by
    obtain ⟨q, gChatWins, -, -, -, rfl⟩ := hopened.opened
    exact ⟨rfl, rfl⟩
  cases hstep with
  | recv hh => exact h.handled hes hh
  | noIdle | selectNothing => exact h.extend_same hes hwf rfl rfl h.table rfl
  | select hrow hopened =>
    obtain ⟨hpeers, htexts⟩ := hopen hopened
    exact h.extend_same hes hwf rfl rfl (hpeers ▸ h.table) htexts
  | idle hqueue hdone =>
    cases hdone with
    | peerOnline | addText => exact h.extend_same hes hwf rfl rfl h.table rfl
    | openWin hopened =>
      obtain ⟨hpeers, htexts⟩ := hopen hopened
      exact h.extend_same hes hwf rfl rfl (hpeers ▸ h.table) htexts
    | @peerOffline hpeer q gChatWins peers hq hwins hcap hdestroy =>
      obtain ⟨p', hok, hrec, -, -, hcap'⟩ := destroyPeer_eq h.wf.peers hpeer
      obtain rfl := Except.ok.inj (hdestroy.symm.trans hok)
      have haddr : peers.records.map Peer.fromaddr = c.peers.records.map Peer.fromaddr := by
        rw [hrec, map_key_map (fromaddr_deactivate hpeer)]
      exact h.extend_same hes hwf rfl rfl
        (h.table.of_fromaddr (destroyPeer_wf h.wf.peers hdestroy) haddr hcap') rfl

/-- An event that stops the client is not orderly. -/
theorem ClientOf.stop (h : ClientOf gTrackerAddr c es)
    (hstop : ClientStopped gTrackerAddr c fromaddr m) (hes : ClientOrderly gTrackerAddr es) :
    ¬ ClientOrderly gTrackerAddr (es ++ [.recv fromaddr m]) := by
  intro ho
  cases hstop with
  | online hfrom hnew hfull =>
    have huses := ho.uses
    rw [clientUses_concat, clientUse_peer hfrom] at huses
    exact (h.table.concat_announce_iff hes.uses).mp huses ⟨hnew, hfull⟩
  | offline hfrom hcap =>
    have huses := ho.uses
    rw [clientUses_concat, clientUse_peer hfrom] at huses
    exact hes.uses.concat_leave_iff.mp huses (h.table.cap_eq_zero_iff.mp hcap)
  | @chattext text q hq hfull =>
    have htexts := ho.texts
    have hknown : fromaddr ∈ announced (clientUses gTrackerAddr es) := by
      by_contra hnew
      rw [(h.table.at_eq_none_iff fromaddr).mpr hnew] at hq
      cases hq
    have hlen : c.gChatTexts.len = 2 ^ 15 := by
      have herr := (arrayAppend_error_iff c.gChatTexts ⟨fromaddr, 0, stringDup text⟩).mpr hfull
      rcases arrayAppend_doubling h.texts_cap ⟨fromaddr, 0, stringDup text⟩ with
        ⟨a, ha, -⟩ | ⟨-, hlen⟩
      · rw [ha] at herr
        cases herr
      · exact hlen
    rw [textsKept_concat, ← h.texts, hlen] at htexts
    simp [isTextFrom, hknown, maxPeers] at htexts

/-- A client survives exactly the orderly runs. -/
theorem clientRun_cases (gTrackerAddr : HostAddr) (es : List ClientEvent) :
    (ClientOrderly gTrackerAddr es ∧ ∃ c, run (clientStep gTrackerAddr) clientInit es = .ok c ∧
      ClientOf gTrackerAddr c es) ∨
    (¬ ClientOrderly gTrackerAddr es ∧
      run (clientStep gTrackerAddr) clientInit es = .error .assertion) := by
  induction es using List.reverseRecOn with
  | nil =>
    exact Or.inl ⟨⟨⟨nofun, Nat.zero_le _⟩, Nat.zero_le _⟩, clientInit, rfl, clientInit_wf,
      tableOf_init, rfl, 0, by decide, rfl⟩
  | append_singleton es e ih =>
    rw [run_concat]
    rcases ih with ⟨hes, c, hrun, hc⟩ | ⟨hes, hrun⟩
    · rw [hrun, ok_bind]
      rcases clientStep_cases hc.wf gTrackerAddr e with
        ⟨c', hok, hstepped⟩ | ⟨herr, fromaddr, m, rfl, hstop⟩
      · obtain ⟨hc', hes'⟩ := hc.step hes hstepped
        exact Or.inl ⟨hes', c', hok, hc'⟩
      · exact Or.inr ⟨hc.stop hstop hes, herr⟩
    · rw [hrun, error_bind]
      refine Or.inr ⟨fun hes' => hes ⟨?_, ?_⟩, rfl⟩
      · have huses := hes'.uses
        rw [clientUses_concat] at huses
        exact huses.init
      · have htexts := hes'.texts
        rw [textsKept_concat] at htexts
        exact le_trans (Nat.le_add_right _ _) htexts

end Client

/-! ## Both programs -/

/-- Which messages trip no assertion.  For the tracker: those in which no BYE comes before the
first KNOCK, and in which no more than 32768 addresses send a KNOCK.  For a client, whatever the
GUI thread does in between: those in which no PEER_OFFLINE of the tracker's comes before its first
PEER_ONLINE, and in which there are no more than 32768 announced addresses and no more than 32768
CHATTEXTs from announced addresses. -/
theorem no_assertion_iff (msgs : List (HostAddr × TrackerMsg)) (gTrackerAddr : HostAddr)
    (es : List ClientEvent) :
    ((∀ es : List TrackerCall, (es.map fun e => (e.fromaddr, e.msg)) = msgs →
        run trackerCall peersInit es ≠ .error .assertion) ↔
      Orderly (msgs.map fun x => trackerUse x.1 x.2)) ∧
    (run (clientStep gTrackerAddr) clientInit es ≠ .error .assertion ↔
      ClientOrderly gTrackerAddr es) := by
  refine ⟨⟨fun h => ?_, ?_⟩, ?_⟩
  · by_contra hmsgs
    refine h (msgs.map unreachableCall) ?_ (unreachableRun_assertion hmsgs)
    rw [List.map_map]
    exact List.map_id' _
  · rintro hmsgs es rfl
    refine trackerRun_no_assertion ?_
    rw [List.map_map] at hmsgs
    exact hmsgs
  · rcases clientRun_cases gTrackerAddr es with ⟨hes, c, hrun, -⟩ | ⟨hes, hrun⟩
    · simp [hrun, hes]
    · simp [hrun, hes]

/-- A BYE that reaches a tracker that has just started stops it, and so does a PEER_OFFLINE a
client that has seen no peer yet. -/
theorem leave_first_trips_assertion :
    run trackerCall peersInit [unreachableCall (5, .bye)] = .error .assertion ∧
      run (clientStep 1) clientInit [.recv 1 (.peer (.offline 5))] = .error .assertion := by
  constructor <;> rfl

end TinyMsg
