import TinyMsg.Client.Step

/-!
# Does the client's peer state follow the tracker's messages?

A PEER_ONLINE sets `active` at once and posts `IDLE_peer_online`, which shows the row of the peer;
a PEER_OFFLINE only posts `IDLE_peer_offline`, which hides the row and clears `active`.  The rows
are changed by callbacks alone, which run in the order of the messages.  So once all have run, the
row is shown exactly when the last message was a PEER_ONLINE (`Client.rowSettled`).  The flag is
set by the network thread: a PEER_ONLINE that is handled while an `IDLE_peer_offline` of the same
peer still waits is undone by it (`Overtaken`), and this is the only way to go wrong.
-/

namespace TinyMsg

/-! ## The messages and the rows -/

/-- The messages among the events that come from the tracker. -/
def trackerMsgs (gTrackerAddr : HostAddr) (es : List ClientEvent) : List PeerMsg :=
  es.filterMap fun
    | .recv fromaddr (.peer m) =>
      if hostAddrIpaddrEquals fromaddr gTrackerAddr then some m else none
    | _ => none

/-- What a callback does to the row of a peer, if anything. -/
def Idle.showsRow (hpeer : TMHandle) : Idle → Option Bool
  | .peerOnline k => if k = hpeer then some true else none
  | .peerOffline k => if k = hpeer then some false else none
  | .openChatwin .. => none

/-- The row of the peer is shown when all callbacks posted have run. -/
def Client.rowSettled (c : Client) (hpeer : TMHandle) : Bool :=
  c.queue.foldl (fun shown i => (i.showsRow hpeer).getD shown) (decide (c.rowShown hpeer))

/-- The last message about an address is a PEER_ONLINE, and was handled while an
`IDLE_peer_offline` of the peer was waiting. -/
def Overtaken (gTrackerAddr : HostAddr) (es : List ClientEvent) (a : HostAddr) : Prop :=
  ∃ es₁ fromaddr m es₂, es = es₁ ++ .recv fromaddr (.peer m) :: es₂ ∧
    hostAddrIpaddrEquals fromaddr gTrackerAddr = true ∧ m.isOnline = true ∧ m.fromaddr = a ∧
    (∀ m' ∈ trackerMsgs gTrackerAddr es₂, m'.fromaddr ≠ a) ∧
    ∃ c q, run (clientStep gTrackerAddr) clientInit es₁ = .ok c ∧ c.peers.at a = some q ∧
      .peerOffline q.hpeer ∈ c.queue

/-- The peer at an address has a record, which is active exactly when the peer has a row, and it
has a row exactly when the last message about it is a PEER_ONLINE. -/
def Follows (c : Client) (msgs : List PeerMsg) (a : HostAddr) : Prop :=
  ∃ q, c.peers.at a = some q ∧ (q.active = true ↔ c.rowShown q.hpeer) ∧
    (c.rowShown q.hpeer ↔ lastOnline msgs a = true)

section Messages

variable {gTrackerAddr fromaddr a : HostAddr} {es : List ClientEvent} {e : ClientEvent}
  {m : PeerMsg}

theorem trackerMsgs_append (gTrackerAddr : HostAddr) (es fs : List ClientEvent) :
    trackerMsgs gTrackerAddr (es ++ fs) =
      trackerMsgs gTrackerAddr es ++ trackerMsgs gTrackerAddr fs :=
  List.filterMap_append

/-- A message from the tracker. -/
theorem trackerMsgs_recv (hfrom : hostAddrIpaddrEquals fromaddr gTrackerAddr = true) (m : PeerMsg) :
    trackerMsgs gTrackerAddr [.recv fromaddr (.peer m)] = [m] := by
  simp [trackerMsgs, hfrom]

/-- An event that is not a message about the address changes nothing. -/
theorem overtaken_concat_other (h : ∀ m ∈ trackerMsgs gTrackerAddr [e], m.fromaddr ≠ a) :
    Overtaken gTrackerAddr (es ++ [e]) a ↔ Overtaken gTrackerAddr es a := by
  constructor
  · rintro ⟨es₁, fromaddr, m, es₂, heq, hfrom, hon, ha, hlast, hpending⟩
    rcases concat_eq_append_cons heq with ⟨rfl, rfl, rfl⟩ | ⟨es₃, rfl, rfl⟩
    · rw [trackerMsgs_recv hfrom] at h
      exact absurd ha (h m (List.mem_singleton_self m))
    · refine ⟨es₁, fromaddr, m, es₃, rfl, hfrom, hon, ha, fun m' hm' => hlast m' ?_, hpending⟩
      rw [trackerMsgs_append]
      exact List.mem_append_left _ hm'
  · rintro ⟨es₁, fromaddr, m, es₂, rfl, hfrom, hon, ha, hlast, hpending⟩
    refine ⟨es₁, fromaddr, m, es₂ ++ [e], by simp, hfrom, hon, ha, fun m' hm' => ?_, hpending⟩
    rw [trackerMsgs_append] at hm'
    exact (List.mem_append.mp hm').elim (hlast m') (h m')

/-- A message about the address decides. -/
theorem overtaken_concat_self {c : Client}
    (hfrom : hostAddrIpaddrEquals fromaddr gTrackerAddr = true) (ha : m.fromaddr = a)
    (hrun : run (clientStep gTrackerAddr) clientInit es = .ok c) :
    Overtaken gTrackerAddr (es ++ [.recv fromaddr (.peer m)]) a ↔
      m.isOnline = true ∧ ∃ q, c.peers.at a = some q ∧ .peerOffline q.hpeer ∈ c.queue := by
  constructor
  · rintro ⟨es₁, fromaddr', m', es₂, hes, hfrom', hon, ha', hlast, c₁, q, hrun₁, hq, hmem⟩
    rcases concat_eq_append_cons hes with ⟨rfl, rfl, heq⟩ | ⟨es₃, rfl, rfl⟩
    · obtain ⟨-, hmsg⟩ := ClientEvent.recv.inj heq
      obtain rfl := ClientMsg.peer.inj hmsg
      obtain rfl := Except.ok.inj (hrun.symm.trans hrun₁)
      exact ⟨hon, q, hq, hmem⟩
    · refine absurd ha (hlast m ?_)
      rw [trackerMsgs_append, trackerMsgs_recv hfrom]
      exact List.mem_append_right _ (List.mem_singleton_self m)
  · rintro ⟨hon, q, hq, hmem⟩
    exact ⟨es, fromaddr, m, [], rfl, hfrom, hon, ha, fun m' hm' => absurd hm' List.not_mem_nil, c,
      q, hrun, hq, hmem⟩

/-- The last message about a peer that was overtaken is a PEER_ONLINE. -/
theorem Overtaken.lastOnline (h : Overtaken gTrackerAddr es a) :
    lastOnline (trackerMsgs gTrackerAddr es) a = true := by
  obtain ⟨es₁, fromaddr, m, es₂, rfl, hfrom, hon, ha, hlast, -⟩ := h
  rw [List.append_cons, trackerMsgs_append, lastOnline_append_other hlast, trackerMsgs_append,
    trackerMsgs_recv hfrom, lastOnline_concat, if_pos ha]
  exact hon

end Messages

/-! ## The list box -/

section Rows

variable {rows : List PeerRow} {hpeer k : TMHandle} {c c' : Client} {i : Idle}

/-- Showing the row of a peer. -/
theorem mem_showPeerRow (rows : List PeerRow) (hpeer k : TMHandle) (label : StaticStr aliasSize) :
    k ∈ (showPeerRow rows hpeer label).map PeerRow.hpeer ↔
      k = hpeer ∨ k ∈ rows.map PeerRow.hpeer := by
  unfold showPeerRow
  split
  case h_1 i hi =>
    obtain ⟨h, -, hkey⟩ := findIdx?_lookup hi
    have hsame : (rows.set i ⟨hpeer, label⟩).map PeerRow.hpeer = rows.map PeerRow.hpeer := by
      rw [List.map_set, ← hkey, ← List.getElem_map PeerRow.hpeer (h := by simpa using h)]
      exact List.set_getElem_self _
    have hmem : hpeer ∈ rows.map PeerRow.hpeer := hkey ▸ List.mem_map_of_mem (List.getElem_mem h)
    rw [hsame]
    exact ⟨Or.inr, fun hor => hor.elim (fun hk => hk ▸ hmem) id⟩
  case h_2 =>
    rw [List.map_append, List.mem_append, List.map_singleton, List.mem_singleton, or_comm]

/-- Showing a row does not show it twice. -/
theorem nodup_showPeerRow (label : StaticStr aliasSize) (hrows : (rows.map PeerRow.hpeer).Nodup) :
    ((showPeerRow rows hpeer label).map PeerRow.hpeer).Nodup := by
  unfold showPeerRow
  split
  case h_1 i hi =>
    obtain ⟨h, -, hkey⟩ := findIdx?_lookup hi
    rw [List.map_set, ← hkey, ← List.getElem_map PeerRow.hpeer (h := by simpa using h),
      List.set_getElem_self]
    exact hrows
  case h_2 hnone => exact nodup_append_key hrows (findIdx?_eq_none_iff_lookup.mp hnone)

/-- Hiding the row of a peer. -/
theorem map_hidePeerRow (rows : List PeerRow) (hpeer : TMHandle) :
    (hidePeerRow rows hpeer).map PeerRow.hpeer = (rows.map PeerRow.hpeer).erase hpeer := by
  induction rows with
  | nil => rfl
  | cons row rows ih =>
    by_cases h : row.hpeer = hpeer
    · simp [hidePeerRow, h]
    · rw [hidePeerRow, List.eraseP_cons_of_neg (by simpa using h), List.map_cons, List.map_cons,
        List.erase_cons_tail (by simpa using h)]
      exact congrArg _ ih

/-- Posting a callback settles the row it is about. -/
theorem rowSettled_post (c : Client) (i : Idle) (k : TMHandle) :
    (gIdleAdd c i).rowSettled k = (i.showsRow k).getD (c.rowSettled k) := by
  rw [Client.rowSettled, gIdleAdd, List.foldl_append]
  rfl

/-- What a callback does to the list box. -/
theorem IdleDone.listBox (h : IdleDone c i c') (hrows : (c.peerslb.map PeerRow.hpeer).Nodup) :
    (c'.peerslb.map PeerRow.hpeer).Nodup ∧
      ∀ k, decide (c'.rowShown k) = (i.showsRow k).getD (decide (c.rowShown k)) := by
  cases h with
  | @peerOnline hpeer q =>
    refine ⟨nodup_showPeerRow _ hrows, fun k => ?_⟩
    have hmem := mem_showPeerRow c.peerslb hpeer k q.aliasStr
    by_cases hk : hpeer = k
    · simpa [Idle.showsRow, hk, Client.rowShown] using hmem.mpr (Or.inl hk.symm)
    · simp [Idle.showsRow, hk, Client.rowShown, hmem, Ne.symm hk]
  | @peerOffline hpeer =>
    have hmap := map_hidePeerRow c.peerslb hpeer
    refine ⟨hmap ▸ hrows.erase hpeer, fun k => ?_⟩
    have hmem : k ∈ (hidePeerRow c.peerslb hpeer).map PeerRow.hpeer ↔
        k ≠ hpeer ∧ k ∈ c.peerslb.map PeerRow.hpeer := by
      rw [hmap, hrows.mem_erase_iff]
    by_cases hk : hpeer = k
    · simpa [Idle.showsRow, hk, Client.rowShown] using fun h => (hmem.mp h).1 hk.symm
    · simp [Idle.showsRow, hk, Client.rowShown, hmem, Ne.symm hk]
  | addText => exact ⟨hrows, fun k => rfl⟩
  | openWin hopen =>
    obtain ⟨q, gChatWins, -, -, -, rfl⟩ := hopen.opened
    exact ⟨hrows, fun k => rfl⟩

end Rows

/-! ## The invariant -/

/-- What links the client to the events before. -/
structure Tracked (gTrackerAddr : HostAddr) (es : List ClientEvent) (c : Client) : Prop where
  /-- The client is well formed. -/
  wf : c.WF
  /-- The events lead to it. -/
  reached : run (clientStep gTrackerAddr) clientInit es = .ok c
  /-- A peer has at most one row. -/
  rows_nodup : (c.peerslb.map PeerRow.hpeer).Nodup
  /-- A peer announced has a record. -/
  announced : ∀ m ∈ trackerMsgs gTrackerAddr es, m.isOnline = true →
    (c.peers.at m.fromaddr).isSome
  /-- A row that will be shown belongs to a peer that the last message announces as online. -/
  row : ∀ a q, c.peers.at a = some q →
    c.rowSettled q.hpeer = lastOnline (trackerMsgs gTrackerAddr es) a
  /-- A record that will stay active belongs to such a peer, whose last message was not
  overtaken. -/
  active : ∀ a q, c.peers.at a = some q →
    ((q.active = true ∧ .peerOffline q.hpeer ∉ c.queue) ↔
      lastOnline (trackerMsgs gTrackerAddr es) a = true ∧ ¬Overtaken gTrackerAddr es a)

section Invariant

variable {gTrackerAddr fromaddr : HostAddr} {es : List ClientEvent} {c c' : Client}
  {e : ClientEvent} {m : PeerMsg} {i : Idle}

theorem tracked_init (gTrackerAddr : HostAddr) : Tracked gTrackerAddr [] clientInit where
  wf := clientInit_wf
  reached := rfl
  rows_nodup := List.nodup_nil
  announced := fun _ hm => absurd hm List.not_mem_nil
  row := fun _ _ hq => by cases hq
  active := fun _ _ hq => by cases hq

/-- An event that is not a message of the tracker keeps the link if it settles no row and changes
no record but to what is already settled. -/
theorem Tracked.quiet (ht : Tracked gTrackerAddr es c)
    (hstep : clientStep gTrackerAddr c e = .ok c') (hwf' : c'.WF)
    (hmsgs : trackerMsgs gTrackerAddr [e] = [])
    (hrows : (c'.peerslb.map PeerRow.hpeer).Nodup)
    (hrow : ∀ k, c'.rowSettled k = c.rowSettled k)
    (hsome : ∀ a, (c.peers.at a).isSome → (c'.peers.at a).isSome)
    (hat : ∀ a q', c'.peers.at a = some q' → ∃ q, c.peers.at a = some q ∧ q'.hpeer = q.hpeer ∧
      ((q'.active = true ∧ .peerOffline q'.hpeer ∉ c'.queue) ↔
        (q.active = true ∧ .peerOffline q.hpeer ∉ c.queue))) :
    Tracked gTrackerAddr (es ++ [e]) c' := by
  have hsame : trackerMsgs gTrackerAddr (es ++ [e]) = trackerMsgs gTrackerAddr es := by
    rw [trackerMsgs_append, hmsgs, List.append_nil]
  refine ⟨hwf', ?_, hrows, fun m hm hon => ?_, fun a q' hq' => ?_, fun a q' hq' => ?_⟩
  · rw [run_concat, ht.reached, ok_bind, hstep]
  · rw [hsame] at hm
    exact hsome _ (ht.announced m hm hon)
  · obtain ⟨q, hq, hhandle, -⟩ := hat a q' hq'
    rw [hsame, hrow, hhandle, ht.row a q hq]
  · obtain ⟨q, hq, -, hactive⟩ := hat a q' hq'
    rw [hsame, hactive, ht.active a q hq, overtaken_concat_other]
    rw [hmsgs]
    exact fun m hm => absurd hm List.not_mem_nil

/-- A message of the tracker keeps the link if it settles the row and the record of its address
and touches no others. -/
theorem Tracked.heard (ht : Tracked gTrackerAddr es c)
    (hstep : clientStep gTrackerAddr c (.recv fromaddr (.peer m)) = .ok c') (hwf' : c'.WF)
    (hfrom : hostAddrIpaddrEquals fromaddr gTrackerAddr = true)
    (hrows : (c'.peerslb.map PeerRow.hpeer).Nodup)
    (hsome : ∀ a, (c.peers.at a).isSome → (c'.peers.at a).isSome)
    (hnew : m.isOnline = true → (c'.peers.at m.fromaddr).isSome)
    (hother : ∀ a q, a ≠ m.fromaddr → c'.peers.at a = some q → c.peers.at a = some q ∧
      c'.rowSettled q.hpeer = c.rowSettled q.hpeer ∧
      (.peerOffline q.hpeer ∈ c'.queue ↔ .peerOffline q.hpeer ∈ c.queue))
    (hself : ∀ q', c'.peers.at m.fromaddr = some q' → c'.rowSettled q'.hpeer = m.isOnline ∧
      ((q'.active = true ∧ .peerOffline q'.hpeer ∉ c'.queue) ↔ m.isOnline = true ∧
        ¬∃ q, c.peers.at m.fromaddr = some q ∧ .peerOffline q.hpeer ∈ c.queue)) :
    Tracked gTrackerAddr (es ++ [.recv fromaddr (.peer m)]) c' := by
  have hmsgs : trackerMsgs gTrackerAddr (es ++ [.recv fromaddr (.peer m)]) =
      trackerMsgs gTrackerAddr es ++ [m] := by
    rw [trackerMsgs_append, trackerMsgs_recv hfrom]
  refine ⟨hwf', ?_, hrows, fun m' hm' hon => ?_, fun a q hq => ?_, fun a q hq => ?_⟩
  · rw [run_concat, ht.reached, ok_bind, hstep]
  · rw [hmsgs] at hm'
    rcases List.mem_append.mp hm' with hm' | hm'
    · exact hsome _ (ht.announced m' hm' hon)
    · obtain rfl := List.mem_singleton.mp hm'
      exact hnew hon
  · rw [hmsgs, lastOnline_concat]
    split
    case isTrue ha =>
      subst ha
      exact (hself q hq).1
    case isFalse ha =>
      obtain ⟨hq', hrow, -⟩ := hother a q (Ne.symm ha) hq
      rw [hrow, ht.row a q hq']
  · rw [hmsgs, lastOnline_concat]
    split
    case isTrue ha =>
      subst ha
      rw [(hself q hq).2, overtaken_concat_self hfrom rfl ht.reached]
      exact and_congr_right fun hon => not_congr ⟨fun h => ⟨hon, h⟩, And.right⟩
    case isFalse ha =>
      obtain ⟨hq', -, hqueue⟩ := hother a q (Ne.symm ha) hq
      rw [hqueue, ht.active a q hq', overtaken_concat_other]
      rw [trackerMsgs_recv hfrom]
      intro m' hm'
      obtain rfl := List.mem_singleton.mp hm'
      exact ha

/-- Handling a message keeps the link. -/
theorem Tracked.handled {msg : ClientMsg} (ht : Tracked gTrackerAddr es c)
    (hstep : clientStep gTrackerAddr c (.recv fromaddr msg) = .ok c')
    (h : ClientHandled gTrackerAddr c fromaddr msg c') :
    Tracked gTrackerAddr (es ++ [.recv fromaddr msg]) c' := by
  have hwf' := h.wf ht.wf
  cases h with
  | foreign m hfrom =>
    refine ht.quiet hstep hwf' (by simp [trackerMsgs, hfrom]) ht.rows_nodup (fun _ => rfl)
      (fun _ => id) fun a q hq => ⟨q, hq, rfl, Iff.rfl⟩
  | chattextUnknown =>
    exact ht.quiet hstep hwf' rfl ht.rows_nodup (fun _ => rfl) (fun _ => id)
      fun a q hq => ⟨q, hq, rfl, Iff.rfl⟩
  | chattext =>
    refine ht.quiet hstep hwf' rfl ht.rows_nodup (fun k => rowSettled_post _ _ k) (fun _ => id)
      fun a q hq => ⟨q, hq, rfl, ?_⟩
    simp [gIdleAdd]
  | @online aliasStr hostname peerFromaddr peerToaddr peers hpeer hfrom hcreate =>
    obtain ⟨r, rfl, -, hactive, -, hat⟩ := createPeer_at ht.wf.peers hcreate
    have hself : peers.at peerFromaddr = some r := by rw [hat, if_pos rfl]
    refine ht.heard hstep hwf' hfrom ht.rows_nodup (fun a ha => ?_)
      (fun _ => Option.isSome_iff_exists.mpr ⟨r, hself⟩) (fun a q ha hq => ?_) fun q hq => ?_
    · change (peers.at a).isSome
      rw [hat]
      split
      · rfl
      · exact ha
    · have hne : r.hpeer ≠ q.hpeer := fun heq => ha (hwf'.peers.at_inj hq hself heq.symm)
      have hq' : c.peers.at a = some q := by
        rw [← hq]
        exact ((hat a).trans (if_neg ha)).symm
      refine ⟨hq', ?_, by simp [gIdleAdd]⟩
      rw [rowSettled_post, Idle.showsRow, if_neg hne]
      rfl
    · obtain rfl : r = q := Option.some.inj (hself.symm.trans hq)
      refine ⟨by rw [rowSettled_post, Idle.showsRow, if_pos rfl]; rfl, ?_⟩
      have hqueue : .peerOffline r.hpeer ∈ c.queue ↔
          ∃ q, c.peers.at peerFromaddr = some q ∧ .peerOffline q.hpeer ∈ c.queue := by
        rcases createPeer_found ht.wf.peers hcreate with ⟨q₀, hq₀, hhandle⟩ | ⟨hnone, hfresh⟩
        · rw [← hhandle]
          refine ⟨fun hmem => ⟨q₀, hq₀, hmem⟩, ?_⟩
          rintro ⟨q₁, hq₁, hmem⟩
          obtain rfl := Option.some.inj (hq₀.symm.trans hq₁)
          exact hmem
        · constructor
          · -- a new handle has no callback
            intro hmem
            have hknown := ht.wf.queue_known _ hmem
            rw [Idle.hpeer, hfresh] at hknown
            cases hknown
          · rintro ⟨q₁, hq₁, -⟩
            rw [hnone] at hq₁
            cases hq₁
      have hposted : (Idle.peerOffline r.hpeer ∈ c.queue ++ [.peerOnline r.hpeer]) ↔
          .peerOffline r.hpeer ∈ c.queue := by simp
      change (r.active = true ∧ ¬.peerOffline r.hpeer ∈ c.queue ++ [.peerOnline r.hpeer]) ↔
        true = true ∧ ¬∃ q, c.peers.at peerFromaddr = some q ∧ .peerOffline q.hpeer ∈ c.queue
      rw [hactive, hposted, hqueue]
  | @offline peerFromaddr q hfrom hcap hq =>
    refine ht.heard hstep hwf' hfrom ht.rows_nodup (fun _ => id) (fun hon => by cases hon)
      (fun a q' ha hq' => ?_) fun q' hq' => ?_
    · have hne : q.hpeer ≠ q'.hpeer := fun heq => ha (ht.wf.peers.at_inj hq' hq heq.symm)
      refine ⟨hq', ?_, ?_⟩
      · rw [rowSettled_post, Idle.showsRow, if_neg hne]
        rfl
      · simp [gIdleAdd, Ne.symm hne]
    · obtain rfl : q = q' := Option.some.inj (hq.symm.trans hq')
      refine ⟨by rw [rowSettled_post, Idle.showsRow, if_pos rfl]; rfl, ?_⟩
      constructor
      · rintro ⟨-, hnot⟩
        exact absurd (List.mem_append_right _ (List.mem_singleton_self _)) hnot
      · rintro ⟨hon, -⟩
        cases hon
  | offlineUnknown hfrom hcap hq =>
    refine ht.heard hstep hwf' hfrom ht.rows_nodup (fun _ => id) (fun hon => by cases hon)
      (fun a q' ha hq' => ⟨hq', rfl, Iff.rfl⟩) fun q' hq' => ?_
    rw [PeerMsg.fromaddr, hq] at hq'
    cases hq'

/-- What a callback does to the records. -/
theorem IdleDone.peers_at (hc : c.WF) (h : IdleDone c i c') (a : HostAddr) :
    c'.peers.at a = (c.peers.at a).map fun q =>
      if i = .peerOffline q.hpeer then { q with active := false } else q := by
  cases h with
  | peerOnline | addText => simp
  | openWin hopen =>
    obtain ⟨q, gChatWins, -, -, -, rfl⟩ := hopen.opened
    simp
  | @peerOffline hpeer q gChatWins peers hq hwins hcap hdestroy =>
    change peers.at a = _
    rw [destroyPeer_at hc.peers hdestroy]
    congr 1
    funext q
    unfold Peer.deactivate
    split
    case isTrue h => rw [if_pos (by rw [h])]
    case isFalse h => rw [if_neg fun heq => h (Idle.peerOffline.inj heq).symm]

/-- A callback leaves the callbacks behind it. -/
theorem IdleDone.queue (h : IdleDone c i c') : c'.queue = c.queue := by
  cases h with
  | openWin hopen =>
    obtain ⟨q, gChatWins, -, -, -, rfl⟩ := hopen.opened
    rfl
  | peerOnline | peerOffline | addText => rfl

/-- Running a callback keeps the link. -/
theorem Tracked.idle {queue : List Idle} (ht : Tracked gTrackerAddr es c)
    (hstep : clientStep gTrackerAddr c .idle = .ok c') (hqueue : c.queue = i :: queue)
    (h : IdleDone { c with queue := queue } i c') : Tracked gTrackerAddr (es ++ [.idle]) c' := by
  have hc := ht.wf.dequeue hqueue
  have hat := h.peers_at hc
  obtain ⟨hrows, hshown⟩ := h.listBox ht.rows_nodup
  refine ht.quiet hstep (h.wf hc) rfl hrows (fun k => ?_) (fun a ha => ?_) fun a q' hq' => ?_
  · -- the callback that runs does what it was counted on to do
    rw [Client.rowSettled, h.queue, hshown, Client.rowSettled, hqueue]
    rfl
  · rw [hat, Option.isSome_map]
    exact ha
  · rw [hat] at hq'
    obtain ⟨q, hq, rfl⟩ := Option.map_eq_some_iff.mp hq'
    refine ⟨q, hq, by split <;> rfl, ?_⟩
    rw [h.queue, hqueue]
    by_cases hi : i = .peerOffline q.hpeer
    · simp [hi]
    · simp [hi, Ne.symm hi]

/-- Every event keeps the link. -/
theorem Tracked.step (ht : Tracked gTrackerAddr es c)
    (hstep : clientStep gTrackerAddr c e = .ok c') :
    Tracked gTrackerAddr (es ++ [e]) c' := by
  have hstepped := clientStep_ok ht.wf hstep
  have hwf' := hstepped.wf ht.wf
  cases hstepped with
  | recv h => exact ht.handled hstep h
  | idle hqueue h => exact ht.idle hstep hqueue h
  | noIdle | selectNothing =>
    exact ht.quiet hstep hwf' rfl ht.rows_nodup (fun _ => rfl) (fun _ => id)
      fun a q hq => ⟨q, hq, rfl, Iff.rfl⟩
  | select _ h =>
    obtain ⟨q, gChatWins, -, -, -, rfl⟩ := h.opened
    exact ht.quiet hstep hwf' rfl ht.rows_nodup (fun _ => rfl) (fun _ => id)
      fun a q hq => ⟨q, hq, rfl, Iff.rfl⟩

/-- The link holds after every run. -/
theorem tracked_run (h : run (clientStep gTrackerAddr) clientInit es = .ok c) :
    Tracked gTrackerAddr es c :=
  run_history (I := Tracked gTrackerAddr) (tracked_init gTrackerAddr)
    (fun _ _ _ _ ht hstep => ht.step hstep) h

end Invariant

/-! ## The peer state -/

/-- For every run of the client that ends without callbacks waiting and every peer announced, the
peer state follows the last message about the peer if and only if that message is not a
PEER_ONLINE that was handled while an `IDLE_peer_offline` of the peer was waiting. -/
theorem follows_iff (gTrackerAddr : HostAddr) (es : List ClientEvent) (c : Client)
    (hrun : run (clientStep gTrackerAddr) clientInit es = .ok c) (hqueue : c.queue = [])
    (m : PeerMsg) (hm : m ∈ trackerMsgs gTrackerAddr es) (hon : m.isOnline = true) :
    Follows c (trackerMsgs gTrackerAddr es) m.fromaddr ↔
      ¬Overtaken gTrackerAddr es m.fromaddr := by
  have ht := tracked_run hrun
  obtain ⟨q, hq⟩ := Option.isSome_iff_exists.mp (ht.announced m hm hon)
  have hrow := ht.row _ q hq
  have hactive := ht.active _ q hq
  rw [Client.rowSettled, hqueue, List.foldl_nil] at hrow
  rw [hqueue] at hactive
  have hshown :
      c.rowShown q.hpeer ↔ lastOnline (trackerMsgs gTrackerAddr es) m.fromaddr = true := by
    rw [← hrow, decide_eq_true_iff]
  have hflag : q.active = true ↔ lastOnline (trackerMsgs gTrackerAddr es) m.fromaddr = true ∧
      ¬Overtaken gTrackerAddr es m.fromaddr := by
    rw [← hactive]
    exact ⟨fun h => ⟨h, List.not_mem_nil⟩, And.left⟩
  constructor
  · rintro ⟨q', hq', hsame, -⟩ hover
    obtain rfl := Option.some.inj (hq.symm.trans hq')
    exact (hflag.mp (hsame.mpr (hshown.mpr hover.lastOnline))).2 hover
  · intro hnot
    refine ⟨q, hq, ?_, hshown⟩
    rw [hflag, hshown]
    exact and_iff_left hnot

/-- A peer that leaves and comes back is followed when its callbacks have run in between. -/
theorem follows_of_rejoin :
    ∃ c es, run (clientStep 1) clientInit es = .ok c ∧
      trackerMsgs 1 es = [.online CStr.empty CStr.empty 2 3, .offline 2,
        .online CStr.empty CStr.empty 2 3] ∧
      (Follows c (trackerMsgs 1 es) 2 ↔ ¬Overtaken 1 es 2) :=
  ⟨_, [.recv 1 (.peer (.online CStr.empty CStr.empty 2 3)), .idle, .recv 1 (.peer (.offline 2)),
      .idle, .recv 1 (.peer (.online CStr.empty CStr.empty 2 3)), .idle], rfl, rfl,
    follows_iff 1 _ _ rfl rfl (.online CStr.empty CStr.empty 2 3) (by decide) rfl⟩

/-- A peer that leaves and comes back before the callback of its PEER_OFFLINE has run is shown in
the list box, and its record is inactive. -/
theorem rejoin_leaves_inactive :
    ∃ c, run (clientStep 1) clientInit
        [.recv 1 (.peer (.online CStr.empty CStr.empty 2 3)), .idle, .recv 1 (.peer (.offline 2)),
          .recv 1 (.peer (.online CStr.empty CStr.empty 2 3)), .idle, .idle] = .ok c ∧
      c.queue = [] ∧
      (∃ q, c.peers.at 2 = some q ∧ q.active = false ∧ c.rowShown q.hpeer) ∧
      ¬Follows c [.online CStr.empty CStr.empty 2 3, .offline 2,
        .online CStr.empty CStr.empty 2 3] 2 := by
  refine ⟨_, rfl, rfl, ⟨_, rfl, rfl, by decide⟩, ?_⟩
  rintro ⟨q, hq, hsame, hshown⟩
  obtain rfl := Option.some.inj hq
  exact absurd (hsame.mpr (hshown.mpr (by decide))) (by decide)

end TinyMsg
