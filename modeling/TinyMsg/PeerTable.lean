import TinyMsg.Lib.Triple
import TinyMsg.Peers

/-!
# Runs of `create_peer` and `destroy_peer`

The peer table after any sequence of calls is told by the calls: its addresses are the ones that
`create_peer` was called with, in the order in which they came first (`announcedAddrs`), their
handles are `1, 2, 3, ...`, and the data of an address are those of the latest call for it
(`latestArgs`).  `PeerHistory` is this relation; every call keeps it.

`ArrayAppend` asserts that the array can grow, which it cannot from `maxPeers` records on: the
doubled capacity wraps to `0`.  So the run of a sequence that announces more addresses than that
stops (`peerCalls_error`), and the table is what it should be exactly for the others
(`peer_table_iff`).
-/

namespace TinyMsg

/-- A call that changes the peer table. -/
inductive PeerCall
  /-- `create_peer` -/
  | create (aliasStr hostname : CStr) (fromaddr toaddr : HostAddr)
  /-- `destroy_peer` -/
  | destroy (hpeer : TMHandle)

/-- The table after a call. -/
def peerCall (p : Peers) : PeerCall → Exec Peers
  | .create aliasStr hostname fromaddr toaddr => do
    let (p, _) ← createPeer p aliasStr hostname fromaddr toaddr
    .ok p
  | .destroy hpeer => destroyPeer p hpeer

/-! ## What the calls say -/

/-- The addresses announced so far, after one more call. -/
def noteAddr (addrs : List HostAddr) : PeerCall → List HostAddr
  | .create _ _ fromaddr _ => if fromaddr ∈ addrs then addrs else addrs ++ [fromaddr]
  | .destroy _ => addrs

/-- The addresses that `create_peer` was called with, in the order in which they came first. -/
def announcedAddrs (calls : List PeerCall) : List HostAddr := calls.foldl noteAddr []

/-- The names and the `toaddr` of a call of `create_peer` for an address. -/
def PeerCall.args (fromaddr : HostAddr) : PeerCall → Option (CStr × CStr × HostAddr)
  | .create aliasStr hostname a toaddr =>
    if a = fromaddr then some (aliasStr, hostname, toaddr) else none
  | .destroy _ => none

/-- The arguments of the latest call of `create_peer` for an address. -/
def latestArgs (calls : List PeerCall) (fromaddr : HostAddr) : Option (CStr × CStr × HostAddr) :=
  calls.reverse.findSome? (PeerCall.args fromaddr)

theorem announcedAddrs_concat (calls : List PeerCall) (call : PeerCall) :
    announcedAddrs (calls ++ [call]) = noteAddr (announcedAddrs calls) call := by
  rw [announcedAddrs, List.foldl_append]
  rfl

theorem latestArgs_concat (calls : List PeerCall) (call : PeerCall) (fromaddr : HostAddr) :
    latestArgs (calls ++ [call]) fromaddr =
      (call.args fromaddr).or (latestArgs calls fromaddr) := by
  rw [latestArgs, List.reverse_append, List.reverse_singleton, List.singleton_append,
    List.findSome?_cons]
  cases call.args fromaddr <;> rfl

/-- The table as the calls tell it. -/
structure PeerHistory (calls : List PeerCall) (p : Peers) : Prop where
  /-- The table is in order. -/
  wf : p.WF
  /-- Its addresses are those announced. -/
  fromaddrs : p.records.map Peer.fromaddr = announcedAddrs calls
  /-- The handles count them. -/
  hpeers : p.records.map Peer.hpeer = List.range' 1 p.records.length
  /-- The next handle goes on counting. -/
  next : p.gNextPeerHandle = p.records.length + 1
  /-- The data are the latest ones. -/
  args : ∀ q ∈ p.records, ∃ aliasStr hostname,
    latestArgs calls q.fromaddr = some (aliasStr, hostname, q.toaddr) ∧
      q.aliasStr = staticstrCopy aliasSize aliasStr ∧
      q.hostname = staticstrCopy hostnameSize hostname

section History

variable {calls : List PeerCall} {p p' : Peers} {call : PeerCall} {hpeer : TMHandle}
  {aliasStr hostname : CStr} {fromaddr toaddr : HostAddr}

theorem peersInit_history : PeerHistory [] peersInit :=
  ⟨peersInit_wf, rfl, rfl, rfl, fun _ hq => absurd hq List.not_mem_nil⟩

theorem PeerHistory.length_eq (h : PeerHistory calls p) :
    p.records.length = (announcedAddrs calls).length := by
  rw [← h.fromaddrs, List.length_map]

/-- An address is announced when it has a record. -/
theorem PeerHistory.at_eq_none_iff (h : PeerHistory calls p) :
    p.at fromaddr = none ↔ fromaddr ∉ announcedAddrs calls := by
  rw [Peers.at, lookup_eq_none_iff, ← h.fromaddrs]
  simp

/-- A record that is written over keeps the relation. -/
theorem PeerHistory.replaced (h : PeerHistory calls p)
    (hrep : Replaced p p' hpeer aliasStr hostname fromaddr toaddr) :
    PeerHistory (calls ++ [.create aliasStr hostname fromaddr toaddr]) p' := by
  have hmem : fromaddr ∈ announcedAddrs calls := by
    by_contra hnot
    have hfound := hrep.found
    rw [h.at_eq_none_iff.mpr hnot] at hfound
    cases hfound
  have hlen : p'.records.length = p.records.length := by rw [hrep.records, List.length_map]
  refine ⟨hrep.wf h.wf, ?_, ?_, ?_, fun q hq => ?_⟩
  · rw [announcedAddrs_concat, noteAddr, if_pos hmem, hrep.records,
      map_key_map (fromaddr_announced _ _ _ _), h.fromaddrs]
  · rw [hlen, hrep.records, map_key_map (hpeer_announced _ _ _ _), h.hpeers]
  · rw [hlen, hrep.next, h.next]
  · rw [hrep.records] at hq
    obtain ⟨r, hr, rfl⟩ := List.mem_map.mp hq
    rw [fromaddr_announced, latestArgs_concat, PeerCall.args]
    unfold Peer.announced
    by_cases hfrom : r.fromaddr = fromaddr
    · rw [if_pos hfrom, if_pos hfrom.symm]
      exact ⟨aliasStr, hostname, rfl, rfl, rfl⟩
    · rw [if_neg hfrom, if_neg (Ne.symm hfrom), Option.none_or]
      exact h.args r hr

/-- So does a record that is added. -/
theorem PeerHistory.added (h : PeerHistory calls p)
    (hadd : Added p p' hpeer aliasStr hostname fromaddr toaddr) :
    PeerHistory (calls ++ [.create aliasStr hostname fromaddr toaddr]) p' := by
  have hnot := h.at_eq_none_iff.mp hadd.fresh
  have hlen : p'.records.length = p.records.length + 1 := by
    rw [hadd.records, List.length_append, List.length_singleton]
  refine ⟨hadd.wf h.wf, ?_, ?_, ?_, fun q hq => ?_⟩
  · rw [announcedAddrs_concat, noteAddr, if_neg hnot, hadd.records, List.map_append, h.fromaddrs]
    rfl
  · rw [hlen, hadd.records, List.map_append, h.hpeers, List.range'_concat, h.next, Nat.one_mul,
      Nat.add_comm 1]
    rfl
  · rw [hlen, hadd.next, h.next]
  · rw [latestArgs_concat, PeerCall.args]
    rw [hadd.records] at hq
    rcases List.mem_append.mp hq with hold | hnew
    · have hne : fromaddr ≠ q.fromaddr := by
        rintro rfl
        exact hnot (h.fromaddrs ▸ List.mem_map_of_mem hold)
      rw [if_neg hne, Option.none_or]
      exact h.args q hold
    · obtain rfl := List.mem_singleton.mp hnew
      exact ⟨aliasStr, hostname, by simp [peerNew], rfl, rfl⟩

/-- So does a peer that is marked inactive. -/
theorem PeerHistory.destroyed (h : PeerHistory calls p) (hok : destroyPeer p hpeer = .ok p') :
    PeerHistory (calls ++ [.destroy hpeer]) p' := by
  obtain ⟨p₁, hok₁, hrec, hnext, -⟩ := destroyPeer_eq h.wf hpeer
  obtain rfl := Except.ok.inj (hok.symm.trans hok₁)
  have hlen : p'.records.length = p.records.length := by rw [hrec, List.length_map]
  refine ⟨destroyPeer_wf h.wf hok, ?_, ?_, ?_, fun q hq => ?_⟩
  · rw [announcedAddrs_concat, noteAddr, hrec, map_key_map (fromaddr_deactivate hpeer), h.fromaddrs]
  · rw [hlen, hrec, map_key_map (hpeer_deactivate hpeer), h.hpeers]
  · rw [hlen, hnext, h.next]
  · rw [hrec] at hq
    obtain ⟨r, hr, rfl⟩ := List.mem_map.mp hq
    rw [fromaddr_deactivate, latestArgs_concat, PeerCall.args, Option.none_or]
    obtain ⟨aliasStr, hostname, hargs⟩ := h.args r hr
    refine ⟨aliasStr, hostname, ?_⟩
    unfold Peer.deactivate
    split <;> exact hargs

/-- Every call keeps the relation. -/
theorem PeerHistory.step (h : PeerHistory calls p) (hstep : peerCall p call = .ok p') :
    PeerHistory (calls ++ [call]) p' := by
  cases call with
  | create aliasStr hostname fromaddr toaddr =>
    obtain ⟨⟨p₁, hpeer⟩, hcreate, heq⟩ := bind_eq_ok.mp hstep
    obtain rfl := Except.ok.inj heq
    exact (createPeer_ok h.wf hcreate).elim h.replaced h.added
  | destroy hpeer => exact h.destroyed hstep

/-- The table after any calls is as they tell it. -/
theorem peerHistory_of_run (hrun : run peerCall peersInit calls = .ok p) : PeerHistory calls p :=
  run_history peersInit_history (fun _ _ _ _ h hstep => h.step hstep) hrun

/-- Every prefix of the calls announces a prefix of the addresses. -/
theorem length_announcedAddrs_le (calls more : List PeerCall) :
    (announcedAddrs calls).length ≤ (announcedAddrs (calls ++ more)).length := by
  induction more using List.reverseRecOn with
  | nil => rw [List.append_nil]
  | append_singleton more call ih =>
    refine ih.trans ?_
    rw [← List.append_assoc, announcedAddrs_concat]
    cases call with
    | create aliasStr hostname fromaddr toaddr =>
      rw [noteAddr]
      split
      · exact le_rfl
      · rw [List.length_append]
        exact Nat.le_add_right _ _
    | destroy hpeer => exact le_rfl

/-- The calls come back unless they announce more addresses than fit. -/
theorem peerCalls_ok (h : (announcedAddrs calls).length ≤ maxPeers) :
    ∃ p, run peerCall peersInit calls = .ok p := by
  induction calls using List.reverseRecOn with
  | nil => exact ⟨_, rfl⟩
  | append_singleton calls call ih =>
    obtain ⟨p, hrun⟩ := ih ((length_announcedAddrs_le calls [call]).trans h)
    have hp := peerHistory_of_run hrun
    rw [run_concat, hrun, ok_bind]
    cases call with
    | create aliasStr hostname fromaddr toaddr =>
      rcases createPeer_cases hp.wf aliasStr hostname fromaddr toaddr with
        ⟨p', hpeer, hok, -⟩ | ⟨-, hnew, hfull⟩
      · exact ⟨p', by rw [peerCall, hok, ok_bind]⟩
      · -- one address more than fit
        rw [announcedAddrs_concat, noteAddr, if_neg (hp.at_eq_none_iff.mp hnew), List.length_append,
          List.length_singleton, ← hp.length_eq, hfull] at h
        omega
    | destroy hpeer =>
      obtain ⟨p', hok, -⟩ := destroyPeer_eq hp.wf hpeer
      exact ⟨p', hok⟩

/-- A call keeps the table in order. -/
theorem peerCall_wf (hp : p.WF) (h : peerCall p call = .ok p') : p'.WF := by
  cases call with
  | create aliasStr hostname fromaddr toaddr =>
    obtain ⟨⟨p₁, hpeer⟩, hcreate, heq⟩ := bind_eq_ok.mp h
    exact Except.ok.inj heq ▸ createPeer_wf hp hcreate
  | destroy hpeer => exact destroyPeer_wf hp h

/-- Only the assertion in `ArrayAppend` stops a call. -/
theorem peerCall_error (hp : p.WF) {e : Fault} (h : peerCall p call = .error e) :
    e = .assertion := by
  cases call with
  | create aliasStr hostname fromaddr toaddr =>
    rcases createPeer_cases hp aliasStr hostname fromaddr toaddr with
      ⟨p', hpeer, hok, -⟩ | ⟨herr, -⟩
    · rw [peerCall, hok] at h
      cases h
    · rw [peerCall, herr] at h
      exact (Except.error.inj h).symm
  | destroy hpeer =>
    obtain ⟨p', hok, -⟩ := destroyPeer_eq hp hpeer
    rw [peerCall, hok] at h
    cases h

/-- The calls stop when they announce more addresses than fit. -/
theorem peerCalls_error (h : maxPeers < (announcedAddrs calls).length) :
    run peerCall peersInit calls = .error .assertion := by
  have hmeets : Meets (run peerCall peersInit calls) Peers.WF fun e => e = .assertion := by
    refine meets_run peersInit_wf fun p call _ hp => ?_
    cases hstep : peerCall p call with
    | ok p' => exact peerCall_wf hp hstep
    | error e => exact peerCall_error hp hstep
  cases hrun : run peerCall peersInit calls with
  | ok p =>
    have hp := peerHistory_of_run hrun
    have hle := hp.wf.length_le
    rw [hp.length_eq] at hle
    omega
  | error e => rw [hmeets.of_error hrun]

/-! ## The table after any calls -/

/-- The record of a peer that has just been announced. -/
def announcedPeer (hpeer : TMHandle) (aliasStr hostname : CStr) (fromaddr toaddr : HostAddr) :
    Peer :=
  ⟨hpeer, staticstrCopy aliasSize aliasStr, staticstrCopy hostnameSize hostname, fromaddr, toaddr,
    true⟩

/-- What a call is to do to a table: `create_peer` for a known address writes over its record, which
keeps its handle, and for a new address it adds one record; `destroy_peer` marks the record of the
handle inactive.  The other records stay. -/
def PeerCall.Done (p p' : Peers) : PeerCall → Prop
  | .create aliasStr hostname fromaddr toaddr => ∃ hpeer,
    createPeer p aliasStr hostname fromaddr toaddr = .ok (p', hpeer) ∧
      ((∃ q ∈ p.records, q.fromaddr = fromaddr ∧ q.hpeer = hpeer ∧
          p'.records = p.records.map fun r => if r.fromaddr = fromaddr then
            announcedPeer hpeer aliasStr hostname fromaddr toaddr else r) ∨
        (∀ q ∈ p.records, q.fromaddr ≠ fromaddr) ∧
          p'.records = p.records ++ [announcedPeer hpeer aliasStr hostname fromaddr toaddr])
  | .destroy hpeer => destroyPeer p hpeer = .ok p' ∧
      p'.records = p.records.map fun r => if r.hpeer = hpeer then { r with active := false } else r

/-- What is to be true of the table after some calls: about its records, and about what is looked
up. -/
structure PeerTable (calls : List PeerCall) (p : Peers) : Prop where
  /-- Handles are positive. -/
  hpeer_pos : ∀ q ∈ p.records, 0 < q.hpeer
  /-- No two records have the same handle. -/
  hpeer_nodup : (p.records.map Peer.hpeer).Nodup
  /-- No two records have the same address. -/
  fromaddr_nodup : (p.records.map Peer.fromaddr).Nodup
  /-- Whatever is called from now on, a handle that was given to an address is not given to
  another. -/
  hpeer_kept : ∀ more p', run peerCall p more = .ok p' → ∀ q ∈ p.records, ∀ q' ∈ p'.records,
    q'.hpeer = q.hpeer → q'.fromaddr = q.fromaddr
  /-- `find_peer_fromaddr` finds the handle of every address announced, and `get_peer_data` finds
  with it the data announced last. -/
  found : ∀ fromaddr ∈ announcedAddrs calls, ∃ hpeer aliasStr hostname toaddr active,
    findPeerFromaddr p fromaddr = .ok (some hpeer) ∧
      latestArgs calls fromaddr = some (aliasStr, hostname, toaddr) ∧
      getPeerData p hpeer = .ok (some
        { announcedPeer hpeer aliasStr hostname fromaddr toaddr with active := active })
  /-- Nothing is found for an address that was not announced. -/
  not_found : ∀ fromaddr ∉ announcedAddrs calls, findPeerFromaddr p fromaddr = .ok none
  /-- Every handle is found that was given to an address, and no other. -/
  handles : ∀ hpeer, getPeerData p hpeer = .ok none ↔
    ¬ (0 < hpeer ∧ hpeer ≤ (announcedAddrs calls).length)

/-- A handle keeps its address as long as the table is used. -/
theorem peerCalls_atHandle (hp : p.WF) {more : List PeerCall}
    (hrun : run peerCall p more = .ok p') {q : Peer} (hq : p.atHandle hpeer = some q) :
    ∃ q', p'.atHandle hpeer = some q' ∧ q'.fromaddr = q.fromaddr := by
  suffices hkeep : p'.WF ∧ ∃ q', p'.atHandle hpeer = some q' ∧ q'.fromaddr = q.fromaddr from
    hkeep.2
  refine run_invariant (I := fun p => p.WF ∧ ∃ q', p.atHandle hpeer = some q' ∧
    q'.fromaddr = q.fromaddr) (fun p call p' hI hstep => ?_) ⟨hp, q, hq, rfl⟩ hrun
  obtain ⟨hp, r, hr, hfrom⟩ := hI
  refine ⟨peerCall_wf hp hstep, ?_⟩
  cases call with
  | create aliasStr hostname fromaddr toaddr =>
    obtain ⟨⟨p₁, k⟩, hcreate, heq⟩ := bind_eq_ok.mp hstep
    obtain rfl := Except.ok.inj heq
    obtain ⟨q', hq', hfrom'⟩ := createPeer_atHandle hp hcreate hr
    exact ⟨q', hq', hfrom'.trans hfrom⟩
  | destroy k =>
    refine ⟨r.deactivate k, ?_, (fromaddr_deactivate k r).trans hfrom⟩
    rw [destroyPeer_atHandle hp hstep, hr, Option.map_some]

/-- A table as the calls tell it has these properties. -/
theorem PeerHistory.peerTable (h : PeerHistory calls p) : PeerTable calls p where
  hpeer_pos := fun q hq => (h.wf.hpeer_lt q hq).1
  hpeer_nodup := h.wf.hpeer_nodup
  fromaddr_nodup := h.wf.fromaddr_nodup
  hpeer_kept := fun more p' hrun q hq q' hq' heq => by
    have hp' := run_invariant (fun _ _ _ hp hstep => peerCall_wf hp hstep) h.wf hrun
    obtain ⟨r, hr, hfrom⟩ := peerCalls_atHandle h.wf hrun (lookup_of_mem h.wf.hpeer_nodup hq)
    have hfound : p'.atHandle q'.hpeer = some q' := lookup_of_mem hp'.hpeer_nodup hq'
    rw [heq, hr] at hfound
    rw [← Option.some.inj hfound, hfrom]
  found := fun fromaddr hmem => by
    rw [← h.fromaddrs] at hmem
    obtain ⟨q, hq, rfl⟩ := List.mem_map.mp hmem
    have hat : p.at q.fromaddr = some q := lookup_of_mem h.wf.fromaddr_nodup hq
    obtain ⟨aliasStr, hostname, hargs, hal, hho⟩ := h.args q hq
    refine ⟨q.hpeer, aliasStr, hostname, q.toaddr, q.active, ?_, hargs, ?_⟩
    · rw [findPeerFromaddr_eq, hat]
      rfl
    · rw [getPeerData_eq, h.wf.atHandle_of_at hat, announcedPeer, ← hal, ← hho]
  not_found := fun fromaddr hnot => by
    rw [findPeerFromaddr_eq, h.at_eq_none_iff.mpr hnot]
    rfl
  handles := fun hpeer => by
    have hmem : (∃ q ∈ p.records, q.hpeer = hpeer) ↔
        0 < hpeer ∧ hpeer ≤ (announcedAddrs calls).length := by
      rw [← List.mem_map, h.hpeers, List.mem_range'_1, ← h.length_eq, Nat.lt_one_add_iff]
      rfl
    rw [← hmem, getPeerData_eq, Except.ok.injEq, Peers.atHandle, lookup_eq_none_iff]
    simp

/-- A call that comes back does what it is to do. -/
theorem peerCall_done (hp : p.WF) (h : peerCall p call = .ok p') : call.Done p p' := by
  cases call with
  | create aliasStr hostname fromaddr toaddr =>
    obtain ⟨⟨p₁, hpeer⟩, hcreate, heq⟩ := bind_eq_ok.mp h
    obtain rfl := Except.ok.inj heq
    refine ⟨hpeer, hcreate, ?_⟩
    rcases createPeer_ok hp hcreate with hrep | hadd
    · obtain ⟨q, hat, hhandle⟩ := Option.map_eq_some_iff.mp hrep.found
      obtain ⟨hq, hfrom⟩ := lookup_some hat
      refine Or.inl ⟨q, hq, hfrom, hhandle, ?_⟩
      refine hrep.records.trans (List.map_congr_left fun r hr => ?_)
      unfold Peer.announced
      by_cases hsame : r.fromaddr = fromaddr
      · obtain rfl := List.inj_on_of_nodup_map hp.fromaddr_nodup hr hq (hsame.trans hfrom.symm)
        rw [if_pos hsame, if_pos hsame, ← hhandle, ← hsame]
        rfl
      · rw [if_neg hsame, if_neg hsame]
    · obtain rfl := hadd.handle
      exact Or.inr ⟨lookup_eq_none_iff.mp hadd.fresh, hadd.records⟩
  | destroy hpeer =>
    obtain ⟨p₁, hok, hrec, -⟩ := destroyPeer_eq hp hpeer
    obtain rfl := Except.ok.inj (hok.symm.trans h)
    exact ⟨hok, hrec⟩

/-- Calls for different addresses announce them all. -/
theorem announcedAddrs_create (aliasStr hostname : CStr) (toaddr : HostAddr) {addrs : List HostAddr}
    (h : addrs.Nodup) :
    announcedAddrs (addrs.map fun a => .create aliasStr hostname a toaddr) = addrs := by
  induction addrs using List.reverseRecOn with
  | nil => rfl
  | append_singleton addrs a ih =>
    obtain ⟨haddrs, -, hdisj⟩ := List.nodup_append.mp h
    have hnew : a ∉ addrs := fun hmem => hdisj a hmem a (List.mem_singleton_self a) rfl
    rw [List.map_append, List.map_singleton, announcedAddrs_concat, ih haddrs, noteAddr,
      if_neg hnew]

end History

end TinyMsg
