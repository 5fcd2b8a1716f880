import TinyMsg.Clib.Array
import TinyMsg.Clib.Str
import TinyMsg.Cnet.HostAddr
import TinyMsg.Lib.Keyed

/-!
# The peer table of `tmcommon.c`

The tracker and every client keep the table `GPeers`.  A record is found by its `fromaddr` and is
never removed: a peer that leaves is marked inactive, and its record, with its handle, comes back
to life when the peer is announced again.  The table is made by the first `create_peer`; before
that `GPeers` is all zero, which is what `print_peers` asserts it not to be.

`Peers.WF` is the invariant of the table.  Under it the table is a finite map from addresses to
records, and `Peers.activeAt`, the announced data of the active peers, is the map that a peer
table stands for: `create_peer` writes it at one address and `destroy_peer` removes one address.
-/

namespace TinyMsg

/-- `ALIAS_SIZE+1` -/
def aliasSize : ℕ := 16 + 1

/-- `HOSTNAME_SIZE+1` -/
def hostnameSize : ℕ := 16 + 1

/-- `TMHandle`; the value `-1` for "no such peer" is `none` of an option. -/
abbrev TMHandle := ℕ

/-- `Peer` of `tmcommon.h`. -/
structure Peer where
  /-- `hpeer` -/
  hpeer : TMHandle
  /-- `alias` -/
  aliasStr : StaticStr aliasSize
  /-- `hostname` -/
  hostname : StaticStr hostnameSize
  /-- `fromaddr` -/
  fromaddr : HostAddr
  /-- `toaddr` -/
  toaddr : HostAddr
  /-- `active` -/
  active : Bool
  deriving DecidableEq, Inhabited

/-- The global variables of the peer table. -/
structure Peers where
  /-- `GPeersArena.cap` -/
  gPeersArenaCap : ℕ
  /-- `GPeers` -/
  gPeers : Array Peer
  /-- `GNextPeerHandle` -/
  gNextPeerHandle : TMHandle

/-- The peer table of a program that has just started. -/
def peersInit : Peers := ⟨0, arrayZero, 1⟩

/-- The records of the table, in order. -/
def Peers.records (p : Peers) : List Peer := p.gPeers.toList

@[simp] theorem peersInit_records : peersInit.records = [] := rfl

/-! ## The functions of the table -/

/-- `print_peers`; what is printed is left out. -/
def printPeers (p : Peers) : Exec Unit :=
  if p.gPeers.cap = 0 then .error .assertion
  else do
    let numActivePeers ← arrayFold p.gPeers (fun n q => .ok (if q.active then n + 1 else n)) 0
    if numActivePeers = 0 then .ok () else arrayFold p.gPeers (fun _ _ => .ok ()) ()

/-- `Peer_new`, with the handle that `GNextPeerHandle` has. -/
def peerNew (hpeer : TMHandle) (aliasStr hostname : CStr) (fromaddr toaddr : HostAddr) : Peer where
  hpeer := hpeer
  aliasStr := staticstrCopy aliasSize aliasStr
  hostname := staticstrCopy hostnameSize hostname
  fromaddr := fromaddr
  toaddr := toaddr
  active := true

/-- `Peer_replace` -/
def peerReplace (peer : Peer) (aliasStr hostname : CStr) (fromaddr toaddr : HostAddr) : Peer :=
  { peer with
    aliasStr := staticstrCopy aliasSize aliasStr
    hostname := staticstrCopy hostnameSize hostname
    fromaddr := fromaddr
    toaddr := toaddr
    active := true }

/-- The first lines of `create_peer`: make the table if there is none. -/
def initPeers (p : Peers) : Exec Peers :=
  if p.gPeers.cap = 0 then
    if p.gPeersArenaCap = 0 then
      .ok { p with gPeersArenaCap := 64 * 1024, gPeers := arrayNew 64 }
    else .error .assertion
  else .ok p

/-- `create_peer`: the table and the handle. -/
def createPeer (p : Peers) (aliasStr hostname : CStr) (fromaddr toaddr : HostAddr) :
    Exec (Peers × TMHandle) := do
  let p ← initPeers p
  match ← arrayFindItem p.gPeers fun q => q.fromaddr = fromaddr with
  | some (i, peer) =>
    .ok ({ p with
      gPeers := arrayStore p.gPeers i (peerReplace peer aliasStr hostname fromaddr toaddr) },
      peer.hpeer)
  | none =>
    let peer := peerNew p.gNextPeerHandle aliasStr hostname fromaddr toaddr
    let gPeers ← arrayAppend p.gPeers peer
    .ok ({ p with gPeers := gPeers, gNextPeerHandle := p.gNextPeerHandle + 1 }, peer.hpeer)

/-- `destroy_peer` -/
def destroyPeer (p : Peers) (hpeer : TMHandle) : Exec Peers := do
  match ← arrayFindItem p.gPeers fun q => q.hpeer = hpeer with
  | some (i, peer) => .ok { p with gPeers := arrayStore p.gPeers i { peer with active := false } }
  | none => .ok p

/-- `find_peer_fromaddr` -/
def findPeerFromaddr (p : Peers) (fromaddr : HostAddr) : Exec (Option TMHandle) := do
  let found ← arrayFindItem p.gPeers fun q => q.fromaddr = fromaddr
  .ok (found.map fun (_, peer) => peer.hpeer)

/-- `get_peer_data`: the record with the handle; the names are copied to arrays of the same
size. -/
def getPeerData (p : Peers) (hpeer : TMHandle) : Exec (Option Peer) := do
  let found ← arrayFindItem p.gPeers fun q => q.hpeer = hpeer
  .ok (found.map fun (_, peer) =>
    { peer with
      aliasStr := staticstrCopy aliasSize peer.aliasStr.str
      hostname := staticstrCopy hostnameSize peer.hostname.str })

/-! ## The invariant -/

/-- The largest capacity that `ArrayAppend` can reach by doubling from `64` in 16 bits; it is the
number of records that fit. -/
def maxPeers : ℕ := 32768

/-- The invariant of the peer table. -/
structure Peers.WF (p : Peers) : Prop where
  /-- No two records have the same address. -/
  fromaddr_nodup : (p.records.map Peer.fromaddr).Nodup
  /-- No two records have the same handle. -/
  hpeer_nodup : (p.records.map Peer.hpeer).Nodup
  /-- The next handle is new, and handles start from `1`. -/
  hpeer_lt : ∀ q ∈ p.records, 0 < q.hpeer ∧ q.hpeer < p.gNextPeerHandle
  /-- There is a next handle. -/
  next_pos : 0 < p.gNextPeerHandle
  /-- Either there is no table yet, or its capacity comes from doubling. -/
  cap : (p.gPeers.cap = 0 ∧ p.gPeersArenaCap = 0) ∨ ∃ k ≤ 9, p.gPeers.cap = 64 * 2 ^ k

/-- The table of a program that has just started is well formed. -/
theorem peersInit_wf : peersInit.WF where
  fromaddr_nodup := List.nodup_nil
  hpeer_nodup := List.nodup_nil
  hpeer_lt := fun _ hq => absurd hq List.not_mem_nil
  next_pos := Nat.one_pos
  cap := Or.inl ⟨rfl, rfl⟩

section Spec

variable {p p' : Peers} {hpeer : TMHandle} {aliasStr hostname : CStr} {fromaddr toaddr : HostAddr}

/-- The record found for an address. -/
def Peers.at (p : Peers) (fromaddr : HostAddr) : Option Peer :=
  lookup Peer.fromaddr p.records fromaddr

/-- The record found for a handle. -/
def Peers.atHandle (p : Peers) (hpeer : TMHandle) : Option Peer :=
  lookup Peer.hpeer p.records hpeer

/-- No more records than fit. -/
theorem Peers.WF.length_le (hp : p.WF) : p.records.length ≤ maxPeers := by
  have hle := p.gPeers.len_le_cap
  have hlen : p.records.length = p.gPeers.len := p.gPeers.length_toList
  rcases hp.cap with ⟨hcap, -⟩ | ⟨k, hk, hcap⟩
  · rw [hlen]
    omega
  · have hpow : 2 ^ k ≤ 2 ^ 9 := Nat.pow_le_pow_right (by decide) hk
    rw [hlen, maxPeers]
    omega

/-- `find_peer_fromaddr` gives the handle of the record of an address. -/
theorem findPeerFromaddr_eq (p : Peers) (fromaddr : HostAddr) :
    findPeerFromaddr p fromaddr = .ok ((p.at fromaddr).map Peer.hpeer) := by
  unfold findPeerFromaddr Peers.at Peers.records
  rcases arrayFindItem_cases p.gPeers Peer.fromaddr fromaddr with ⟨hfind, hlook⟩ |
    ⟨i, h, hfind, hlook, -⟩
  · rw [hfind, hlook]
    rfl
  · rw [hfind, hlook]
    rfl

/-- `get_peer_data` finds the record of a handle. -/
theorem getPeerData_eq (p : Peers) (hpeer : TMHandle) :
    getPeerData p hpeer = .ok (p.atHandle hpeer) := by
  unfold getPeerData Peers.atHandle Peers.records
  rcases arrayFindItem_cases p.gPeers Peer.hpeer hpeer with ⟨hfind, hlook⟩ |
    ⟨i, h, hfind, hlook, -⟩
  · rw [hfind, hlook]
    rfl
  · rw [hfind, hlook, ok_bind, Option.map_some]
    simp only [staticstrCopy_str]

/-- `print_peers` stops exactly when there is no table. -/
theorem printPeers_eq (p : Peers) :
    printPeers p = if p.gPeers.cap = 0 then .error .assertion else .ok () := by
  unfold printPeers
  split
  · rfl
  · rw [arrayFold_eq, run_total (fun _ _ => rfl), ok_bind, arrayFold_eq, run_total (fun _ _ => rfl)]
    split <;> rfl

/-- A well-formed table without memory has no records. -/
theorem Peers.records_of_cap (hcap : p.gPeers.cap = 0) : p.records = [] := by
  have hle := p.gPeers.len_le_cap
  have hlen : p.records.length = p.gPeers.len := p.gPeers.length_toList
  exact List.length_eq_zero_iff.mp (by omega)

/-- The first lines of `create_peer` make sure that there is a table. -/
theorem initPeers_ok (hp : p.WF) :
    ∃ p₁, initPeers p = .ok p₁ ∧ p₁.records = p.records ∧
      p₁.gNextPeerHandle = p.gNextPeerHandle ∧ ∃ k ≤ 9, p₁.gPeers.cap = 64 * 2 ^ k := by
  unfold initPeers
  rcases hp.cap with ⟨hcap, harena⟩ | ⟨k, hk, hcap⟩
  · rw [if_pos hcap, if_pos harena]
    exact ⟨_, rfl, (Peers.records_of_cap hcap).symm, rfl, 0, by decide, rfl⟩
  · have hpos : 0 < 2 ^ k := by positivity
    rw [if_neg (by omega)]
    exact ⟨_, rfl, rfl, rfl, k, hk, hcap⟩

/-- A record after `create_peer` has written over the one of an address. -/
def Peer.announced (aliasStr hostname : CStr) (fromaddr toaddr : HostAddr) (q : Peer) : Peer :=
  if q.fromaddr = fromaddr then peerReplace q aliasStr hostname fromaddr toaddr else q

/-- What `create_peer` does for an address that has a record. -/
structure Replaced (p p' : Peers) (hpeer : TMHandle) (aliasStr hostname : CStr)
    (fromaddr toaddr : HostAddr) : Prop where
  /-- The address has a record, with this handle. -/
  found : (p.at fromaddr).map Peer.hpeer = some hpeer
  /-- The record of the address is written over. -/
  records : p'.records = p.records.map (Peer.announced aliasStr hostname fromaddr toaddr)
  /-- No handle is used up. -/
  next : p'.gNextPeerHandle = p.gNextPeerHandle
  /-- There is a table. -/
  cap : ∃ k ≤ 9, p'.gPeers.cap = 64 * 2 ^ k

/-- What `create_peer` does for an address that has no record. -/
structure Added (p p' : Peers) (hpeer : TMHandle) (aliasStr hostname : CStr)
    (fromaddr toaddr : HostAddr) : Prop where
  /-- The address has no record yet. -/
  fresh : p.at fromaddr = none
  /-- The handle is the next one. -/
  handle : hpeer = p.gNextPeerHandle
  /-- A record is added at the end. -/
  records : p'.records =
    p.records ++ [peerNew p.gNextPeerHandle aliasStr hostname fromaddr toaddr]
  /-- A handle is used up. -/
  next : p'.gNextPeerHandle = p.gNextPeerHandle + 1
  /-- There is a table. -/
  cap : ∃ k ≤ 9, p'.gPeers.cap = 64 * 2 ^ k

/-- What `create_peer` can do: it writes over the record of the address, adds a new record, or
trips the assertion in `ArrayAppend` when the address is new and the table is full. -/
theorem createPeer_cases (hp : p.WF) (aliasStr hostname : CStr) (fromaddr toaddr : HostAddr) :
    (∃ p' hpeer, createPeer p aliasStr hostname fromaddr toaddr = .ok (p', hpeer) ∧
      (Replaced p p' hpeer aliasStr hostname fromaddr toaddr ∨
        Added p p' hpeer aliasStr hostname fromaddr toaddr)) ∨
    (createPeer p aliasStr hostname fromaddr toaddr = .error .assertion ∧
      p.at fromaddr = none ∧ p.records.length = maxPeers) := by
  obtain ⟨p₁, hinit, hrec, hnext, k, hk, hcap⟩ := initPeers_ok hp
  have hlen : p.records.length = p₁.gPeers.len := by rw [← hrec]; exact p₁.gPeers.length_toList
  unfold createPeer
  rw [hinit, ok_bind]
  rcases arrayFindItem_cases p₁.gPeers Peer.fromaddr fromaddr with ⟨hfind, hlook⟩ |
    ⟨i, hi, hfind, hlook, hkey⟩
  · have hfresh : p.at fromaddr = none := by rw [Peers.at, ← hrec]; exact hlook
    rw [hfind, ok_bind]
    rcases arrayAppend_doubling ⟨k, hk, hcap⟩
      (peerNew p₁.gNextPeerHandle aliasStr hostname fromaddr toaddr) with
      ⟨a, ha, -, hcap'⟩ | ⟨herr, hfull⟩
    · refine Or.inl ⟨_, _, by simp only [ha, ok_bind]; rfl, Or.inr ⟨hfresh, hnext, ?_, ?_, hcap'⟩⟩
      · rw [← hrec, ← hnext]
        exact (arrayAppend_ok ha).1
      · exact congrArg (· + 1) hnext
    · exact Or.inr ⟨by simp only [herr, error_bind], hfresh, hlen.trans hfull⟩
  · have hrecords : p₁.gPeers.toList = p.records := hrec
    have hnodup : (p₁.gPeers.toList.map Peer.fromaddr).Nodup := hrecords ▸ hp.fromaddr_nodup
    have hset := set_eq_map hnodup hi hkey fun q => peerReplace q aliasStr hostname fromaddr toaddr
    rw [hfind, ok_bind]
    refine Or.inl ⟨_, _, rfl, Or.inl ⟨?_, ?_, hnext, k, hk, (arrayStore_cap _ _ _).trans hcap⟩⟩
    · rw [Peers.at, ← hrecords, hlook]
      rfl
    · rw [← hrecords]
      exact (arrayStore_toList _ _ _).trans hset

/-- Writing over a record keeps the addresses. -/
theorem fromaddr_announced (aliasStr hostname : CStr) (fromaddr toaddr : HostAddr) (q : Peer) :
    (q.announced aliasStr hostname fromaddr toaddr).fromaddr = q.fromaddr := by
  unfold Peer.announced
  split
  case isTrue h => exact h.symm
  case isFalse => rfl

/-- Writing over a record keeps the handles. -/
theorem hpeer_announced (aliasStr hostname : CStr) (fromaddr toaddr : HostAddr) (q : Peer) :
    (q.announced aliasStr hostname fromaddr toaddr).hpeer = q.hpeer := by
  unfold Peer.announced
  split <;> rfl

/-- `create_peer` keeps the table well formed when it writes over a record. -/
theorem Replaced.wf (hp : p.WF) (h : Replaced p p' hpeer aliasStr hostname fromaddr toaddr) :
    p'.WF where
  fromaddr_nodup := by
    rw [h.records, map_key_map (fromaddr_announced _ _ _ _)]
    exact hp.fromaddr_nodup
  hpeer_nodup := by
    rw [h.records, map_key_map (hpeer_announced _ _ _ _)]
    exact hp.hpeer_nodup
  hpeer_lt := by
    rw [h.records, h.next]
    intro q hq
    obtain ⟨r, hr, rfl⟩ := List.mem_map.mp hq
    rw [hpeer_announced]
    exact hp.hpeer_lt r hr
  next_pos := h.next ▸ hp.next_pos
  cap := Or.inr h.cap

/-- A handle below the next one has not been given to a new record. -/
theorem Peers.WF.atHandle_next (hp : p.WF) : p.atHandle p.gNextPeerHandle = none :=
  lookup_eq_none_iff.mpr fun q hq => (hp.hpeer_lt q hq).2.ne

/-- `create_peer` keeps the table well formed when it adds a record. -/
theorem Added.wf (hp : p.WF) (h : Added p p' hpeer aliasStr hostname fromaddr toaddr) :
    p'.WF where
  fromaddr_nodup := by
    rw [h.records]
    exact nodup_append_key hp.fromaddr_nodup h.fresh
  hpeer_nodup := by
    rw [h.records]
    exact nodup_append_key hp.hpeer_nodup hp.atHandle_next
  hpeer_lt := by
    rw [h.records, h.next]
    intro q hq
    rcases List.mem_append.mp hq with hq | hq
    · obtain ⟨hpos, hlt⟩ := hp.hpeer_lt q hq
      exact ⟨hpos, hlt.trans (Nat.lt_succ_self _)⟩
    · obtain rfl := List.mem_singleton.mp hq
      exact ⟨hp.next_pos, Nat.lt_succ_self _⟩
  next_pos := by
    rw [h.next]
    exact Nat.succ_pos _
  cap := Or.inr h.cap

/-- A call of `create_peer` that comes back has written over a record or added one. -/
theorem createPeer_ok (hp : p.WF)
    (h : createPeer p aliasStr hostname fromaddr toaddr = .ok (p', hpeer)) :
    Replaced p p' hpeer aliasStr hostname fromaddr toaddr ∨
      Added p p' hpeer aliasStr hostname fromaddr toaddr := by
  rcases createPeer_cases hp aliasStr hostname fromaddr toaddr with ⟨p₁, h₁, hok, hcases⟩ |
    ⟨herr, -⟩
  · rw [h] at hok
    obtain ⟨rfl, rfl⟩ := Prod.mk.inj (Except.ok.inj hok)
    exact hcases
  · rw [h] at herr
    cases herr

/-- `create_peer` stops exactly when the address is new and the table is full. -/
theorem createPeer_error_iff (hp : p.WF) {e : Fault} :
    createPeer p aliasStr hostname fromaddr toaddr = .error e ↔
      e = .assertion ∧ p.at fromaddr = none ∧ p.records.length = maxPeers := by
  constructor
  · intro h
    rcases createPeer_cases hp aliasStr hostname fromaddr toaddr with ⟨p₁, h₁, hok, -⟩ |
      ⟨herr, hfull⟩
    · rw [h] at hok
      cases hok
    · rw [h] at herr
      exact ⟨Except.error.inj herr, hfull⟩
  · rintro ⟨rfl, hnew, hfull⟩
    rcases createPeer_cases hp aliasStr hostname fromaddr toaddr with ⟨p₁, h₁, hok, hcases⟩ |
      ⟨herr, -⟩
    · rcases hcases with hrep | hadd
      · have hfound := hrep.found
        rw [hnew] at hfound
        cases hfound
      · -- a record more than fit
        have hlen := (hadd.wf hp).length_le
        rw [hadd.records, List.length_append, List.length_singleton] at hlen
        omega
    · exact herr

/-- `create_peer` keeps the table well formed. -/
theorem createPeer_wf (hp : p.WF)
    (h : createPeer p aliasStr hostname fromaddr toaddr = .ok (p', hpeer)) : p'.WF :=
  (createPeer_ok hp h).elim (Replaced.wf hp) (Added.wf hp)

/-- After `create_peer` there is a table. -/
theorem createPeer_cap (hp : p.WF)
    (h : createPeer p aliasStr hostname fromaddr toaddr = .ok (p', hpeer)) :
    p'.gPeers.cap ≠ 0 := by
  obtain ⟨k, -, hcap⟩ : ∃ k ≤ 9, p'.gPeers.cap = 64 * 2 ^ k :=
    (createPeer_ok hp h).elim Replaced.cap Added.cap
  have hpos : 0 < 2 ^ k := by positivity
  omega

/-- The data announced of a peer. -/
structure PeerInfo where
  /-- `alias` -/
  aliasStr : StaticStr aliasSize
  /-- `hostname` -/
  hostname : StaticStr hostnameSize
  /-- `toaddr` -/
  toaddr : HostAddr
  deriving DecidableEq

/-- The announced data of a record. -/
def Peer.info (q : Peer) : PeerInfo := ⟨q.aliasStr, q.hostname, q.toaddr⟩

/-- The data as `create_peer` stores them. -/
def storedInfo (aliasStr hostname : CStr) (toaddr : HostAddr) : PeerInfo :=
  ⟨staticstrCopy aliasSize aliasStr, staticstrCopy hostnameSize hostname, toaddr⟩

/-- After `create_peer` the address has an active record with the handle returned and the data
given; what is found for other addresses is the same. -/
theorem createPeer_at (hp : p.WF)
    (h : createPeer p aliasStr hostname fromaddr toaddr = .ok (p', hpeer)) :
    ∃ r, r.hpeer = hpeer ∧ r.fromaddr = fromaddr ∧ r.active = true ∧
      r.info = storedInfo aliasStr hostname toaddr ∧
      ∀ a, p'.at a = if a = fromaddr then some r else p.at a := by
  rcases createPeer_ok hp h with hrep | hadd
  · obtain ⟨q, hq, hhandle⟩ := Option.map_eq_some_iff.mp hrep.found
    refine ⟨peerReplace q aliasStr hostname fromaddr toaddr, hhandle, rfl, rfl, rfl, fun a => ?_⟩
    have hlook : p'.at a = (p.at a).map (Peer.announced aliasStr hostname fromaddr toaddr) := by
      rw [Peers.at, hrep.records]
      exact lookup_map (fromaddr_announced _ _ _ _) _ _
    rw [hlook]
    split
    case isTrue ha =>
      subst ha
      rw [hq, Option.map_some, Peer.announced, if_pos (lookup_some hq).2]
    case isFalse ha =>
      cases hpa : p.at a with
      | none => rfl
      | some r =>
        have hr : r.fromaddr ≠ fromaddr := by
          rw [(lookup_some hpa).2]
          exact ha
        rw [Option.map_some, Peer.announced, if_neg hr]
  · refine ⟨peerNew p.gNextPeerHandle aliasStr hostname fromaddr toaddr, hadd.handle.symm, rfl,
      rfl, rfl, fun a => ?_⟩
    have hfresh : lookup Peer.fromaddr p.records
        (peerNew p.gNextPeerHandle aliasStr hostname fromaddr toaddr).fromaddr = none := hadd.fresh
    rw [Peers.at, hadd.records, lookup_append hfresh]
    rfl

/-- A record keeps its handle and its address when `create_peer` is called. -/
theorem createPeer_atHandle (hp : p.WF)
    (h : createPeer p aliasStr hostname fromaddr toaddr = .ok (p', hpeer)) {k : TMHandle} {q : Peer}
    (hq : p.atHandle k = some q) :
    ∃ q', p'.atHandle k = some q' ∧ q'.fromaddr = q.fromaddr := by
  rcases createPeer_ok hp h with hrep | hadd
  · refine ⟨q.announced aliasStr hostname fromaddr toaddr, ?_, fromaddr_announced _ _ _ _ q⟩
    have hlook := lookup_map (hpeer_announced aliasStr hostname fromaddr toaddr) p.records k
    rw [Peers.atHandle, hrep.records, hlook]
    exact congrArg (Option.map _) hq
  · have hfresh : lookup Peer.hpeer p.records
        (peerNew p.gNextPeerHandle aliasStr hostname fromaddr toaddr).hpeer = none :=
      hp.atHandle_next
    refine ⟨q, ?_, rfl⟩
    rw [Peers.atHandle, hadd.records, lookup_append hfresh]
    have hne : k ≠ p.gNextPeerHandle := by
      rintro rfl
      rw [hp.atHandle_next] at hq
      cases hq
    exact (if_neg hne).trans hq

/-- A record found for its address is found for its handle. -/
theorem Peers.WF.atHandle_of_at (hp : p.WF) {q : Peer} (hq : p.at fromaddr = some q) :
    p.atHandle q.hpeer = some q :=
  lookup_of_mem hp.hpeer_nodup (lookup_some hq).1

/-- A record found for its handle is found for its address. -/
theorem Peers.WF.at_of_atHandle (hp : p.WF) {q : Peer} (hq : p.atHandle hpeer = some q) :
    p.at q.fromaddr = some q :=
  lookup_of_mem hp.fromaddr_nodup (lookup_some hq).1

/-- Records with the same handle are at the same address. -/
theorem Peers.WF.at_inj (hp : p.WF) {a a' : HostAddr} {q q' : Peer} (hq : p.at a = some q)
    (hq' : p.at a' = some q') (h : q.hpeer = q'.hpeer) : a = a' := by
  have hsame : some q = some q' := by
    rw [← hp.atHandle_of_at hq, ← hp.atHandle_of_at hq', h]
  rw [← (lookup_some hq).2, ← (lookup_some hq').2, Option.some.inj hsame]

/-- The handle that `create_peer` returns is the one that the address had, or a new one. -/
theorem createPeer_found (hp : p.WF)
    (h : createPeer p aliasStr hostname fromaddr toaddr = .ok (p', hpeer)) :
    (∃ q, p.at fromaddr = some q ∧ q.hpeer = hpeer) ∨
      (p.at fromaddr = none ∧ p.atHandle hpeer = none) := by
  rcases createPeer_ok hp h with hrep | hadd
  · exact Or.inl (Option.map_eq_some_iff.mp hrep.found)
  · exact Or.inr ⟨hadd.fresh, hadd.handle ▸ hp.atHandle_next⟩

/-- The handle that `create_peer` returns is the handle of the address. -/
theorem createPeer_handle (hp : p.WF)
    (h : createPeer p aliasStr hostname fromaddr toaddr = .ok (p', hpeer)) :
    ∃ r, p'.atHandle hpeer = some r ∧ r.fromaddr = fromaddr := by
  obtain ⟨r, rfl, hfrom, -, -, hat⟩ := createPeer_at hp h
  have hfound : p'.at fromaddr = some r := by rw [hat, if_pos rfl]
  exact ⟨r, (createPeer_wf hp h).atHandle_of_at hfound, hfrom⟩

end Spec

/-! ## The map that a table stands for -/

section Map

variable {p p' : Peers} {hpeer : TMHandle} {aliasStr hostname : CStr} {fromaddr toaddr : HostAddr}

/-- The announced data of the peer at an address, if it is active. -/
def Peers.activeAt (p : Peers) (fromaddr : HostAddr) : Option PeerInfo :=
  ((p.at fromaddr).filter Peer.active).map Peer.info

@[simp] theorem peersInit_activeAt (fromaddr : HostAddr) : peersInit.activeAt fromaddr = none := rfl

/-- `create_peer` writes the map at one address. -/
theorem createPeer_activeAt (hp : p.WF)
    (h : createPeer p aliasStr hostname fromaddr toaddr = .ok (p', hpeer)) :
    p'.activeAt = Function.update p.activeAt fromaddr
      (some (storedInfo aliasStr hostname toaddr)) := by
  obtain ⟨r, -, -, hactive, hinfo, hat⟩ := createPeer_at hp h
  funext a
  rw [Peers.activeAt, hat, Function.update_apply]
  split
  · rw [Option.filter_some, if_pos hactive, Option.map_some, hinfo]
  · rfl

/-- Marking a record inactive. -/
def Peer.deactivate (hpeer : TMHandle) (q : Peer) : Peer :=
  if q.hpeer = hpeer then { q with active := false } else q

theorem fromaddr_deactivate (hpeer : TMHandle) (q : Peer) :
    (q.deactivate hpeer).fromaddr = q.fromaddr := by
  unfold Peer.deactivate
  split <;> rfl

theorem hpeer_deactivate (hpeer : TMHandle) (q : Peer) :
    (q.deactivate hpeer).hpeer = q.hpeer := by
  unfold Peer.deactivate
  split <;> rfl

/-- `destroy_peer` marks the record of a handle inactive, and trips no assertion. -/
theorem destroyPeer_eq (hp : p.WF) (hpeer : TMHandle) :
    ∃ p', destroyPeer p hpeer = .ok p' ∧ p'.records = p.records.map (Peer.deactivate hpeer) ∧
      p'.gNextPeerHandle = p.gNextPeerHandle ∧ p'.gPeersArenaCap = p.gPeersArenaCap ∧
      p'.gPeers.cap = p.gPeers.cap := by
  unfold destroyPeer
  rcases arrayFindItem_cases p.gPeers Peer.hpeer hpeer with ⟨hfind, hlook⟩ |
    ⟨i, h, hfind, -, hkey⟩
  · refine ⟨p, by rw [hfind]; rfl, ?_, rfl, rfl, rfl⟩
    have hid : ∀ q ∈ p.records, q.deactivate hpeer = q := fun q hq => by
      rw [Peer.deactivate, if_neg (lookup_eq_none_iff.mp hlook q hq)]
    rw [List.map_congr_left hid, List.map_id']
  · have hset := set_eq_map hp.hpeer_nodup h hkey fun q => { q with active := false }
    rw [hfind, ok_bind]
    refine ⟨_, rfl, ?_, rfl, rfl, arrayStore_cap _ _ _⟩
    exact (arrayStore_toList _ _ _).trans hset

/-- `destroy_peer` keeps the table well formed. -/
theorem destroyPeer_wf (hp : p.WF) (h : destroyPeer p hpeer = .ok p') : p'.WF := by
  obtain ⟨p₁, hok, hrec, hnext, harena, hcap⟩ := destroyPeer_eq hp hpeer
  obtain rfl := Except.ok.inj (h.symm.trans hok)
  refine ⟨?_, ?_, ?_, hnext ▸ hp.next_pos, ?_⟩
  · rw [hrec, map_key_map (fromaddr_deactivate hpeer)]
    exact hp.fromaddr_nodup
  · rw [hrec, map_key_map (hpeer_deactivate hpeer)]
    exact hp.hpeer_nodup
  · rw [hrec, hnext]
    intro q hq
    obtain ⟨r, hr, rfl⟩ := List.mem_map.mp hq
    rw [hpeer_deactivate]
    exact hp.hpeer_lt r hr
  · rw [hcap, harena]
    exact hp.cap

/-- What `destroy_peer` leaves to be found. -/
theorem destroyPeer_at (hp : p.WF) (h : destroyPeer p hpeer = .ok p') (a : HostAddr) :
    p'.at a = (p.at a).map (Peer.deactivate hpeer) := by
  obtain ⟨p₁, hok, hrec, -⟩ := destroyPeer_eq hp hpeer
  obtain rfl := Except.ok.inj (h.symm.trans hok)
  rw [Peers.at, hrec]
  exact lookup_map (fromaddr_deactivate hpeer) _ _

/-- A record keeps its handle and its address when `destroy_peer` is called. -/
theorem destroyPeer_atHandle (hp : p.WF) (h : destroyPeer p hpeer = .ok p') (k : TMHandle) :
    p'.atHandle k = (p.atHandle k).map (Peer.deactivate hpeer) := by
  obtain ⟨p₁, hok, hrec, -⟩ := destroyPeer_eq hp hpeer
  obtain rfl := Except.ok.inj (h.symm.trans hok)
  rw [Peers.atHandle, hrec]
  exact lookup_map (hpeer_deactivate hpeer) _ _

/-- `find_peer_fromaddr` and `destroy_peer` of the handle it finds, if any. -/
def destroyFromaddr (p : Peers) (fromaddr : HostAddr) : Exec Peers := do
  match ← findPeerFromaddr p fromaddr with
  | some hpeer => destroyPeer p hpeer
  | none => .ok p

/-- Looking up an address and destroying its peer trips no assertion, keeps the table well formed
and removes the address from the map. -/
theorem destroyFromaddr_ok (hp : p.WF) (fromaddr : HostAddr) :
    ∃ p', destroyFromaddr p fromaddr = .ok p' ∧ p'.WF ∧ p'.gPeers.cap = p.gPeers.cap ∧
      p'.records.map Peer.fromaddr = p.records.map Peer.fromaddr ∧
      p'.activeAt = Function.update p.activeAt fromaddr none := by
  unfold destroyFromaddr
  rw [findPeerFromaddr_eq, ok_bind]
  cases hq : p.at fromaddr with
  | none =>
    refine ⟨p, rfl, hp, rfl, rfl, ?_⟩
    have hnone : p.activeAt fromaddr = none := by rw [Peers.activeAt, hq]; rfl
    rw [← hnone, Function.update_eq_self]
  | some q =>
    obtain ⟨p', hok, hrec, hnext, harena, hcap⟩ := destroyPeer_eq hp q.hpeer
    obtain ⟨hmem, rfl⟩ := lookup_some hq
    refine ⟨p', hok, destroyPeer_wf hp hok, hcap, ?_, ?_⟩
    · rw [hrec, map_key_map (fromaddr_deactivate q.hpeer)]
    · funext a
      rw [Peers.activeAt, destroyPeer_at hp hok, Function.update_apply]
      split
      case isTrue ha =>
        rw [ha, hq, Option.map_some, Peer.deactivate, if_pos rfl]
        rfl
      case isFalse ha =>
        cases hr : p.at a with
        | none => rw [Peers.activeAt, hr]; rfl
        | some r =>
          obtain ⟨hrmem, rfl⟩ := lookup_some hr
          have hne : r.hpeer ≠ q.hpeer := fun heq =>
            ha (congrArg Peer.fromaddr (List.inj_on_of_nodup_map hp.hpeer_nodup hrmem hmem heq))
          rw [Peers.activeAt, hr, Option.map_some, Peer.deactivate, if_neg hne]

end Map

end TinyMsg
