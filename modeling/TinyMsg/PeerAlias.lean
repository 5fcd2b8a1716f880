import TinyMsg.PeerTable

/-!
# `find_peer_alias` of `tmcommon.c`

Records are never removed: a peer that went offline keeps its record, and a peer that comes back
from another address gets a second one with the same alias.  `find_peer_alias` returns the first
record that has the alias, whether it is active or not, and it compares with the stored alias, of
which only 16 bytes are kept.  `findPeerAlias_online_iff` says for which tables and aliases that is
a record of a peer that is online under the alias.
-/

namespace TinyMsg

/-- `find_peer_alias` -/
def findPeerAlias (p : Peers) (aliasStr : CStr) : Exec (Option TMHandle) := do
  let found ← arrayFindItem p.gPeers fun q => q.aliasStr.str = aliasStr
  .ok (found.map fun (_, peer) => peer.hpeer)

/-- The first record with the alias. -/
def Peers.byAlias (p : Peers) (aliasStr : CStr) : Option Peer :=
  lookup (fun q => q.aliasStr.str) p.records aliasStr

/-- An active record that was announced under the alias: the latest call of `create_peer` for its
address had it. -/
structure Online (calls : List PeerCall) (p : Peers) (aliasStr : CStr) (q : Peer) : Prop where
  /-- It is a record of the table. -/
  mem : q ∈ p.records
  /-- It is active. -/
  active : q.active = true
  /-- It was announced under the alias. -/
  announced : ∃ hostname toaddr, latestArgs calls q.fromaddr = some (aliasStr, hostname, toaddr)

/-- What `find_peer_alias` is for: the handle of a record that is online under the alias whenever
there is one, and `-1` (`none`) when there is none. -/
def FindsOnline (calls : List PeerCall) (p : Peers) (aliasStr : CStr) : Prop :=
  ∃ found, findPeerAlias p aliasStr = .ok found ∧
    ((∃ q, Online calls p aliasStr q) → ∃ q, Online calls p aliasStr q ∧ found = some q.hpeer) ∧
    ((¬ ∃ q, Online calls p aliasStr q) → found = none)

section Find

variable {calls : List PeerCall} {p : Peers} {aliasStr : CStr} {q : Peer}

/-- `find_peer_alias` gives the handle of the first record with the alias. -/
theorem findPeerAlias_eq (p : Peers) (aliasStr : CStr) :
    findPeerAlias p aliasStr = .ok ((p.byAlias aliasStr).map Peer.hpeer) := by
  unfold findPeerAlias Peers.byAlias Peers.records
  rcases arrayFindItem_cases p.gPeers (fun q => q.aliasStr.str) aliasStr with ⟨hfind, hlook⟩ |
    ⟨i, h, hfind, hlook, -⟩
  · rw [hfind, hlook]
    rfl
  · rw [hfind, hlook]
    rfl

/-- An alias that leaves room for the NUL is stored as it is. -/
theorem staticstrCopy_of_lt {size : ℕ} {s : CStr} (h : strlen s < size) :
    (staticstrCopy size s).str = s :=
  CStr.ext (List.take_of_length_le (Nat.le_sub_one_of_lt h))

/-- A peer that is online under an alias of at most 16 bytes has it in its record. -/
theorem Online.stored (h : PeerHistory calls p) (hq : Online calls p aliasStr q)
    (hlen : strlen aliasStr < aliasSize) : q.aliasStr.str = aliasStr := by
  obtain ⟨hostname, toaddr, hargs⟩ := hq.announced
  obtain ⟨announced, hostname', hargs', hstored, -⟩ := h.args q hq.mem
  rw [hargs] at hargs'
  obtain ⟨rfl, -⟩ := Prod.mk.inj (Option.some.inj hargs')
  rw [hstored, staticstrCopy_of_lt hlen]

/-- Two records with one handle are the same. -/
theorem PeerHistory.hpeer_inj (h : PeerHistory calls p) {r : Peer} (hq : q ∈ p.records)
    (hr : r ∈ p.records) (heq : q.hpeer = r.hpeer) : q = r :=
  List.inj_on_of_nodup_map h.wf.hpeer_nodup hq hr heq

/-- The lookup is right exactly when the first record with the alias is online under it, or, when
there is no such record, if the alias was not cut off or no peer is online under it. -/
theorem findsOnline_iff (h : PeerHistory calls p) (aliasStr : CStr) :
    FindsOnline calls p aliasStr ↔
      match p.byAlias aliasStr with
      | some q => Online calls p aliasStr q
      | none => strlen aliasStr < aliasSize ∨ ∀ q, ¬ Online calls p aliasStr q := by
  unfold FindsOnline
  rw [findPeerAlias_eq]
  cases hfirst : p.byAlias aliasStr with
  | some q =>
    have hmem := (lookup_some hfirst).1
    constructor
    · rintro ⟨found, hfound, hsome, hnone⟩
      obtain rfl := Except.ok.inj hfound
      by_cases hex : ∃ r, Online calls p aliasStr r
      · obtain ⟨r, hr, heq⟩ := hsome hex
        rw [h.hpeer_inj hmem hr.mem (Option.some.inj heq)]
        exact hr
      · cases hnone hex
    · intro hq
      exact ⟨some q.hpeer, rfl, fun _ => ⟨q, hq, rfl⟩, fun hnot => absurd ⟨q, hq⟩ hnot⟩
  | none =>
    constructor
    · rintro ⟨found, hfound, hsome, -⟩
      obtain rfl := Except.ok.inj hfound
      right
      intro q hq
      obtain ⟨r, -, heq⟩ := hsome ⟨q, hq⟩
      cases heq
    · intro hcut
      refine ⟨none, rfl, ?_, fun _ => rfl⟩
      rintro ⟨q, hq⟩
      rcases hcut with hlen | hnot
      · exact absurd (hq.stored h hlen) (lookup_eq_none_iff.mp hfirst q hq.mem)
      · exact absurd hq (hnot q)

end Find

/-- The table after calls whose records are known. -/
theorem run_records {calls : List PeerCall} {l : List Peer}
    (h : (run peerCall peersInit calls).toOption.map Peers.records = some l) :
    ∃ p, run peerCall peersInit calls = .ok p ∧ p.records = l := by
  obtain ⟨p, hp, hl⟩ := Option.map_eq_some_iff.mp h
  exact ⟨p, toOption_eq_some.mp hp, hl⟩

/-- A record as `create_peer` and `destroy_peer` leave it. -/
def storedPeer (hpeer : TMHandle) (aliasStr : CStr) (fromaddr : HostAddr) (active : Bool) : Peer :=
  { peerNew hpeer aliasStr CStr.empty fromaddr 9 with active := active }

/-- A peer with this alias joins from the address 1. -/
def annJoins : List PeerCall := [.create (.const ['a', 'n', 'n']) CStr.empty 1 9]

/-- It goes offline, and comes back from the address 2. -/
def annRejoins : List PeerCall :=
  annJoins ++ [.destroy 1, .create (.const ['a', 'n', 'n']) CStr.empty 2 9]

end TinyMsg
