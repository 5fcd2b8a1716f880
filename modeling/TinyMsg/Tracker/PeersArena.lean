import TinyMsg.Clib.Arena
import TinyMsg.Tracker.Replication

/-!
# The memory of the tracker's peer table

`create_peer` makes the table in an arena of 64 KiB.  A full table moves to a block twice as large
and leaves its old block behind, so with `64 * 2 ^ k` slots of `peerSize` bytes the arena has
handed out `peerSize * 64 * (2 ^ (k + 1) - 1)` bytes, and `k` can be `3` at most: there is room for
512 addresses that have sent a KNOCK, whether or not they have left since (`TableIn`).
-/

namespace TinyMsg

/-- `sizeof(Peer)`: the names end at offset 38, the addresses are aligned to 8 bytes. -/
def peerSize : ℕ := 64

/-- The peer table and its arena. -/
structure PeersIn where
  /-- `GPeersArena` -/
  gPeersArena : Arena
  /-- The table. -/
  peers : Peers

/-- The table of a program that has just started. -/
def peersInInit : PeersIn := ⟨arenaZero, peersInit⟩

/-- The first lines of `create_peer`, in the arena. -/
def initPeersIn (t : PeersIn) : Except Stop PeersIn :=
  if t.peers.gPeers.cap = 0 then
    if t.gPeersArena.cap = 0 then do
      let arena ← arenaAlloc (arenaNew (64 * 1024)) (peerSize * 64)
      .ok ⟨arena, { t.peers with gPeersArenaCap := 64 * 1024, gPeers := arrayNew 64 }⟩
    else .error (.fault .assertion)
  else .ok t

/-- `create_peer`, in the arena. -/
def createPeerIn (t : PeersIn) (aliasStr hostname : CStr) (fromaddr toaddr : HostAddr) :
    Except Stop (PeersIn × TMHandle) := do
  let t ← initPeersIn t
  match ← (arrayFindItem t.peers.gPeers fun q => q.fromaddr = fromaddr).lift with
  | some (i, peer) =>
    .ok ({ t with peers := { t.peers with
      gPeers := arrayStore t.peers.gPeers i
        (peerReplace peer aliasStr hostname fromaddr toaddr) } }, peer.hpeer)
  | none =>
    let peer := peerNew t.peers.gNextPeerHandle aliasStr hostname fromaddr toaddr
    let (arena, gPeers) ← arrayAppendIn peerSize t.gPeersArena t.peers.gPeers peer
    .ok (⟨arena, { t.peers with
      gPeers := gPeers, gNextPeerHandle := t.peers.gNextPeerHandle + 1 }⟩, peer.hpeer)

/-- `handle_msg` of the tracker, with the arena of the peer table. -/
def handleMsgIn {σ : Type} (send : σ → Send → Exec σ) (t : PeersIn) (s : σ) (fromaddr : HostAddr) :
    TrackerMsg → Except Stop (PeersIn × σ)
  | .knock aliasStr hostname listenport => do
    let toaddr := knockToaddr fromaddr listenport
    -- Inform all peers of new peer.
    let s ← (sendMsgToPeers send t.peers s (.online aliasStr hostname fromaddr toaddr)).lift
    -- Inform new peer of existing peers.
    let s ← (sendForEach send t.peers s (catchUpWith fromaddr toaddr)).lift
    let (t, _) ← createPeerIn t aliasStr hostname fromaddr toaddr
    (printPeers t.peers).lift
    .ok (t, s)
  | .bye => do
    let p ← (destroyFromaddr t.peers fromaddr).lift
    (printPeers p).lift
    -- Inform all peers that this peer is going offline.
    let s ← (sendMsgToPeers send p s (.offline fromaddr)).lift
    .ok ({ t with peers := p }, s)

/-- Handling one message, with its address. -/
def peersInStep {σ : Type} (send : σ → Send → Exec σ) (t : PeersIn × σ)
    (e : HostAddr × TrackerMsg) : Except Stop (PeersIn × σ) :=
  handleMsgIn send t.1 t.2 e.1 e.2

/-! ## What the arena holds -/

/-- The table is in order, and its blocks so far are what the arena has handed out. -/
structure PeersIn.WF (t : PeersIn) : Prop where
  /-- The table is in order. -/
  peers : t.peers.WF
  /-- There is no arena yet, or the table has doubled `k` times in it. -/
  arena : (t.peers.gPeers.cap = 0 ∧ t.gPeersArena = arenaZero) ∨ ∃ k ≤ 3,
    t.peers.gPeers.cap = 64 * 2 ^ k ∧ t.gPeersArena.cap = 64 * 1024 ∧
      t.gPeersArena.pos + peerSize * 64 = peerSize * t.peers.gPeers.cap * 2

/-- The number of records that the arena has room for. -/
def maxPeersIn : ℕ := 512

section Spec

variable {t t' : PeersIn} {aliasStr hostname : CStr} {fromaddr toaddr : HostAddr} {hpeer : TMHandle}

/-- No more records than the arena has room for. -/
theorem PeersIn.WF.length_le (ht : t.WF) : t.peers.records.length ≤ maxPeersIn := by
  have hlen : t.peers.records.length = t.peers.gPeers.len := t.peers.gPeers.length_toList
  have hle := t.peers.gPeers.len_le_cap
  rw [maxPeersIn]
  rcases ht.arena with ⟨hcap, -⟩ | ⟨k, hk, hcap, -⟩
  · omega
  · have hpow : 2 ^ k ≤ 2 ^ 3 := Nat.pow_le_pow_right (by decide) hk
    omega

theorem peersInInit_wf : peersInInit.WF := ⟨peersInit_wf, Or.inl ⟨rfl, rfl⟩⟩

/-- The first lines of `create_peer` do the same in the arena, and make sure that there is one. -/
theorem initPeersIn_ok (ht : t.WF) : ∃ t₁ k, initPeersIn t = .ok t₁ ∧
    initPeers t.peers = .ok t₁.peers ∧ k ≤ 3 ∧ t₁.peers.gPeers.cap = 64 * 2 ^ k ∧
    t₁.gPeersArena.cap = 64 * 1024 ∧
    t₁.gPeersArena.pos + peerSize * 64 = peerSize * t₁.peers.gPeers.cap * 2 := by
  rcases ht.arena with ⟨hcap, harena⟩ | ⟨k, hk, hcap, hrest⟩
  · have hzero : t.peers.gPeersArenaCap = 0 := by
      rcases ht.peers.cap with ⟨-, hzero⟩ | ⟨k, -, hcap'⟩
      · exact hzero
      · have hpos : 0 < 2 ^ k := by positivity
        omega
    have halloc : (arenaNew (64 * 1024)).pos + peerSize * 64 ≤ (arenaNew (64 * 1024)).cap := by
      decide
    refine ⟨⟨⟨(arenaNew (64 * 1024)).pos + peerSize * 64, (arenaNew (64 * 1024)).cap, halloc⟩,
      { t.peers with gPeersArenaCap := 64 * 1024, gPeers := arrayNew 64 }⟩, 0, ?_, ?_, by decide,
      rfl, rfl, rfl⟩
    · rw [initPeersIn, if_pos hcap, if_pos (by rw [harena]; rfl), arenaAlloc_ok halloc]
      rfl
    · rw [initPeers, if_pos hcap, if_pos hzero]
  · have hpos : 0 < 2 ^ k := by positivity
    have hne : t.peers.gPeers.cap ≠ 0 := by omega
    exact ⟨t, k, if_neg hne, if_neg hne, hk, hcap, hrest⟩

/-- What `create_peer` does in the arena: the same as without it, unless the address is new and
the 512 records there are fill what the arena has room for. -/
theorem createPeerIn_cases (ht : t.WF) (aliasStr hostname : CStr) (fromaddr toaddr : HostAddr) :
    (∃ t' hpeer, createPeerIn t aliasStr hostname fromaddr toaddr = .ok (t', hpeer) ∧
      createPeer t.peers aliasStr hostname fromaddr toaddr = .ok (t'.peers, hpeer) ∧ t'.WF) ∨
    (createPeerIn t aliasStr hostname fromaddr toaddr = .error .noMemory ∧
      t.peers.at fromaddr = none ∧ t.peers.records.length = maxPeersIn) := by
  obtain ⟨t₁, k, hinitIn, hinit, hk, hcap, hmax, hpos⟩ := initPeersIn_ok ht
  obtain ⟨p₁, hinit₁, hrec, hnext, -⟩ := initPeers_ok ht.peers
  obtain rfl := Except.ok.inj (hinit.symm.trans hinit₁)
  have hpow : 2 ^ k ≤ 2 ^ 3 := Nat.pow_le_pow_right (by decide) hk
  have hlen : t.peers.records.length = t₁.peers.gPeers.len := by
    rw [← hrec]
    exact t₁.peers.gPeers.length_toList
  have hle := t₁.peers.gPeers.len_le_cap
  rcases arrayFindItem_cases t₁.peers.gPeers Peer.fromaddr fromaddr with ⟨hfind, hlook⟩ |
    ⟨i, hi, hfind, hlook, -⟩
  · have hnew : t.peers.at fromaddr = none := by
      rw [Peers.at, ← hrec]
      exact hlook
    obtain ⟨peer, hpeer⟩ : ∃ peer,
        peerNew t₁.peers.gNextPeerHandle aliasStr hostname fromaddr toaddr = peer := ⟨_, rfl⟩
    have hrun : createPeerIn t aliasStr hostname fromaddr toaddr = (do
        let (arena, gPeers) ← arrayAppendIn peerSize t₁.gPeersArena t₁.peers.gPeers peer
        .ok (⟨arena, { t₁.peers with
          gPeers := gPeers, gNextPeerHandle := t₁.peers.gNextPeerHandle + 1 }⟩, peer.hpeer)) := by
      rw [createPeerIn, hinitIn, ok_bind, hfind, Exec.lift_ok, ok_bind, ← hpeer]
    have hcreate : ∀ a, arrayAppend t₁.peers.gPeers peer = .ok a →
        createPeer t.peers aliasStr hostname fromaddr toaddr = .ok ({ t₁.peers with
          gPeers := a, gNextPeerHandle := t₁.peers.gNextPeerHandle + 1 }, peer.hpeer) := by
      intro a happ
      rw [createPeer, hinit, ok_bind, hfind, ok_bind]
      simp only [hpeer, happ, ok_bind]
    rcases arrayAppend_doubling ⟨k, hk.trans (by decide), hcap⟩ peer with
      ⟨a, happ, -⟩ | ⟨-, hfull⟩
    · have hacap := arrayAppend_cap happ
      have hwf := createPeer_wf ht.peers (hcreate a happ)
      rw [peerSize] at hpos
      by_cases hfull : t₁.peers.gPeers.len = t₁.peers.gPeers.cap
      · rw [if_pos hfull] at hacap
        by_cases hk2 : k ≤ 2
        · -- the table moves to a block twice as large
          have hpow2 : 2 ^ k ≤ 2 ^ 2 := Nat.pow_le_pow_right (by decide) hk2
          have hfits : t₁.gPeersArena.pos + peerSize * t₁.peers.gPeers.cap * 2 ≤
              t₁.gPeersArena.cap := by
            rw [peerSize]
            omega
          rw [arrayAppendIn_of_full _ _ hfull happ hfits, ok_bind] at hrun
          refine Or.inl ⟨_, _, hrun, hcreate a happ, ⟨hwf, Or.inr ⟨k + 1, by omega, ?_, hmax, ?_⟩⟩⟩
          · change a.cap = 64 * 2 ^ (k + 1)
            rw [hacap, hcap, pow_succ]
            omega
          · change t₁.gPeersArena.pos + peerSize * t₁.peers.gPeers.cap * 2 + peerSize * 64 =
              peerSize * a.cap * 2
            rw [hacap, peerSize]
            omega
        · -- the block would be as large as the arena
          obtain rfl : k = 3 := by omega
          have hover : t₁.gPeersArena.cap <
              t₁.gPeersArena.pos + peerSize * t₁.peers.gPeers.cap * 2 := by
            rw [peerSize]
            omega
          rw [arrayAppendIn_error _ _ _ hfull hover] at hrun
          refine Or.inr ⟨hrun, hnew, ?_⟩
          rw [maxPeersIn]
          omega
      · rw [if_neg hfull] at hacap
        rw [arrayAppendIn_of_lt _ _ (by omega) happ, ok_bind] at hrun
        refine Or.inl ⟨_, _, hrun, hcreate a happ, ⟨hwf, Or.inr ⟨k, hk, ?_, hmax, ?_⟩⟩⟩
        · exact hacap.trans hcap
        · change t₁.gPeersArena.pos + peerSize * 64 = peerSize * a.cap * 2
          rw [hacap, peerSize]
          exact hpos
    · omega
  · obtain ⟨p', hp'⟩ : ∃ p' : Peers, { t₁.peers with
        gPeers := arrayStore t₁.peers.gPeers i (peerReplace t₁.peers.gPeers.toList[i] aliasStr
          hostname fromaddr toaddr) } = p' := ⟨_, rfl⟩
    have hcap' : p'.gPeers.cap = t₁.peers.gPeers.cap := by rw [← hp']; rfl
    have hcreate : createPeer t.peers aliasStr hostname fromaddr toaddr =
        .ok (p', t₁.peers.gPeers.toList[i].hpeer) := by
      rw [createPeer, hinit, ok_bind, hfind, ok_bind, ← hp']
    refine Or.inl ⟨⟨t₁.gPeersArena, p'⟩, _, ?_, hcreate, ⟨createPeer_wf ht.peers hcreate,
      Or.inr ⟨k, hk, hcap'.trans hcap, hmax, ?_⟩⟩⟩
    · rw [createPeerIn, hinitIn, ok_bind, hfind, Exec.lift_ok, ok_bind, ← hp']
    · exact hcap' ▸ hpos

end Spec

/-! ## Runs -/

/-- The addresses that have sent a KNOCK. -/
def knockers (es : List (HostAddr × TrackerMsg)) : Finset HostAddr :=
  ((es.filter fun e => e.2 ≠ .bye).map Prod.fst).toFinset

theorem knockers_knock (es : List (HostAddr × TrackerMsg)) (fromaddr : HostAddr)
    (aliasStr hostname : CStr) (listenport : UInt16) :
    knockers (es ++ [(fromaddr, .knock aliasStr hostname listenport)]) =
      insert fromaddr (knockers es) := by
  ext a
  simp [knockers]

theorem knockers_bye (es : List (HostAddr × TrackerMsg)) (fromaddr : HostAddr) :
    knockers (es ++ [(fromaddr, .bye)]) = knockers es := by
  simp [knockers]

/-- The first message is a BYE. -/
def ByeFirst (es : List (HostAddr × TrackerMsg)) : Prop :=
  ∃ fromaddr, es.head? = some (fromaddr, .bye)

/-- A first message stays the first. -/
theorem ByeFirst.append {es : List (HostAddr × TrackerMsg)} (h : ByeFirst es)
    (fs : List (HostAddr × TrackerMsg)) : ByeFirst (es ++ fs) := by
  obtain ⟨fromaddr, hhead⟩ := h
  refine ⟨fromaddr, ?_⟩
  rw [List.head?_append, hhead]
  rfl

section Runs

variable {σ : Type} {send : σ → Send → Exec σ} {t : PeersIn} {s s₀ : σ} {fromaddr : HostAddr}
  {es : List (HostAddr × TrackerMsg)}

/-- A series of sends comes back. -/
theorem run_send (hsend : ∀ s x, ∃ s', send s x = .ok s') (s : σ) (xs : List Send) :
    ∃ s', run send s xs = .ok s' := by
  induction xs generalizing s with
  | nil => exact ⟨s, rfl⟩
  | cons x xs ih =>
    obtain ⟨s', hs'⟩ := hsend s x
    rw [run_cons, hs', ok_bind]
    exact ih s'

/-- What the table and its arena are after some messages. -/
structure KnockedIn (es : List (HostAddr × TrackerMsg)) (t : PeersIn) : Prop where
  /-- They are in order. -/
  wf : t.WF
  /-- The addresses that have knocked have records. -/
  addrs : ∀ a, a ∈ t.peers.addrs ↔ a ∈ knockers es
  /-- There is a table after a message. -/
  cap : es ≠ [] → t.peers.gPeers.cap ≠ 0

/-- There are as many records as addresses that have knocked. -/
theorem KnockedIn.length_eq (ht : KnockedIn es t) :
    t.peers.records.length = (knockers es).card := by
  have hset : t.peers.addrs.toFinset = knockers es := by
    ext a
    rw [List.mem_toFinset, ht.addrs]
  have hnodup : t.peers.addrs.Nodup := ht.wf.peers.fromaddr_nodup
  rw [← hset, List.toFinset_card_of_nodup hnodup, Peers.addrs, List.length_map]

theorem KnockedIn.at_eq_none_iff (ht : KnockedIn es t) :
    t.peers.at fromaddr = none ↔ fromaddr ∉ knockers es := by
  rw [Peers.at_eq_none_iff, ht.addrs]

/-- A KNOCK is handled, unless it needs memory that is not there. -/
theorem KnockedIn.knock (hsend : ∀ s x, ∃ s', send s x = .ok s') (ht : KnockedIn es t) (s : σ)
    (fromaddr : HostAddr) (aliasStr hostname : CStr) (listenport : UInt16) :
    (∃ t' s', handleMsgIn send t s fromaddr (.knock aliasStr hostname listenport) = .ok (t', s') ∧
      KnockedIn (es ++ [(fromaddr, .knock aliasStr hostname listenport)]) t' ∧
      (insert fromaddr (knockers es)).card ≤ maxPeersIn) ∨
    (handleMsgIn send t s fromaddr (.knock aliasStr hostname listenport) = .error .noMemory ∧
      maxPeersIn < (insert fromaddr (knockers es)).card) := by
  have hcard := ht.length_eq
  obtain ⟨s₁, hs₁⟩ := run_send hsend s (t.peers.active.map (broadcastTo
    (.online aliasStr hostname fromaddr (knockToaddr fromaddr listenport))))
  obtain ⟨s₂, hs₂⟩ := run_send hsend s₁
    (t.peers.active.map (catchUpWith fromaddr (knockToaddr fromaddr listenport)))
  have hrun : handleMsgIn send t s fromaddr (.knock aliasStr hostname listenport) = (do
      let (t, _) ← createPeerIn t aliasStr hostname fromaddr (knockToaddr fromaddr listenport)
      (printPeers t.peers).lift
      .ok (t, s₂)) := by
    simp only [handleMsgIn, sendMsgToPeers, sendForEach_eq, hs₁, hs₂, Exec.lift_ok, ok_bind]
  rcases createPeerIn_cases ht.wf aliasStr hostname fromaddr (knockToaddr fromaddr listenport) with
    ⟨t', hpeer, hcreateIn, hcreate, hwf⟩ | ⟨herr, hnew, hfull⟩
  · have hcap := createPeer_cap ht.wf.peers hcreate
    have hknocked : KnockedIn (es ++ [(fromaddr, .knock aliasStr hostname listenport)]) t' := by
      refine ⟨hwf, fun a => ?_, fun _ => hcap⟩
      rw [createPeer_addrs ht.wf.peers hcreate, ht.addrs, knockers_knock, Finset.mem_insert,
        or_comm]
    refine Or.inl ⟨t', s₂, ?_, hknocked, ?_⟩
    · rw [hrun, hcreateIn, ok_bind]
      simp only [printPeers_eq, if_neg hcap, Exec.lift_ok, ok_bind]
    · rw [← knockers_knock es fromaddr aliasStr hostname listenport, ← hknocked.length_eq]
      exact hwf.length_le
  · refine Or.inr ⟨by rw [hrun, herr]; rfl, ?_⟩
    rw [Finset.card_insert_of_notMem (ht.at_eq_none_iff.mp hnew), ← hcard, hfull]
    exact Nat.lt_succ_self _

/-- A BYE is handled, if it is not the first message. -/
theorem KnockedIn.bye (hsend : ∀ s x, ∃ s', send s x = .ok s') (ht : KnockedIn es t)
    (hes : es ≠ []) (s : σ) (fromaddr : HostAddr) :
    ∃ t' s', handleMsgIn send t s fromaddr .bye = .ok (t', s') ∧
      KnockedIn (es ++ [(fromaddr, .bye)]) t' := by
  obtain ⟨p, hdestroy, hwf, hcap, haddrs, -⟩ := destroyFromaddr_ok ht.wf.peers fromaddr
  have hne : p.gPeers.cap ≠ 0 := hcap ▸ ht.cap hes
  obtain ⟨s', hs'⟩ := run_send hsend s (p.active.map (broadcastTo (.offline fromaddr)))
  refine ⟨{ t with peers := p }, s', ?_, ⟨⟨hwf, ?_⟩, fun a => ?_, fun _ => hne⟩⟩
  · simp only [handleMsgIn, hdestroy, printPeers_eq, if_neg hne, sendMsgToPeers, sendForEach_eq,
      hs', Exec.lift_ok, ok_bind]
  · rw [hcap]
    exact ht.wf.arena
  · rw [knockers_bye, ← ht.addrs, Peers.addrs, Peers.addrs, haddrs]

/-- A BYE that is the first message stops the tracker, but not for lack of memory. -/
theorem handleMsgIn_byeFirst (s : σ) (fromaddr : HostAddr) :
    handleMsgIn send peersInInit s fromaddr .bye = .error (.fault .assertion) := by
  obtain ⟨p, hdestroy, -, hcap, -⟩ := destroyFromaddr_ok peersInit_wf fromaddr
  have hzero : p.gPeers.cap = 0 := hcap
  have hdestroy' : destroyFromaddr peersInInit.peers fromaddr = .ok p := hdestroy
  simp only [handleMsgIn, hdestroy', printPeers_eq, if_pos hzero, Exec.lift_ok, Exec.lift_error,
    ok_bind, error_bind]

/-- Messages of no more addresses than there is room for are handled. -/
theorem peersIn_ok (hsend : ∀ s x, ∃ s', send s x = .ok s') (s₀ : σ) (hfirst : ¬ ByeFirst es)
    (hfits : (knockers es).card ≤ maxPeersIn) :
    ∃ t s, run (peersInStep send) (peersInInit, s₀) es = .ok (t, s) ∧ KnockedIn es t := by
  induction es using List.reverseRecOn with
  | nil =>
    refine ⟨peersInInit, s₀, rfl, peersInInit_wf, fun a => ?_, absurd rfl⟩
    simp [peersInInit, Peers.addrs, knockers]
  | append_singleton es e ih =>
    obtain ⟨fromaddr, m⟩ := e
    have hfirst' : ¬ ByeFirst es := fun hbye => hfirst (hbye.append _)
    cases m with
    | knock aliasStr hostname listenport =>
      rw [knockers_knock] at hfits
      obtain ⟨t, s, hrun, ht⟩ :=
        ih hfirst' ((Finset.card_le_card (Finset.subset_insert _ _)).trans hfits)
      rcases ht.knock hsend s fromaddr aliasStr hostname listenport with
        ⟨t', s', hok, ht', -⟩ | ⟨-, hover⟩
      · exact ⟨t', s', by rw [run_concat, hrun, ok_bind]; exact hok, ht'⟩
      · omega
    | bye =>
      rw [knockers_bye] at hfits
      obtain ⟨t, s, hrun, ht⟩ := ih hfirst' hfits
      have hes : es ≠ [] := by
        rintro rfl
        exact hfirst ⟨fromaddr, rfl⟩
      obtain ⟨t', s', hok, ht'⟩ := ht.bye hsend hes s fromaddr
      exact ⟨t', s', by rw [run_concat, hrun, ok_bind]; exact hok, ht'⟩

/-- Messages of more addresses than there is room for exhaust the arena. -/
theorem peersIn_error (hsend : ∀ s x, ∃ s', send s x = .ok s') (hfirst : ¬ ByeFirst es)
    (hover : maxPeersIn < (knockers es).card) :
    run (peersInStep send) (peersInInit, s₀) es = .error .noMemory := by
  induction es using List.reverseRecOn with
  | nil => exact absurd hover (Nat.not_lt_zero _)
  | append_singleton es e ih =>
    obtain ⟨fromaddr, m⟩ := e
    have hfirst' : ¬ ByeFirst es := fun hbye => hfirst (hbye.append _)
    by_cases hfits : (knockers es).card ≤ maxPeersIn
    · obtain ⟨t, s, hrun, ht⟩ := peersIn_ok hsend s₀ hfirst' hfits
      cases m with
      | knock aliasStr hostname listenport =>
        rw [knockers_knock] at hover
        rcases ht.knock hsend s fromaddr aliasStr hostname listenport with
          ⟨-, -, -, -, hle⟩ | ⟨herr, -⟩
        · omega
        · rw [run_concat, hrun, ok_bind]
          exact herr
      | bye =>
        rw [knockers_bye] at hover
        omega
    · rw [run_concat, ih hfirst' (by omega)]
      rfl

/-- The arena of the peer table suffices exactly for messages that come from no more than 512
addresses, BYEs without a KNOCK not counted, unless the first message has stopped the tracker. -/
theorem peers_arena_iff {σ : Type} (send : σ → Send → Exec σ)
    (hsend : ∀ s x, ∃ s', send s x = .ok s') (s₀ : σ) (es : List (HostAddr × TrackerMsg)) :
    run (peersInStep send) (peersInInit, s₀) es ≠ .error .noMemory ↔
      (knockers es).card ≤ maxPeersIn ∨ ByeFirst es := by
  by_cases hfirst : ByeFirst es
  · refine iff_of_true ?_ (Or.inr hfirst)
    obtain ⟨fromaddr, hhead⟩ := hfirst
    obtain ⟨rest, rfl⟩ := List.head?_eq_some_iff.mp hhead
    rw [run_cons, peersInStep, handleMsgIn_byeFirst, error_bind]
    exact nofun
  · by_cases hfits : (knockers es).card ≤ maxPeersIn
    · obtain ⟨t, s, hrun, -⟩ := peersIn_ok hsend s₀ hfirst hfits
      refine iff_of_true ?_ (Or.inl hfits)
      rw [hrun]
      exact nofun
    · refine iff_of_false ?_ (not_or.mpr ⟨hfits, hfirst⟩)
      rw [not_not]
      exact peersIn_error hsend hfirst (not_le.mp hfits)

/-- A peer knocks and leaves, and the sends go on record. -/
theorem peers_arena_of_leave :
    run (peersInStep logSend) (peersInInit, []) [(1, .knock CStr.empty CStr.empty 80), (1, .bye)] ≠
      .error .noMemory ↔
    (knockers [(1, .knock CStr.empty CStr.empty 80), (1, .bye)]).card ≤ maxPeersIn ∨
      ByeFirst [(1, .knock CStr.empty CStr.empty 80), (1, .bye)] :=
  peers_arena_iff logSend (fun _ _ => ⟨_, rfl⟩) [] _

/-- The address of a connection from the host itself. -/
def knockerAddr (a : ℕ) : HostAddr :=
  hostAddrFromSockAddr ⟨UInt16.ofNat (40000 + a), 0x0100007F⟩

/-- The addresses of as many connections as there are records are different. -/
theorem knockerAddr_inj {a b : ℕ} (ha : a < 513) (hb : b < 513)
    (h : knockerAddr a = knockerAddr b) : a = b := by
  have hport : ∀ {a : ℕ}, a < 513 → (UInt16.ofNat (40000 + a)).toNat = 40000 + a := fun ha =>
    UInt16.toNat_ofNat_of_lt' (by change _ < 65536; omega)
  rw [knockerAddr, knockerAddr, hostAddrFromSockAddr, hostAddrFromSockAddr] at h
  dsimp only at h
  rw [hport ha, hport hb, Nat.shiftLeft_eq, Nat.shiftLeft_eq] at h
  have hmul := Nat.eq_of_mul_eq_mul_right (Nat.two_pow_pos 32) (Nat.add_right_cancel h)
  omega

/-- One connection after the other knocks and leaves again, and the 513th exhausts the arena. -/
theorem knocks_exhaust_arena :
    run (peersInStep logSend) (peersInInit, []) ((List.range 513).flatMap fun a =>
      [(knockerAddr a, .knock CStr.empty CStr.empty 80), (knockerAddr a, .bye)]) =
        .error .noMemory := by
  refine peersIn_error (fun _ _ => ⟨_, rfl⟩) ?_ ?_
  · rintro ⟨fromaddr, hhead⟩
    rw [List.range_succ_eq_map, List.flatMap_cons, List.cons_append, List.head?_cons] at hhead
    cases hhead
  · have hset : (Finset.range 513).image knockerAddr ⊆ knockers ((List.range 513).flatMap fun a =>
        [(knockerAddr a, .knock CStr.empty CStr.empty 80), (knockerAddr a, .bye)]) := by
      intro fromaddr hfrom
      obtain ⟨a, ha, rfl⟩ := Finset.mem_image.mp hfrom
      simp only [knockers, List.mem_toFinset, List.mem_map, List.mem_filter, List.mem_flatMap,
        List.mem_range]
      refine ⟨(knockerAddr a, .knock CStr.empty CStr.empty 80),
        ⟨⟨a, Finset.mem_range.mp ha, ?_⟩, rfl⟩, rfl⟩
      exact List.mem_cons_self
    have hinj : Set.InjOn knockerAddr (Finset.range 513) := fun a ha b hb =>
      knockerAddr_inj (Finset.mem_range.mp ha) (Finset.mem_range.mp hb)
    calc maxPeersIn < ((Finset.range 513).image knockerAddr).card := by
          rw [Finset.card_image_of_injOn hinj, Finset.card_range, maxPeersIn]
          decide
      _ ≤ _ := Finset.card_le_card hset

end Runs

end TinyMsg
