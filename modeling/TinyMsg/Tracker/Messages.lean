import TinyMsg.Messages
import TinyMsg.Peers

/-!
# `handle_msg` of the tracker

The handler is given with the fields of the message already unpacked.  It sends in two places: a
broadcast goes to every active peer (`send_msg_to_peers`), and a peer that knocks is informed of
the active peers there are.  What a call of `send_msg_to_hostaddr` does is a parameter `send`, on a
state of any type: it may append to a log of messages, or drive sockets.  The calls do not touch
the peer table, so which calls are made is a list (`broadcasts`, `catchUps`) that the handler runs
through, and `handleMsg_knock` and `handleMsg_bye` say that this is all it does.
-/

namespace TinyMsg

/-- The two places that `handle_msg` sends from. -/
inductive SendKind
  /-- In `send_msg_to_peers`. -/
  | broadcast
  /-- In the loop that informs a new peer of existing peers. -/
  | catchUp
  deriving DecidableEq

/-- A call of `send_msg_to_hostaddr` by `handle_msg`. -/
structure Send where
  /-- The address whose record the message is for. -/
  record : HostAddr
  /-- `toaddr` -/
  toaddr : HostAddr
  /-- The message. -/
  msg : PeerMsg
  /-- Where the call stands. -/
  kind : SendKind
  deriving DecidableEq

/-- `toaddr` of a peer that knocks: its address with `listenport` for the port. -/
def knockToaddr (fromaddr : HostAddr) (listenport : UInt16) : HostAddr :=
  hostAddrFromSockAddr { sockAddrFromHostAddr fromaddr with sinPort := htons listenport }

/-- A broadcast to the record of a peer. -/
def broadcastTo (msg : PeerMsg) (q : Peer) : Send := ⟨q.fromaddr, q.toaddr, msg, .broadcast⟩

/-- The message that informs the peer at `fromaddr`, which listens at `toaddr`, of a peer. -/
def catchUpWith (fromaddr toaddr : HostAddr) (q : Peer) : Send :=
  ⟨fromaddr, toaddr, .online q.aliasStr.str q.hostname.str q.fromaddr q.toaddr, .catchUp⟩

section Handler

variable {σ : Type} (send : σ → Send → Exec σ)

/-- The loop over the active peers that sends one message for each. -/
def sendForEach (p : Peers) (s : σ) (call : Peer → Send) : Exec σ :=
  arrayFold p.gPeers (fun s q => if q.active then send s (call q) else .ok s) s

/-- `send_msg_to_peers` -/
def sendMsgToPeers (p : Peers) (s : σ) (msg : PeerMsg) : Exec σ :=
  sendForEach send p s (broadcastTo msg)

/-- `handle_msg` of the tracker: the peer table and the state of the sends. -/
def handleMsg (p : Peers) (s : σ) (fromaddr : HostAddr) : TrackerMsg → Exec (Peers × σ)
  | .knock aliasStr hostname listenport => do
    let toaddr := knockToaddr fromaddr listenport
    -- Inform all peers of new peer.
    let s ← sendMsgToPeers send p s (.online aliasStr hostname fromaddr toaddr)
    -- Inform new peer of existing peers.
    let s ← sendForEach send p s (catchUpWith fromaddr toaddr)
    let (p, _) ← createPeer p aliasStr hostname fromaddr toaddr
    printPeers p
    .ok (p, s)
  | .bye => do
    let p ← destroyFromaddr p fromaddr
    printPeers p
    -- Inform all peers that this peer is going offline.
    let s ← sendMsgToPeers send p s (.offline fromaddr)
    .ok (p, s)

end Handler

/-! ## What the handler does -/

/-- The active records, in order. -/
def Peers.active (p : Peers) : List Peer := p.records.filter Peer.active

/-- The calls of `send_msg_to_peers` for a message. -/
def broadcasts (p : Peers) (msg : PeerMsg) : List Send := p.active.map (broadcastTo msg)

/-- The calls that inform a peer of existing peers. -/
def catchUps (p : Peers) (fromaddr toaddr : HostAddr) : List Send :=
  p.active.map (catchUpWith fromaddr toaddr)

section Spec

variable {σ : Type} {send : σ → Send → Exec σ} {p p' : Peers} {s s' : σ} {fromaddr : HostAddr}
  {aliasStr hostname : CStr} {listenport : UInt16}

/-- The loop over the active peers makes its calls in the order of the table. -/
theorem sendForEach_eq (p : Peers) (s : σ) (call : Peer → Send) :
    sendForEach send p s call = run send s (p.active.map call) := by
  rw [sendForEach, arrayFold_eq, Peers.active, Peers.records]
  induction p.gPeers.toList generalizing s with
  | nil => rfl
  | cons q l ih =>
    rw [run_cons, List.filter_cons]
    by_cases hq : q.active = true
    · rw [if_pos hq, if_pos hq, List.map_cons, run_cons]
      congr 1
      funext s
      exact ih s
    · rw [if_neg hq, if_neg hq, ok_bind]
      exact ih s

/-- A KNOCK is handled to the end exactly when the sends and `create_peer` come back. -/
theorem handleMsg_knock (hp : p.WF) :
    handleMsg send p s fromaddr (.knock aliasStr hostname listenport) = .ok (p', s') ↔
      run send s
        (broadcasts p (.online aliasStr hostname fromaddr (knockToaddr fromaddr listenport)) ++
          catchUps p fromaddr (knockToaddr fromaddr listenport)) = .ok s' ∧
      ∃ hpeer, createPeer p aliasStr hostname fromaddr (knockToaddr fromaddr listenport) =
        .ok (p', hpeer) := by
  simp only [handleMsg, sendMsgToPeers, sendForEach_eq, broadcasts, catchUps, run_append,
    bind_eq_ok]
  constructor
  · rintro ⟨s₁, h₁, s₂, h₂, ⟨p₁, hpeer⟩, hcreate, u, -, heq⟩
    obtain ⟨rfl, rfl⟩ := Prod.mk.inj (Except.ok.inj heq)
    exact ⟨⟨s₁, h₁, h₂⟩, hpeer, hcreate⟩
  · rintro ⟨⟨s₁, h₁, h₂⟩, hpeer, hcreate⟩
    refine ⟨s₁, h₁, s', h₂, (p', hpeer), hcreate, (), ?_, rfl⟩
    rw [printPeers_eq, if_neg (createPeer_cap hp hcreate)]

/-- A BYE is handled to the end exactly when there is a table and the sends come back. -/
theorem handleMsg_bye :
    handleMsg send p s fromaddr .bye = .ok (p', s') ↔
      destroyFromaddr p fromaddr = .ok p' ∧ p'.gPeers.cap ≠ 0 ∧
        run send s (broadcasts p' (.offline fromaddr)) = .ok s' := by
  simp only [handleMsg, sendMsgToPeers, sendForEach_eq, broadcasts, bind_eq_ok, printPeers_eq]
  constructor
  · rintro ⟨p₁, hdestroy, u, hprint, s₁, hs, heq⟩
    obtain ⟨rfl, rfl⟩ := Prod.mk.inj (Except.ok.inj heq)
    refine ⟨hdestroy, fun hcap => ?_, hs⟩
    rw [if_pos hcap] at hprint
    cases hprint
  · rintro ⟨hdestroy, hcap, hs⟩
    exact ⟨p', hdestroy, (), if_neg hcap, s', hs, rfl⟩

/-- The handler keeps the peer table well formed. -/
theorem handleMsg_wf (hp : p.WF) {m : TrackerMsg}
    (h : handleMsg send p s fromaddr m = .ok (p', s')) : p'.WF := by
  cases m with
  | knock aliasStr hostname listenport =>
    obtain ⟨-, hpeer, hcreate⟩ := (handleMsg_knock hp).mp h
    exact createPeer_wf hp hcreate
  | bye =>
    obtain ⟨hdestroy, -⟩ := handleMsg_bye.mp h
    obtain ⟨p₁, hok, hwf, -⟩ := destroyFromaddr_ok hp fromaddr
    obtain rfl := Except.ok.inj (hdestroy.symm.trans hok)
    exact hwf

end Spec

end TinyMsg
