import TinyMsg.Client.Unpack
import TinyMsg.Tracker.Loop
import TinyMsg.Tracker.Replication

/-!
# Messages that end inside a field

`NetUnpack` returns early when a message ends, and `handle_msg` goes on as if it had not: a KNOCK,
a PEER_ONLINE or a CHATTEXT that is cut off is handled with the fields that are missing left empty
or uninitialised, and always changes something.  A PEER_OFFLINE that is cut off takes the bytes
that are there, with zero bytes for the rest, as the address of the peer; nothing comes of it only
if no peer has that address.
-/

namespace TinyMsg

/-- The format that the client unpacks a message with. -/
def clientFmt (msgno : ℕ) : Option (List UInt8) :=
  if msgno = MsgNo.peerOnline then some Fmt.peerOnline
  else if msgno = MsgNo.peerOffline then some Fmt.peerOffline
  else if msgno = MsgNo.chattext then some Fmt.chattext
  else none

/-- The client accepts messages with this number from the sender. -/
def AcceptsFrom (gTrackerAddr : HostAddr) (c : Client) (fromaddr : HostAddr) (msgno : ℕ) : Prop :=
  if msgno = MsgNo.chattext then (c.peers.at fromaddr).isSome
  else hostAddrIpaddrEquals fromaddr gTrackerAddr

/-- The address that `NetUnpack` leaves in `peer_fromaddr` for a PEER_OFFLINE that is cut off, when
`uninit` was there before. -/
def cutOffAddr (body : List UInt8) (uninit : HostAddr) : HostAddr :=
  if body.length = 1 then uninit else numeral (body.drop 1) * 256 ^ (9 - body.length)

/-! ## The tracker -/

section Tracker

variable {p p' : Peers} {fromaddr : HostAddr} {aliasStr hostname : CStr} {listenport : UInt16}

/-- A KNOCK changes the table or is relayed. -/
theorem knock_changes (hp : p.WF) :
    handleMsg logSend p [] fromaddr (.knock aliasStr hostname listenport) ≠ .ok (p, []) := by
  intro h
  obtain ⟨hsends, hpeer, hcreate⟩ := (handleMsg_knock hp).mp h
  rw [run_logSend, List.nil_append] at hsends
  have hnone : p.active = [] := by
    have hbroad := (List.append_eq_nil_iff.mp (Except.ok.inj hsends)).1
    exact List.map_eq_nil_iff.mp hbroad
  -- the record that was made or replaced is active
  have hactive := congrFun (createPeer_activeAt hp hcreate) fromaddr
  rw [Function.update_self, ← lookup_active hp, hnone] at hactive
  cases hactive

end Tracker

/-! ## The client -/

section Client

variable {gTrackerAddr fromaddr : HostAddr} {c c' : Client} {m : ClientMsg} {mem : ℕ → UInt8}
  {body : List UInt8}

/-- A message that is not dropped for its sender changes nothing only if it is a PEER_OFFLINE of
an address without a record. -/
theorem clientHandleMsg_unchanged_iff (hp : c.peers.WF)
    (hpeer : ∀ pm, m = .peer pm → hostAddrIpaddrEquals fromaddr gTrackerAddr)
    (htext : ∀ text, m = .chattext text → (c.peers.at fromaddr).isSome) :
    clientHandleMsg gTrackerAddr c fromaddr m = .ok c ↔
      ∃ a, m = .peer (.offline a) ∧ c.peers.gPeers.cap ≠ 0 ∧ c.peers.at a = none := by
  constructor
  · intro h
    obtain ⟨c', hc', hhandled⟩ : ∃ c', c' = c ∧ ClientHandled gTrackerAddr c fromaddr m c' :=
      ⟨c, rfl, clientHandleMsg_ok hp h⟩
    have hlen : c'.queue.length = c.queue.length := by rw [hc']
    cases hhandled with
    | foreign m hfrom =>
      rw [hpeer m rfl] at hfrom
      cases hfrom
    | online | offline | chattext => simp [gIdleAdd] at hlen
    | offlineUnknown hfrom hcap hq => exact ⟨_, rfl, hcap, hq⟩
    | chattextUnknown hq =>
      have hknown := htext _ rfl
      rw [hq] at hknown
      cases hknown
  · rintro ⟨a, rfl, hcap, hq⟩
    have hfrom := hpeer _ rfl
    simp [clientHandleMsg, hfrom, findPeerFromaddr_eq, hq, printPeers_eq, hcap]

/-- The format of PEER_OFFLINE, character by character. -/
theorem peerOffline_chars :
    Fmt.peerOffline = [ofChar '%', ofChar 'b', ofChar '%', ofChar 'L'] := by decide

/-- A PEER_OFFLINE that is cut off has fewer than 9 bytes. -/
theorem length_lt_of_decode (h : decode .none Fmt.peerOffline body = none) : body.length < 9 := by
  have hb : specOf (ofChar 'b') = .num 1 := by decide
  have hL : specOf (ofChar 'L') = .num 8 := by decide
  by_contra hlong
  have h1 : ¬ body.length < 1 := by omega
  have h8 : ¬ (body.drop 1).length < 8 := by
    rw [List.length_drop]
    omega
  rw [peerOffline_chars, decode, if_pos rfl, decode, hb] at h
  simp only [if_neg h1, decode, if_true, hL, if_neg h8] at h
  cases h

/-- The address that a PEER_OFFLINE which is cut off is unpacked to. -/
theorem unpack_cutOffAddr (hmem : Holds mem 0 body) (hne : body ≠ []) (hshort : body.length < 9)
    (uninit : HostAddr) :
    ((netUnpack mem body.length Fmt.peerOffline).fields.getD 1 (.num uninit)).asNum =
      cutOffAddr body uninit := by
  have hb : specOf (ofChar 'b') = .num 1 := by decide
  have hL : specOf (ofChar 'L') = .num 8 := by decide
  have hpos : 0 < body.length := List.length_pos_iff.mpr hne
  by_cases hone : body.length = 1
  · have hfew : (netUnpack mem body.length Fmt.peerOffline).fields.length ≤ 1 := by
      by_contra hmany
      have hbegins := unpackLoop_begins (not_le.mp hmany)
      rw [fmtSpecs_peerOffline, hone] at hbegins
      exact absurd hbegins (by decide)
    rw [List.getD_eq_default _ _ hfew, cutOffAddr, if_pos hone]
    rfl
  · obtain ⟨n, hn⟩ : ∃ n, body.length = 1 + n := ⟨body.length - 1, by omega⟩
    have hbegin : ((0 : ℕ) : ℤ) < body.length := by omega
    have hin : ((0 + 1 : ℕ) : ℤ) ≤ body.length := by omega
    obtain ⟨_, -, heq⟩ := unpackLoop_num mem [ofChar '%', ofChar 'L'] hb hbegin hin
    have hcut : (unpackNum mem body.length 8 (0 + 1) 0).2.2 = none :=
      unpackNum_cut mem (by omega) (by omega) (by decide)
    have hval : (unpackNum mem body.length 8 (0 + 1) (0 <<< (8 * 8))).1 =
        0 * 256 ^ 8 + numeral (bytesAt mem (0 + 1) n) * 256 ^ (8 - n) :=
      unpackNum_value_cut mem (by omega) (by omega) (by omega)
    rcases hread : unpackNum mem body.length 8 (0 + 1) 0 with ⟨v, reads, next⟩
    rw [hread] at hcut
    obtain rfl : next = none := hcut
    have hrest : unpackLoop mem body.length .percent [ofChar 'L'] (0 + 1) = ⟨[.num v], reads⟩ := by
      rw [unpackLoop, if_neg (by omega), hL]
      simp only [hread]
    obtain ⟨-, hdrop⟩ := hmem.split (n := 1) hpos
    rw [Holds, List.length_drop, hn, Nat.add_sub_cancel_left] at hdrop
    rw [Nat.zero_shiftLeft, Nat.zero_mul, hread, hdrop] at hval
    have hv : v = numeral (body.drop 1) * 256 ^ (8 - n) := hval.trans (Nat.zero_add _)
    have hpow : 9 - (1 + n) = 8 - n := by omega
    rw [netUnpack, peerOffline_chars, unpackLoop_percent rfl, heq, unpackLoop_percent rfl, hrest,
      cutOffAddr, if_neg hone, hn, hpow, ← hv]
    rfl

end Client

/-! ## Both programs -/

section Both

variable {mem : ℕ → UInt8} {body : List UInt8}

/-- When a message that is cut off changes nothing and is not relayed.  For the tracker: a KNOCK
never.  For a client, which does not drop it for its sender: only a PEER_OFFLINE, when there is a
table and no peer has the address that is unpacked. -/
theorem malformed_ignored_iff (hmem : Holds mem 0 body) (hne : body ≠ []) (fromaddr : HostAddr) :
    (∀ (p : Peers) (listenport : UInt16), p.WF → (mem 0).toNat = MsgNo.knock →
      decode .none Fmt.knock body = none →
      handleReceived logSend p [] fromaddr mem body.length listenport ≠ .ok (p, [])) ∧
    ∀ (gTrackerAddr : HostAddr) (c : Client) (u : Uninit) (fmt : List UInt8), c.WF →
      clientFmt (mem 0).toNat = some fmt → decode .none fmt body = none →
      AcceptsFrom gTrackerAddr c fromaddr (mem 0).toNat →
      (clientReceive gTrackerAddr c fromaddr mem body.length u = .ok c ↔
        (mem 0).toNat = MsgNo.peerOffline ∧ c.peers.gPeers.cap ≠ 0 ∧
          c.peers.at (cutOffAddr body u.peerFromaddr) = none) := by
  constructor
  · intro p listenport hp hmsgno _
    simp only [handleReceived, unpackTrackerMsg, if_pos hmsgno]
    exact knock_changes hp
  · intro gTrackerAddr c u fmt hc hfmt hdec hacc
    rw [AcceptsFrom] at hacc
    by_cases honline : (mem 0).toNat = MsgNo.peerOnline
    · have hno : ¬ (mem 0).toNat = MsgNo.chattext := by rw [honline]; decide
      have hother : ¬ (mem 0).toNat = MsgNo.peerOffline := by rw [honline]; decide
      rw [if_neg hno] at hacc
      simp only [clientReceive, unpackClientMsg, if_pos honline]
      rw [clientHandleMsg_unchanged_iff hc.peers (fun _ _ => hacc) fun _ => ClientMsg.noConfusion]
      refine iff_of_false ?_ fun h => hother h.1
      rintro ⟨a, hm, -⟩
      cases hm
    by_cases hoffline : (mem 0).toNat = MsgNo.peerOffline
    · have hno : ¬ (mem 0).toNat = MsgNo.chattext := by rw [hoffline]; decide
      rw [if_neg hno] at hacc
      rw [clientFmt, if_neg honline, if_pos hoffline] at hfmt
      obtain rfl := Option.some.inj hfmt
      simp only [clientReceive, unpackClientMsg, if_neg honline, if_pos hoffline,
        unpack_cutOffAddr hmem hne (length_lt_of_decode hdec)]
      rw [clientHandleMsg_unchanged_iff hc.peers (fun _ _ => hacc) fun _ => ClientMsg.noConfusion]
      constructor
      · rintro ⟨a, hm, hcap, hq⟩
        cases hm
        exact ⟨hoffline, hcap, hq⟩
      · rintro ⟨-, hcap, hq⟩
        exact ⟨_, rfl, hcap, hq⟩
    by_cases hchat : (mem 0).toNat = MsgNo.chattext
    · rw [if_pos hchat] at hacc
      simp only [clientReceive, unpackClientMsg, if_neg honline, if_neg hoffline, if_pos hchat]
      rw [clientHandleMsg_unchanged_iff hc.peers (fun _ => ClientMsg.noConfusion) fun _ _ => hacc]
      refine iff_of_false ?_ fun h => hoffline h.1
      rintro ⟨a, hm, -⟩
      cases hm
    · rw [clientFmt, if_neg honline, if_neg hoffline, if_neg hchat] at hfmt
      cases hfmt

/-- A PEER_OFFLINE of one byte that finds the address 7 in its variable is ignored by a client
that knows only the peer with the address 5. -/
theorem malformed_ignored_of_offline : ∃ c : Client, c.peers.addrs = [5] ∧
    (clientReceive 1 c 1 (fun i => [2].getD i 0) [2].length ⟨7, 0⟩ = .ok c ↔
      2 = MsgNo.peerOffline ∧ c.peers.gPeers.cap ≠ 0 ∧ c.peers.at (cutOffAddr [2] 7) = none) ∧
    clientReceive 1 c 1 (fun i => [2].getD i 0) [2].length ⟨7, 0⟩ = .ok c := by
  obtain ⟨c, hrun, haddrs, hok⟩ : ∃ c, run (clientStep 1) clientInit
      [.recv 1 (.peer (.online CStr.empty CStr.empty 5 6))] = .ok c ∧ c.peers.addrs = [5] ∧
      clientReceive 1 c 1 (fun i => [2].getD i 0) [2].length ⟨7, 0⟩ = .ok c :=
    ⟨_, rfl, rfl, rfl⟩
  refine ⟨c, haddrs, ?_, hok⟩
  exact (malformed_ignored_iff (holds_getD [2]) (List.cons_ne_nil _ _) 1).2 1 c ⟨7, 0⟩
    Fmt.peerOffline (clientRun_wf clientInit_wf hrun) rfl rfl rfl

/-- A KNOCK of one byte makes a record for its sender, and a PEER_ONLINE of one byte makes one
with the address that the uninitialised variable has. -/
theorem short_messages_make_peers :
    (decode .none Fmt.knock [3] = none ∧ ∃ p, handleReceived logSend peersInit [] 5
        (fun i => [3].getD i 0) [3].length 80 = .ok (p, []) ∧ p.addrs = [5]) ∧
    decode .none Fmt.peerOnline [1] = none ∧
      ∃ c, clientReceive 1 clientInit 1 (fun i => [1].getD i 0) [1].length ⟨7, 0⟩ = .ok c ∧
        c.peers.addrs = [7] := by
  exact ⟨⟨rfl, _, rfl, rfl⟩, rfl, _, rfl, rfl⟩

end Both

end TinyMsg
