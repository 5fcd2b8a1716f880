import TinyMsg.Cnet.Codec
import TinyMsg.Tracker.Loop
import TinyMsg.Tracker.Replication

/-!
# The bytes of a relayed KNOCK

The PEER_ONLINE message that announces a peer repeats the names of its KNOCK and is 14 bytes
longer.  Its length passes through two 16-bit variables, the prefix that `NetPackLenV` writes and
the parameter `msglen` of `send_msg_to_peers`, which counts the prefix as well.  So what is handed
to `send_msg_to_hostaddr` is the whole frame exactly when the frame, prefix included, is shorter
than 65536 bytes; a longer one comes from a KNOCK that just fits its own frame, and of it no more
than 15 bytes are handed on.
-/

namespace TinyMsg

/-- The bytes are one complete frame, and `NetUnpack` of its body gives the message. -/
def IsFrameOf (bytes : List UInt8) (msg : PeerMsg) : Prop :=
  ∃ body, body.length < 2 ^ 16 ∧ bytes = frame 2 body ∧
    ∀ mem init, Holds mem 0 body → List.Forall₂ FreshOutput (fmtSpecs .none msg.fmt) init →
      List.Forall₂ Restored msg.args (outputs (netUnpack mem body.length msg.fmt).fields init)

/-- A send of which the bytes that `send_msg_to_hostaddr` is called with go on record. -/
def logHanded (log : List (Send × List UInt8)) (x : Send) : Exec (List (Send × List UInt8)) := do
  let msgbytes ← packPeerMsg x.msg
  .ok (log ++ [(x, msgbytes)])

/-- The bytes that `send_msg_to_peers` has handed on for the record of an address. -/
def handedFor (log : List (Send × List UInt8)) (a : HostAddr) : List UInt8 :=
  (log.filter fun x => x.1.kind = .broadcast ∧ x.1.record = a).flatMap Prod.snd

/-! ## Packing -/

section Packing

variable {msg : PeerMsg} {aliasStr hostname : CStr} {fromaddr toaddr : HostAddr}

/-- The body of a message. -/
def PeerMsg.body (msg : PeerMsg) : List UInt8 := packedBytes .none msg.fmt msg.args

/-- The bytes of a message that `send_msg_to_hostaddr` is called with. -/
def PeerMsg.handed (msg : PeerMsg) : List UInt8 := (packPeerMsg msg).toOption.getD []

theorem packPeerMsg_eq (msg : PeerMsg) : packPeerMsg msg = .ok msg.handed := by
  obtain ⟨bytes, hpack⟩ := packPeerMsg_ok msg
  rw [PeerMsg.handed, hpack]
  rfl

/-- A message that leaves room for the prefix is handed on as a frame. -/
theorem handed_of_lt (h : msg.body.length + 2 < 2 ^ 16) : msg.handed = frame 2 msg.body := by
  obtain ⟨sendbuf, hpack, hbuf⟩ := netPackLenV_of_lt msg.args_typed (Nat.lt_of_add_right_lt h)
    (bufferNew 1024)
  rw [bufferNew_contents, List.nil_append] at hbuf
  have hlen : sendbuf.len = msg.body.length + 2 := by
    rw [← sendbuf.length_contents, hbuf, List.length_append, length_bigEndian, PeerMsg.body,
      Nat.add_comm]
  have hrun : packPeerMsg msg = .ok (sendbuf.contents.take (sendbuf.len % 2 ^ 16)) := by
    rw [packPeerMsg, hpack, ok_bind]
  rw [packPeerMsg_eq, hlen, Nat.mod_eq_of_lt h, ← hlen, ← sendbuf.length_contents,
    List.take_length, hbuf] at hrun
  exact Except.ok.inj hrun

/-- Of a longer message some bytes are handed on, as many as the 16-bit length says at most. -/
theorem length_handed_le (msg : PeerMsg) :
    msg.handed.length ≤ (msg.body.length + 2) % 2 ^ 16 := by
  obtain ⟨sendbuf, hpack, hbuf⟩ := netPackLenV_eq msg.args_typed (bufferNew 1024)
  have hlen : sendbuf.len = msg.body.length + 2 := by
    rw [bufferNew_contents, bufferNew_len, List.nil_append, Nat.zero_add] at hbuf
    rw [← sendbuf.length_contents, hbuf, length_overwrite, List.length_append, PeerMsg.body,
      Nat.add_comm]
    · rfl
    · rw [List.length_append, length_bigEndian, List.length_cons, List.length_singleton]
      have hle := Nat.mod_le (packedBytes .none msg.fmt msg.args).length (2 ^ 16)
      omega
  have hrun : packPeerMsg msg = .ok (sendbuf.contents.take (sendbuf.len % 2 ^ 16)) := by
    rw [packPeerMsg, hpack, ok_bind]
  rw [packPeerMsg_eq, hlen] at hrun
  rw [Except.ok.inj hrun]
  exact List.length_take_le _ _

/-- A message number and two names that fit their lengths. -/
theorem length_packedBytes_names (n : ℕ) (halias : strlen aliasStr < 2 ^ 16)
    (hhostname : strlen hostname < 2 ^ 16) (fmt : List UInt8) (args : List Arg) :
    (packedBytes .none (ofChars "%b%s%s".toList ++ fmt)
        (.num n :: .str aliasStr :: .str hostname :: args)).length =
      strlen aliasStr + strlen hostname + 5 + (packedBytes .none fmt args).length := by
  have hb : specOf (ofChar 'b') = .num 1 := by decide
  have hs : specOf (ofChar 's') = .str := by decide
  have hfmt : ofChars "%b%s%s".toList ++ fmt = ofChar '%' :: ofChar 'b' :: ofChar '%' ::
    ofChar 's' :: ofChar '%' :: ofChar 's' :: fmt := rfl
  have halias' : slen aliasStr = strlen aliasStr := Nat.mod_eq_of_lt halias
  have hhostname' : slen hostname = strlen hostname := Nat.mod_eq_of_lt hhostname
  rw [hfmt, packedBytes_percent rfl, packedBytes_num hb, packedBytes_percent rfl,
    packedBytes_str hs, packedBytes_percent rfl, packedBytes_str hs]
  simp only [List.length_append, length_bigEndian, length_take_slen]
  omega

/-- The PEER_ONLINE message has 21 bytes besides the names. -/
theorem length_body_online (halias : strlen aliasStr < 2 ^ 16)
    (hhostname : strlen hostname < 2 ^ 16) :
    (PeerMsg.online aliasStr hostname fromaddr toaddr).body.length =
      strlen aliasStr + strlen hostname + 21 :=
  length_packedBytes_names _ halias hhostname (ofChars "%L%L".toList)
    [.num fromaddr, .num toaddr]

/-- A frame of a PEER_ONLINE message has more than 15 bytes: its last field begins inside. -/
theorem IsFrameOf.length_gt {bytes : List UInt8}
    (h : IsFrameOf bytes (.online aliasStr hostname fromaddr toaddr)) : 15 < bytes.length := by
  obtain ⟨body, -, rfl, hunpack⟩ := h
  by_contra hshort
  rw [frame, List.length_append, length_bigEndian] at hshort
  obtain ⟨fields, hfields⟩ : ∃ fields, (netUnpack (fun i => body.getD i 0) body.length
      Fmt.peerOnline).fields = fields := ⟨_, rfl⟩
  have hfew : fields.length ≤ 4 := by
    by_contra hmany
    rw [← hfields] at hmany
    have hbegins := unpackLoop_begins (not_le.mp hmany)
    rw [fmtSpecs_peerOnline] at hbegins
    change ((13 : ℕ) : ℤ) < _ at hbegins
    omega
  -- a variable that is not written may hold any other address
  have hinit : List.Forall₂ FreshOutput (fmtSpecs .none Fmt.peerOnline)
      [.num 0, .str stringNew0, .str stringNew0, .num 0, .num (toaddr + 1)] := by
    rw [fmtSpecs_peerOnline]
    exact .cons trivial (.cons rfl (.cons rfl (.cons trivial (.cons trivial .nil))))
  have hall := hunpack _ _ (holds_getD body) hinit
  have hlast : (outputs fields [.num 0, .str stringNew0, .str stringNew0, .num 0,
      .num (toaddr + 1)]).getD 4 (.num 0) = .num (toaddr + 1) := by
    rw [getD_outputs, List.getD_eq_default _ _ hfew]
    rfl
  have hrestored : Restored (.num toaddr) (.num (toaddr + 1)) := by
    rw [← hlast, ← hfields]
    exact forall₂_getD hall rfl _
  exact absurd hrestored (Nat.succ_ne_self toaddr)

/-- A message that is shorter than 65536 bytes with its prefix goes out as a frame of it. -/
theorem isFrameOf_handed (hfits : ArgsMatch msg.fmt msg.args)
    (h : msg.body.length + 2 < 2 ^ 16) : IsFrameOf msg.handed msg :=
  ⟨msg.body, Nat.lt_of_add_right_lt h, handed_of_lt h, fun _ _ hmem hinit =>
    unpackLoop_packedBytes hfits hinit hmem (by rw [Nat.zero_add]; rfl)⟩

end Packing

/-! ## The announcement of a KNOCK -/

section Relay

variable {p p' : Peers} {log : List (Send × List UInt8)} {mem : ℕ → UInt8}
  {body aliasBytes hostname : List UInt8} {listenport listenport₀ : UInt16}
  {fromaddr toaddr a : HostAddr} {msg : PeerMsg} {q : Peer}

/-- What goes on record. -/
theorem run_logHanded (log : List (Send × List UInt8)) (xs : List Send) :
    run logHanded log xs = .ok (log ++ xs.map fun x => (x, x.msg.handed)) := by
  induction xs generalizing log with
  | nil => rw [run_nil, List.map_nil, List.append_nil]
  | cons x xs ih =>
    rw [run_cons, logHanded, packPeerMsg_eq, ok_bind, ok_bind, ih, List.map_cons,
      List.append_assoc, List.singleton_append]

/-- Every active peer is handed the announcement once. -/
theorem handedFor_knock (hp : p.WF) (hq : q ∈ p.active) (msg : PeerMsg)
    (fromaddr toaddr : HostAddr) :
    handedFor ((broadcasts p msg ++ catchUps p fromaddr toaddr).map fun x => (x, x.msg.handed))
      q.fromaddr = msg.handed := by
  have hcatch : ((catchUps p fromaddr toaddr).map fun x => (x, x.msg.handed)).filter
      (fun x => x.1.kind = .broadcast ∧ x.1.record = q.fromaddr) = [] := by
    refine List.filter_eq_nil_iff.mpr fun x hx => ?_
    obtain ⟨y, hy, rfl⟩ := List.mem_map.mp hx
    obtain ⟨r, -, rfl⟩ := List.mem_map.mp hy
    simp [catchUpWith]
  have honce : (p.active.filter fun r => r.fromaddr = q.fromaddr) = [q] := by
    rw [filter_key_eq hp.active_nodup, lookup_of_mem hp.active_nodup hq]
    rfl
  have hbroad : ((broadcasts p msg).map fun x => (x, x.msg.handed)).filter
      (fun x => x.1.kind = .broadcast ∧ x.1.record = q.fromaddr) =
        [(broadcastTo msg q, msg.handed)] := by
    rw [broadcasts, List.map_map, List.filter_map]
    have hsame : (p.active.filter ((fun x : Send × List UInt8 =>
        decide (x.1.kind = .broadcast ∧ x.1.record = q.fromaddr)) ∘
          ((fun x => (x, x.msg.handed)) ∘ broadcastTo msg))) = [q] := by
      rw [← honce]
      refine List.filter_congr fun r _ => decide_eq_decide.mpr ?_
      simp [broadcastTo]
    rw [hsame]
    rfl
  rw [handedFor, List.map_append, List.filter_append, hcatch, hbroad]
  simp

/-- What an address and two names are packed into. -/
theorem online_argsMatch {aliasStr hostname : CStr} (halias : strlen aliasStr < 2 ^ 16)
    (hhostname : strlen hostname < 2 ^ 16) (hfrom : fromaddr < 2 ^ 64) (hto : toaddr < 2 ^ 64) :
    ArgsMatch Fmt.peerOnline (PeerMsg.online aliasStr hostname fromaddr toaddr).args := by
  rw [ArgsMatch, fmtSpecs_peerOnline]
  have hno : MsgNo.peerOnline < 256 ^ 1 := by decide
  exact .cons hno (.cons halias (.cons hhostname (.cons hfrom (.cons hto .nil))))

/-- A `char *` into some bytes has no more of them. -/
theorem strlen_ofBytes_le (bs : List UInt8) : strlen (CStr.ofBytes bs) ≤ bs.length :=
  (List.takeWhile_sublist _).length_le

/-- A PEER_ONLINE message whose names fit a KNOCK is handed on as a frame exactly when it is
shorter than 65536 bytes with its prefix. -/
theorem isFrameOf_handed_iff {aliasStr hostname : CStr}
    (hnames : strlen aliasStr + strlen hostname + 7 < 2 ^ 16) (hfrom : fromaddr < 2 ^ 64)
    (hto : toaddr < 2 ^ 64) :
    IsFrameOf (PeerMsg.online aliasStr hostname fromaddr toaddr).handed
        (.online aliasStr hostname fromaddr toaddr) ↔
      strlen aliasStr + strlen hostname + 23 < 2 ^ 16 := by
  have halias : strlen aliasStr < 2 ^ 16 := by omega
  have hhostname : strlen hostname < 2 ^ 16 := by omega
  have hlen : (PeerMsg.online aliasStr hostname fromaddr toaddr).body.length =
      strlen aliasStr + strlen hostname + 21 := length_body_online halias hhostname
  constructor
  · intro hframe
    by_contra hlong
    have hgt := hframe.length_gt
    have hle := length_handed_le (PeerMsg.online aliasStr hostname fromaddr toaddr)
    rw [hlen] at hle
    omega
  · intro hshort
    refine isFrameOf_handed (online_argsMatch halias hhostname hfrom hto) ?_
    rw [hlen]
    omega

/-- What is handed to the active peers for a KNOCK. -/
theorem handedFor_of_knock (hp : p.WF) (hmem : Holds mem 0 body)
    (hdec : decode .none Fmt.knock body =
      some [.num MsgNo.knock, .str aliasBytes, .str hostname, .num listenport.toNat])
    (hrun : handleReceived logHanded p [] fromaddr mem body.length listenport₀ = .ok (p', log))
    (hq : q ∈ p.active) :
    handedFor log q.fromaddr = (PeerMsg.online (CStr.ofBytes aliasBytes) (CStr.ofBytes hostname)
      fromaddr (knockToaddr fromaddr listenport)).handed := by
  rw [handleReceived, unpackTrackerMsg_knock hmem hdec, UInt16.ofNat_toNat] at hrun
  obtain ⟨hsends, -⟩ := (handleMsg_knock hp).mp hrun
  rw [run_logHanded, List.nil_append] at hsends
  obtain rfl := Except.ok.inj hsends
  exact handedFor_knock hp hq _ _ _

/-- The names of a KNOCK fit it. -/
theorem strlen_names_lt (hsize : body.length < 2 ^ 16)
    (hdec : decode .none Fmt.knock body =
      some [.num MsgNo.knock, .str aliasBytes, .str hostname, .num listenport.toNat]) :
    strlen (CStr.ofBytes aliasBytes) + strlen (CStr.ofBytes hostname) + 7 < 2 ^ 16 := by
  have hnames := decode_size hdec
  rw [fmtSpecs_knock] at hnames
  simp only [List.zipWith_cons_cons, List.zipWith_nil_right, List.sum_cons, List.sum_nil,
    Spec.size] at hnames
  have halias := strlen_ofBytes_le aliasBytes
  have hhostname := strlen_ofBytes_le hostname
  omega

/-- Every active peer is handed the announcement of a KNOCK as one whole frame exactly when there
are none, or when the names leave room for the 23 other bytes of the frame in 65535. -/
theorem relayed_whole_iff (hp : p.WF) (hmem : Holds mem 0 body) (hsize : body.length < 2 ^ 16)
    (hdec : decode .none Fmt.knock body =
      some [.num MsgNo.knock, .str aliasBytes, .str hostname, .num listenport.toNat])
    (hfrom : fromaddr < 2 ^ 64)
    (hrun : handleReceived logHanded p [] fromaddr mem body.length listenport₀ = .ok (p', log)) :
    (∀ q ∈ p.active, IsFrameOf (handedFor log q.fromaddr)
      (.online (CStr.ofBytes aliasBytes) (CStr.ofBytes hostname) fromaddr
        (knockToaddr fromaddr listenport))) ↔
      p.active = [] ∨
        strlen (CStr.ofBytes aliasBytes) + strlen (CStr.ofBytes hostname) + 23 < 2 ^ 16 := by
  have hiff := isFrameOf_handed_iff (strlen_names_lt hsize hdec) hfrom
    (hostAddrFromSockAddr_lt { sockAddrFromHostAddr fromaddr with sinPort := htons listenport })
  have hhanded := fun q hq => handedFor_of_knock (q := q) hp hmem hdec hrun hq
  constructor
  · intro hall
    refine or_iff_not_imp_left.mpr fun hsome => ?_
    obtain ⟨q, hq⟩ := List.exists_mem_of_ne_nil _ hsome
    have hframe := hall q hq
    rw [hhanded q hq] at hframe
    exact hiff.mp hframe
  · rintro (hnone | hshort) q hq
    · rw [hnone] at hq
      exact absurd hq List.not_mem_nil
    · rw [hhanded q hq]
      exact hiff.mpr hshort

/-- The KNOCK with these names. -/
def knockBody (aliasStr hostname : CStr) (listenport : UInt16) : List UInt8 :=
  packedBytes .none Fmt.knock
    [.num MsgNo.knock, .str aliasStr, .str hostname, .num listenport.toNat]

theorem length_knockBody {aliasStr hostname : CStr} (halias : strlen aliasStr < 2 ^ 16)
    (hhostname : strlen hostname < 2 ^ 16) (listenport : UInt16) :
    (knockBody aliasStr hostname listenport).length = strlen aliasStr + strlen hostname + 7 :=
  length_packedBytes_names _ halias hhostname (ofChars "%w".toList) [.num listenport.toNat]

theorem decode_knockBody {aliasStr hostname : CStr} (halias : strlen aliasStr < 2 ^ 16)
    (hhostname : strlen hostname < 2 ^ 16) (listenport : UInt16) :
    decode .none Fmt.knock (knockBody aliasStr hostname listenport) =
      some [.num MsgNo.knock, .str aliasStr.bytes, .str hostname.bytes,
        .num listenport.toNat] := by
  have hargs : List.Forall₂ ArgFits (fmtSpecs .none Fmt.knock)
      [.num MsgNo.knock, .str aliasStr, .str hostname, .num listenport.toNat] := by
    rw [fmtSpecs_knock]
    have hno : MsgNo.knock < 256 ^ 1 := by decide
    exact .cons hno (.cons halias (.cons hhostname (.cons listenport.toNat_lt .nil)))
  exact decode_packedBytes hargs

/-- A KNOCK is handled when `create_peer` comes back. -/
theorem handleReceived_knock {hpeer : TMHandle} (listenport₀ : UInt16) (hp : p.WF)
    (hmem : Holds mem 0 body)
    (hdec : decode .none Fmt.knock body =
      some [.num MsgNo.knock, .str aliasBytes, .str hostname, .num listenport.toNat])
    (hcreate : createPeer p (CStr.ofBytes aliasBytes) (CStr.ofBytes hostname) fromaddr
      (knockToaddr fromaddr listenport) = .ok (p', hpeer)) :
    ∃ log, handleReceived logHanded p [] fromaddr mem body.length listenport₀ = .ok (p', log) := by
  have hunpack := unpackTrackerMsg_knock hmem hdec listenport₀
  have hok := (handleMsg_knock hp).mpr ⟨run_logHanded [] _, hpeer, hcreate⟩
  rw [UInt16.ofNat_toNat] at hunpack
  refine ⟨_, Eq.trans ?_ hok⟩
  rw [handleReceived, hunpack]

/-- A table with one active peer, which another peer can join. -/
theorem exists_one_peer : ∃ p : Peers, p.WF ∧ p.active = [peerNew 1 CStr.empty CStr.empty 1 2] ∧
    ∀ aliasStr, ∃ p', createPeer p aliasStr CStr.empty 5 (knockToaddr 5 80) = .ok (p', 2) := by
  obtain ⟨p, hp, hactive, hjoin⟩ : ∃ p : Peers,
      createPeer peersInit CStr.empty CStr.empty 1 2 = .ok (p, 1) ∧
      p.active = [peerNew 1 CStr.empty CStr.empty 1 2] ∧
      ∀ aliasStr, ∃ p', createPeer p aliasStr CStr.empty 5 (knockToaddr 5 80) = .ok (p', 2) :=
    ⟨_, rfl, rfl, fun _ => ⟨_, rfl⟩⟩
  exact ⟨p, createPeer_wf peersInit_wf hp, hactive, hjoin⟩

/-- A peer with the alias "a" is announced to another one. -/
theorem relayed_whole_of_knock : ∃ p : Peers, p.active = [peerNew 1 CStr.empty CStr.empty 1 2] ∧
    ∃ p' log, handleReceived logHanded p [] 5
        (fun i => (knockBody (CStr.ofBytes [97]) CStr.empty 80).getD i 0)
        (knockBody (CStr.ofBytes [97]) CStr.empty 80).length 0 = .ok (p', log) ∧
      ((∀ q ∈ p.active, IsFrameOf (handedFor log q.fromaddr)
          (.online (CStr.ofBytes [97]) (CStr.ofBytes []) 5 (knockToaddr 5 80))) ↔
        p.active = [] ∨ strlen (CStr.ofBytes [97]) + strlen (CStr.ofBytes []) + 23 < 2 ^ 16) := by
  obtain ⟨p, hp, hactive, hjoin⟩ := exists_one_peer
  obtain ⟨p', hcreate⟩ := hjoin (CStr.ofBytes [97])
  have hmem := holds_getD (knockBody (CStr.ofBytes [97]) CStr.empty 80)
  have hdec : decode .none Fmt.knock (knockBody (CStr.ofBytes [97]) CStr.empty 80) =
      some [.num MsgNo.knock, .str [97], .str [], .num (80 : UInt16).toNat] :=
    decode_knockBody (by decide) (by decide) 80
  obtain ⟨log, hrun⟩ := handleReceived_knock 0 hp hmem hdec hcreate
  exact ⟨p, hactive, p', log, hrun,
    relayed_whole_iff hp hmem (by decide) hdec (by decide) hrun⟩

/-- The shortest alias that is too long to be announced. -/
def longAlias : CStr where
  bytes := List.replicate 65513 97
  noNul := fun h => absurd (List.eq_of_mem_replicate h) (by decide)

/-- A KNOCK with that alias and no hostname fits its own frame, but the peer at address 1 is not
handed a frame of the announcement. -/
theorem long_alias_cut : ∃ p : Peers, p.active = [peerNew 1 CStr.empty CStr.empty 1 2] ∧
    (knockBody longAlias CStr.empty 80).length < 2 ^ 16 ∧
    ∃ p' log, handleReceived logHanded p [] 5
        (fun i => (knockBody longAlias CStr.empty 80).getD i 0)
        (knockBody longAlias CStr.empty 80).length 0 = .ok (p', log) ∧
      ¬ IsFrameOf (handedFor log 1) (.online longAlias CStr.empty 5 (knockToaddr 5 80)) := by
  obtain ⟨p, hp, hactive, hjoin⟩ := exists_one_peer
  obtain ⟨p', hcreate⟩ := hjoin longAlias
  have hlen : strlen longAlias = 65513 := List.length_replicate
  have hfits : strlen longAlias < 2 ^ 16 := by omega
  have hmem := holds_getD (knockBody longAlias CStr.empty 80)
  have hdec := decode_knockBody hfits (by decide : strlen CStr.empty < 2 ^ 16) 80
  have hcreate' : createPeer p (CStr.ofBytes longAlias.bytes) (CStr.ofBytes CStr.empty.bytes) 5
      (knockToaddr 5 80) = .ok (p', 2) := by
    rw [CStr.ofBytes_bytes, CStr.ofBytes_bytes]
    exact hcreate
  obtain ⟨log, hrun⟩ := handleReceived_knock 0 hp hmem hdec hcreate'
  have hhanded := handedFor_of_knock (q := peerNew 1 CStr.empty CStr.empty 1 2) hp hmem hdec hrun
    (by rw [hactive]; exact List.mem_singleton_self _)
  rw [CStr.ofBytes_bytes, CStr.ofBytes_bytes] at hhanded
  refine ⟨p, hactive, ?_, p', log, hrun, ?_⟩
  · rw [length_knockBody hfits (by decide), hlen]
    decide
  · change ¬ IsFrameOf (handedFor log (peerNew 1 CStr.empty CStr.empty 1 2).fromaddr) _
    have hnames : strlen longAlias + strlen CStr.empty + 7 < 2 ^ 16 := by
      rw [hlen]
      decide
    have hiff : IsFrameOf (PeerMsg.online longAlias CStr.empty 5 (knockToaddr 5 80)).handed
        (.online longAlias CStr.empty 5 (knockToaddr 5 80)) ↔ _ :=
      isFrameOf_handed_iff hnames (by decide) (by decide)
    rw [hhanded, hiff, hlen]
    decide

end Relay

end TinyMsg
