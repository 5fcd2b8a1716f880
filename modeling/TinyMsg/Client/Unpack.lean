import TinyMsg.Client.Step
import TinyMsg.Cnet.Codec

/-!
# The messages that the client unpacks

`handle_msg` of the client is given a pointer to the received bytes and unpacks them into its
variables.  `NetUnpack` does not say how far it got, so a variable that it did not write is used
with the value it had: `StringNew0` for a `String`, and anything for `peer_fromaddr` and
`peer_toaddr`, which nothing initialises.
-/

namespace TinyMsg

/-- The variables of `handle_msg` that nothing initialises. -/
structure Uninit where
  /-- `peer_fromaddr` -/
  peerFromaddr : HostAddr
  /-- `peer_toaddr` -/
  peerToaddr : HostAddr

/-- The message that `handle_msg` unpacks; any other message number is ignored. -/
def unpackClientMsg (msgbytes : ℕ → UInt8) (msglen : ℕ) (u : Uninit) : Option ClientMsg :=
  let msgno := (msgbytes 0).toNat
  if msgno = MsgNo.peerOnline then
    let fields := (netUnpack msgbytes msglen Fmt.peerOnline).fields
    some (.peer (.online (fields.getD 1 (.str stringNew0)).asStr.cstr
      (fields.getD 2 (.str stringNew0)).asStr.cstr (fields.getD 3 (.num u.peerFromaddr)).asNum
      (fields.getD 4 (.num u.peerToaddr)).asNum))
  else if msgno = MsgNo.peerOffline then
    let fields := (netUnpack msgbytes msglen Fmt.peerOffline).fields
    some (.peer (.offline (fields.getD 1 (.num u.peerFromaddr)).asNum))
  else if msgno = MsgNo.chattext then
    let fields := (netUnpack msgbytes msglen Fmt.chattext).fields
    some (.chattext (fields.getD 1 (.str stringNew0)).asStr)
  else none

/-- `handle_msg` of the client, given the received bytes. -/
def clientReceive (gTrackerAddr : HostAddr) (c : Client) (fromaddr : HostAddr)
    (msgbytes : ℕ → UInt8) (msglen : ℕ) (u : Uninit) : Exec Client :=
  match unpackClientMsg msgbytes msglen u with
  | none => .ok c
  | some m => clientHandleMsg gTrackerAddr c fromaddr m

/-! ## Messages that are long enough -/

/-- The message of the tracker that the bytes are, if they are one that is long enough. -/
def decodePeerMsg (body : List UInt8) : Option PeerMsg :=
  match decode .none Fmt.peerOnline body, decode .none Fmt.peerOffline body with
  | some [.num 1, .str aliasBytes, .str hostname, .num peerFromaddr, .num peerToaddr], _ =>
    some (.online (CStr.ofBytes aliasBytes) (CStr.ofBytes hostname) peerFromaddr peerToaddr)
  | _, some [.num 2, .num peerFromaddr] => some (.offline peerFromaddr)
  | _, _ => none

section Unpack

variable {mem : ℕ → UInt8} {body : List UInt8} {m : PeerMsg}

/-- A message of the tracker that is long enough is unpacked to its values. -/
theorem unpackClientMsg_peer (hmem : Holds mem 0 body) (hdec : decodePeerMsg body = some m)
    (u : Uninit) : unpackClientMsg mem body.length u = some (.peer m) := by
  rw [decodePeerMsg] at hdec
  split at hdec
  case h_1 aliasBytes hostname peerFromaddr peerToaddr honline =>
    obtain rfl := Option.some.inj hdec
    have hmsgno : (mem 0).toNat = MsgNo.peerOnline :=
      (Value.num.inj (Option.some.inj (decode_byte honline hmem))).symm
    have hinit : List.Forall₂ FreshOutput (fmtSpecs .none Fmt.peerOnline)
        [.num 0, .str stringNew0, .str stringNew0, .num u.peerFromaddr, .num u.peerToaddr] := by
      rw [fmtSpecs_peerOnline]
      exact .cons trivial (.cons rfl (.cons rfl (.cons trivial (.cons trivial .nil))))
    have halias := netUnpack_value honline hinit hmem (k := 1) rfl rfl
    have hhostname := netUnpack_value honline hinit hmem (k := 2) rfl rfl
    have hfrom := netUnpack_value honline hinit hmem (k := 3) rfl rfl
    have hto := netUnpack_value honline hinit hmem (k := 4) rfl rfl
    simp only [unpackClientMsg, if_pos hmsgno, halias.asStr_cstr, hhostname.asStr_cstr,
      hfrom.asNum, hto.asNum]
  case h_2 peerFromaddr hoffline _ =>
    obtain rfl := Option.some.inj hdec
    have hmsgno : (mem 0).toNat = MsgNo.peerOffline :=
      (Value.num.inj (Option.some.inj (decode_byte hoffline hmem))).symm
    have hinit : List.Forall₂ FreshOutput (fmtSpecs .none Fmt.peerOffline)
        [.num 0, .num u.peerFromaddr] := by
      rw [fmtSpecs_peerOffline]
      exact .cons trivial (.cons trivial .nil)
    have hfrom := netUnpack_value hoffline hinit hmem (k := 1) rfl rfl
    have hother : ¬ (mem 0).toNat = MsgNo.peerOnline := by
      rw [hmsgno]
      decide
    simp only [unpackClientMsg, if_neg hother, if_pos hmsgno, hfrom.asNum]
  case h_3 => cases hdec

/-- Only messages with their numbers are unpacked as messages of the tracker. -/
theorem msgno_of_unpackClientMsg {msglen : ℕ} {u : Uninit}
    (h : unpackClientMsg mem msglen u = some (.peer m)) :
    (mem 0).toNat = MsgNo.peerOnline ∨ (mem 0).toNat = MsgNo.peerOffline := by
  by_contra hno
  obtain ⟨honline, hoffline⟩ := not_or.mp hno
  simp only [unpackClientMsg, if_neg honline, if_neg hoffline] at h
  split at h <;> cases h

end Unpack

end TinyMsg
