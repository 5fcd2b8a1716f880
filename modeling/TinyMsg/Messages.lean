import TinyMsg.Cnet.HostAddr
import TinyMsg.Cnet.Pack

/-!
# The messages of `tmcommon.h`

The numbers and the formats of the messages that the tracker and the clients exchange, and the
messages with their fields unpacked.
-/

namespace TinyMsg

/-! ## Message numbers -/

namespace MsgNo

/-- `PEER_ONLINE` -/
def peerOnline : ℕ := 1

/-- `PEER_OFFLINE` -/
def peerOffline : ℕ := 2

/-- `KNOCK` -/
def knock : ℕ := 3

/-- `BYE` -/
def bye : ℕ := 4

/-- `CHATTEXT` -/
def chattext : ℕ := 5

end MsgNo

/-! ## Formats -/

namespace Fmt

/-- The format of `CHATTEXT`. -/
def chattext : List UInt8 := ofChars "%b%s".toList

/-- The format of `KNOCK`. -/
def knock : List UInt8 := ofChars "%b%s%s%w".toList

/-- The format of `PEER_ONLINE`. -/
def peerOnline : List UInt8 := ofChars "%b%s%s%L%L".toList

/-- The format of `PEER_OFFLINE`. -/
def peerOffline : List UInt8 := ofChars "%b%L".toList

end Fmt

theorem fmtSpecs_chattext : fmtSpecs .none Fmt.chattext = [.num 1, .str] := by decide

theorem fmtSpecs_knock : fmtSpecs .none Fmt.knock = [.num 1, .str, .str, .num 2] := by decide

theorem fmtSpecs_peerOnline :
    fmtSpecs .none Fmt.peerOnline = [.num 1, .str, .str, .num 8, .num 8] := by decide

theorem fmtSpecs_peerOffline : fmtSpecs .none Fmt.peerOffline = [.num 1, .num 8] := by decide

/-! ## Unpacked messages -/

/-- A message to the tracker, as unpacked. -/
inductive TrackerMsg
  /-- `KNOCK` -/
  | knock (aliasStr hostname : CStr) (listenport : UInt16)
  /-- `BYE` -/
  | bye
  deriving DecidableEq

/-- A message of the tracker to a peer, before packing. -/
inductive PeerMsg
  /-- `PEER_ONLINE` -/
  | online (aliasStr hostname : CStr) (fromaddr toaddr : HostAddr)
  /-- `PEER_OFFLINE` -/
  | offline (fromaddr : HostAddr)
  deriving DecidableEq

/-- The address that a message is about. -/
def PeerMsg.fromaddr : PeerMsg → HostAddr
  | .online _ _ fromaddr _ => fromaddr
  | .offline fromaddr => fromaddr

/-- The message is a `PEER_ONLINE`. -/
def PeerMsg.isOnline : PeerMsg → Bool
  | .online .. => true
  | .offline _ => false

/-! ## The last message about an address -/

/-- The last message about an address. -/
def lastAbout (msgs : List PeerMsg) (a : HostAddr) : Option PeerMsg :=
  (msgs.filter fun m => m.fromaddr = a).getLast?

/-- There is a message about the address, and the last one is a `PEER_ONLINE`. -/
def lastOnline (msgs : List PeerMsg) (a : HostAddr) : Bool :=
  (lastAbout msgs a).any PeerMsg.isOnline

section LastAbout

variable {msgs msgs' : List PeerMsg} {m : PeerMsg} {a : HostAddr}

/-- The last message about an address is one of the messages, and about the address. -/
theorem lastAbout_some (h : lastAbout msgs a = some m) : m ∈ msgs ∧ m.fromaddr = a := by
  obtain ⟨hmem, ha⟩ := List.mem_filter.mp (List.mem_of_getLast? h)
  exact ⟨hmem, by simpa using ha⟩

theorem lastAbout_eq_none_iff : lastAbout msgs a = none ↔ ∀ m ∈ msgs, m.fromaddr ≠ a := by
  rw [lastAbout, List.getLast?_eq_none_iff, List.filter_eq_nil_iff]
  simp

/-- The later messages decide, if there are any about the address. -/
theorem lastAbout_append (msgs msgs' : List PeerMsg) (a : HostAddr) :
    lastAbout (msgs ++ msgs') a = (lastAbout msgs' a).or (lastAbout msgs a) := by
  rw [lastAbout, List.filter_append, List.getLast?_append]
  rfl

theorem lastAbout_concat (msgs : List PeerMsg) (m : PeerMsg) (a : HostAddr) :
    lastAbout (msgs ++ [m]) a = if m.fromaddr = a then some m else lastAbout msgs a := by
  rw [lastAbout_append]
  by_cases h : m.fromaddr = a <;> simp [lastAbout, h]

theorem lastOnline_concat (msgs : List PeerMsg) (m : PeerMsg) (a : HostAddr) :
    lastOnline (msgs ++ [m]) a = if m.fromaddr = a then m.isOnline else lastOnline msgs a := by
  rw [lastOnline, lastAbout_concat]
  split <;> rfl

/-- Messages about other addresses change nothing. -/
theorem lastOnline_append_other (h : ∀ m ∈ msgs', m.fromaddr ≠ a) (msgs : List PeerMsg) :
    lastOnline (msgs ++ msgs') a = lastOnline msgs a := by
  rw [lastOnline, lastAbout_append, lastAbout_eq_none_iff.mpr h, Option.none_or]
  rfl

/-- Messages of one kind decide, if there are any about the address. -/
theorem lastOnline_append_kind {b : Bool} (h : ∀ m ∈ msgs', m.fromaddr = a → m.isOnline = b)
    (hm : m ∈ msgs') (ha : m.fromaddr = a) (msgs : List PeerMsg) :
    lastOnline (msgs ++ msgs') a = b := by
  cases hlast : lastAbout msgs' a with
  | none => exact absurd ha (lastAbout_eq_none_iff.mp hlast m hm)
  | some m' =>
    obtain ⟨hm', ha'⟩ := lastAbout_some hlast
    rw [lastOnline, lastAbout_append, hlast, Option.some_or, Option.any_some, h m' hm' ha']

/-- PEER_ONLINE messages leave an address online if one is about it or it was online before. -/
theorem lastOnline_append_online (h : ∀ m ∈ msgs', m.isOnline = true) (msgs : List PeerMsg) :
    lastOnline (msgs ++ msgs') a = true ↔
      lastOnline msgs a = true ∨ ∃ m ∈ msgs', m.fromaddr = a := by
  by_cases hany : ∃ m ∈ msgs', m.fromaddr = a
  · obtain ⟨m, hm, ha⟩ := hany
    rw [lastOnline_append_kind (fun m' hm' _ => h m' hm') hm ha]
    exact ⟨fun _ => Or.inr ⟨m, hm, ha⟩, fun _ => rfl⟩
  · have hother : ∀ m ∈ msgs', m.fromaddr ≠ a := fun m hm ha => hany ⟨m, hm, ha⟩
    rw [lastOnline_append_other hother]
    exact ⟨Or.inl, fun hor => hor.resolve_right hany⟩

end LastAbout

end TinyMsg
