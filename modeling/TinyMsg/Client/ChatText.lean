import TinyMsg.Client.Framing
import TinyMsg.Cnet.Codec
import TinyMsg.Messages

/-!
# A chat text from one client to another

`ConnectAndSendMsg` connects, packs the message with its length in front and sends it; at the
other end the framing loop dispatches what arrives and `handle_msg` unpacks it.  Two 16-bit
lengths stand in the way of a long text.  A text of 65533 to 65535 bytes makes a body that is too
long for its prefix: the prefix is truncated and stored inside the body, and the receiver closes
the connection at the zero bytes left in front.  From 65536 bytes on the length of the text itself
is truncated, and as many bytes are sent as are left of it.  In all these cases the sender is told
that the text was sent.
-/

namespace TinyMsg

/-- The results of the system calls of one `ConnectAndSendMsg`. -/
structure SendEnv where
  /-- Those of `OpenTcpConnectSocket`. -/
  connect : ConnectEnv
  /-- Those of the first round of `send()`. -/
  sends : List SendResult
  /-- Those of the rounds after waiting. -/
  waits : List SendWait

/-- What `ConnectAndSendMsg` leaves behind. -/
structure Transfer where
  /-- The value returned. -/
  ret : ℤ
  /-- The bytes that the kernel took. -/
  sent : List UInt8
  /-- The open descriptors. -/
  fds : Finset ℕ

/-- `SendMsgV`, and `SendMsg`, which passes its arguments on. -/
def sendMsgV (env : SendEnv) (fmt : List UInt8) (args : List Arg) : Exec Sent := do
  let (sendbuf, _) ← netPackLenV (bufferNew 256) fmt args
  .ok (netSendWaitUntilComplete env.sends env.waits sendbuf)

/-- `ConnectAndSendMsg`. -/
def connectAndSendMsg (env : SendEnv) (fds : Finset ℕ) (fmt : List UInt8) (args : List Arg) :
    Exec Transfer :=
  match openTcpConnectSocket env.connect fds with
  | (none, fds) => .ok ⟨-1, [], fds⟩
  | (some destfd, fds) => do
    let s ← sendMsgV env fmt args
    .ok ⟨s.ret, s.accepted, fds.erase destfd⟩

/-- The arguments that `CB_chatwin_send` passes for a text. -/
def chatArgs (text : CStr) : List Arg := [.num MsgNo.chattext, .str text]

/-- The output variables of `handle_msg` for a CHATTEXT, as they are before `NetUnpack`. -/
def chatInit (d : Dispatch) : List Field :=
  [.num (d.mem.getD 0 0).toNat, .str stringNew0]

/-- `NetUnpack(msgbytes, msglen, "%b%s", &msgno, &text)` leaves the whole text in `text`. -/
def ReceivesText (d : Dispatch) (text : CStr) : Prop :=
  ∃ s : String, s.bytes = text.bytes ∧
    outputs (netUnpack (fun i => d.mem.getD i 0) d.msglen Fmt.chattext).fields (chatInit d) =
      [.num MsgNo.chattext, .str s]

/-- Sending the text either fails with `-1`, or returns `0`, and then a transport that delivers
the bytes sent makes the receiver call `handle_msg` once, for the whole text. -/
def ChatDelivered (text : CStr) : Prop :=
  ∀ env fds, ∃ t, connectAndSendMsg env fds Fmt.chattext (chatArgs text) = .ok t ∧
    (t.ret = 0 ∨ t.ret = -1) ∧
    (t.ret = 0 → ∀ wakes, stream wakes = t.sent →
      ∃ d, (serve connNew wakes).dispatched = [d] ∧ ReceivesText d text)

/-! ## The message of a text -/

/-- The packed body of a text. -/
def chatBody (text : CStr) : List UInt8 := packedBytes .none Fmt.chattext (chatArgs text)

theorem chatBody_eq (text : CStr) :
    chatBody text = [5] ++ (bigEndian 2 (slen text) ++ text.bytes.take (slen text)) := by
  have hb : specOf (ofChar 'b') = .num 1 := by decide
  have hs : specOf (ofChar 's') = .str := by decide
  have hfmt : Fmt.chattext = [ofChar '%', ofChar 'b', ofChar '%', ofChar 's'] := by decide
  rw [chatBody, chatArgs, hfmt, packedBytes_percent rfl, packedBytes_num hb,
    packedBytes_percent rfl, packedBytes_str hs, packedBytes_nil, List.append_nil]
  rfl

@[simp] theorem length_chatBody (text : CStr) : (chatBody text).length = 3 + slen text := by
  simp only [chatBody_eq, List.length_append, length_bigEndian, length_take_slen,
    List.length_singleton]
  omega

theorem chatArgs_typed (text : CStr) :
    List.Forall₂ ArgTyped (fmtSpecs .none Fmt.chattext) (chatArgs text) := by
  rw [fmtSpecs_chattext]
  exact .cons trivial (.cons trivial .nil)

/-- The bytes that go out for a text: the body with its truncated length stored where that length
says. -/
def chatWire (text : CStr) : List UInt8 :=
  overwrite ([0, 0] ++ chatBody text)
    ((chatBody text).length - (chatBody text).length % 2 ^ 16)
    (bigEndian 2 ((chatBody text).length % 2 ^ 16))

/-- A body that fits its prefix goes out as a frame. -/
theorem chatWire_of_lt {text : CStr} (h : (chatBody text).length < 2 ^ 16) :
    chatWire text = frame 2 (chatBody text) := by
  have hpatch := patch_length (bufferNew 256) h
  rw [bufferNew_contents, bufferNew_len, Nat.zero_add] at hpatch
  exact hpatch

/-- A body that does not fit goes out with zero bytes in front. -/
theorem chatWire_of_ge {text : CStr} (h : 2 ^ 16 ≤ (chatBody text).length) :
    ∃ rest, chatWire text = [0, 0] ++ rest := by
  have hoff : 2 ≤ (chatBody text).length - (chatBody text).length % 2 ^ 16 := by omega
  refine ⟨(chatWire text).drop 2, ?_⟩
  have htake : (chatWire text).take 2 = [0, 0] := by
    rw [chatWire, take_overwrite_of_le hoff
      (by rw [List.length_append, List.length_cons, List.length_singleton]; omega)]
    rfl
  rw [← htake, List.take_append_drop]

/-! ## Sending -/

section Connect

variable {env : SendEnv} {fds fds' : Finset ℕ} {destfd : ℕ} {fmt : List UInt8} {args : List Arg}
  {sendbuf : Buffer} {n : ℤ}

/-- `ConnectAndSendMsg` without a connection. -/
theorem connectAndSendMsg_failed (hconn : openTcpConnectSocket env.connect fds = (none, fds')) :
    connectAndSendMsg env fds fmt args = .ok ⟨-1, [], fds'⟩ := by
  simp only [connectAndSendMsg, hconn]

/-- `ConnectAndSendMsg` once the connection stands and the message is packed. -/
theorem connectAndSendMsg_connected
    (hconn : openTcpConnectSocket env.connect fds = (some destfd, fds'))
    (hpack : netPackLenV (bufferNew 256) fmt args = .ok (sendbuf, n)) :
    connectAndSendMsg env fds fmt args =
      .ok ⟨(netSendWaitUntilComplete env.sends env.waits sendbuf).ret,
        (netSendWaitUntilComplete env.sends env.waits sendbuf).accepted, fds'.erase destfd⟩ := by
  simp only [connectAndSendMsg, hconn, sendMsgV, hpack, ok_bind]

end Connect

/-- What `ConnectAndSendMsg` does with a text, whatever the system calls answer. -/
theorem connectAndSendMsg_chat (env : SendEnv) (fds : Finset ℕ) (text : CStr) :
    ∃ t, connectAndSendMsg env fds Fmt.chattext (chatArgs text) = .ok t ∧
      (t.ret = 0 ∨ t.ret = -1) ∧ (t.ret = 0 → t.sent = chatWire text) := by
  obtain ⟨sendbuf, hpack, hbuf⟩ := netPackLenV_eq (chatArgs_typed text) (bufferNew 256)
  rw [bufferNew_contents, bufferNew_len, List.nil_append, Nat.zero_add] at hbuf
  rcases hconn : openTcpConnectSocket env.connect fds with ⟨_ | destfd, fds'⟩
  · exact ⟨_, connectAndSendMsg_failed hconn, Or.inr rfl, fun h => absurd h (by simp)⟩
  · obtain ⟨hbytes, hdone, hret⟩ := netSendWait_sendsAll env.sends env.waits sendbuf
    refine ⟨_, connectAndSendMsg_connected hconn hpack, hret, fun h => ?_⟩
    rw [hdone h, List.append_nil, hbuf] at hbytes
    exact hbytes

/-- System calls that all succeed at once. -/
def sendEnvOk (n : ℕ) : SendEnv where
  connect := ⟨some 3, true, true, .connected, [], some 0⟩
  sends := [.sent n.succPNat]
  waits := []

/-- When all the system calls succeed, so does `ConnectAndSendMsg`. -/
theorem connectAndSendMsg_ok (text : CStr) :
    ∃ t, connectAndSendMsg (sendEnvOk (chatWire text).length) ∅ Fmt.chattext (chatArgs text) =
      .ok t ∧ t.ret = 0 := by
  obtain ⟨sendbuf, hpack, hbuf⟩ := netPackLenV_eq (chatArgs_typed text) (bufferNew 256)
  rw [bufferNew_contents, bufferNew_len, List.nil_append, Nat.zero_add] at hbuf
  have hlen : sendbuf.len = (chatWire text).length := by
    rw [← sendbuf.length_contents, hbuf]
    rfl
  refine ⟨_, connectAndSendMsg_connected rfl hpack, ?_⟩
  exact netSendWait_at_once [] (by rw [hlen]; exact Nat.le_succ _)

/-! ## Delivering -/

/-- A stream that arrives byte by byte. -/
def oneByOne (bs : List UInt8) : List RecvResult :=
  bs.map fun b => .data ⟨[b], List.cons_ne_nil _ _, by simp⟩

/-- Every byte string can arrive. -/
theorem stream_oneByOne (bs : List UInt8) : stream [oneByOne bs] = bs := by
  have hrec : received (oneByOne bs) = bs := by
    induction bs with
    | nil => rfl
    | cons b bs ih => exact congrArg (b :: ·) ih
  rw [stream, hrec, stream, ite_self, List.append_nil]

/-- What the receiver dispatches for the bytes of a stream. -/
theorem dispatched_of_stream {wakes : List (List RecvResult)} {bs : List UInt8}
    (h : stream wakes = bs) :
    (serve connNew wakes).dispatched.map Dispatch.message = (parse 2 bs).bodies.map withLength := by
  have hspec := (serve_spec (c := connNew) wakes (parse_short (by decide))).1
  rwa [connNew_pending, List.nil_append, h] at hspec

/-- The bytes of a dispatched body lie where `msgbytes` points to. -/
theorem Dispatch.holds {d : Dispatch} {body : List UInt8} (h : d.message = withLength body) :
    d.msglen = body.length ∧ Holds (fun i => d.mem.getD i 0) 0 body := by
  obtain ⟨htake, hlen⟩ := Prod.mk.inj h
  change d.mem.take d.msglen = body at htake
  change d.msglen = body.length at hlen
  refine ⟨hlen, ?_⟩
  have hsplit := List.take_append_drop d.msglen d.mem
  have hmem := holds_getD d.mem
  rw [← hsplit, htake] at hmem ⊢
  exact (holds_append.mp hmem).1

/-- Unpacking the body of a text gives the bytes that were packed of it. -/
theorem unpack_chatBody {d : Dispatch} {text : CStr} (hlt : strlen text < 2 ^ 16)
    (h : d.message = withLength (chatBody text)) : ReceivesText d text := by
  obtain ⟨hlen, hmem⟩ := Dispatch.holds h
  have hargs : List.Forall₂ ArgFits (fmtSpecs .none Fmt.chattext) (chatArgs text) := by
    rw [fmtSpecs_chattext]
    exact .cons (by decide : MsgNo.chattext < 256 ^ 1) (.cons hlt .nil)
  have hinit : List.Forall₂ FreshOutput (fmtSpecs .none Fmt.chattext) (chatInit d) := by
    rw [fmtSpecs_chattext]
    exact .cons trivial (.cons rfl .nil)
  have hbslen : (d.msglen : ℤ) =
      (0 + (packedBytes .none Fmt.chattext (chatArgs text)).length : ℕ) := by
    rw [hlen, Nat.zero_add]
    rfl
  have hout := unpackLoop_packedBytes hargs hinit hmem hbslen
  obtain ⟨f, fs, hf, hfs, heq⟩ := List.forall₂_cons_left_iff.mp hout
  obtain ⟨g, gs, hg, hgs, rfl⟩ := List.forall₂_cons_left_iff.mp hfs
  obtain rfl := List.forall₂_nil_left_iff.mp hgs
  cases f with
  | str s => exact absurd hf id
  | num n =>
    cases g with
    | num m => exact absurd hg id
    | str s =>
      obtain rfl : n = MsgNo.chattext := hf
      exact ⟨s, hg.2, heq⟩

/-! ## Which texts arrive -/

/-- What a text is after its length was truncated. -/
def truncated (text : CStr) : CStr where
  bytes := text.bytes.take (slen text)
  noNul := fun h => text.noNul (List.mem_of_mem_take h)

theorem slen_truncated (text : CStr) : slen (truncated text) = slen text := by
  have hlt : slen text < 2 ^ 16 := Nat.mod_lt _ (by decide)
  rw [slen, strlen, truncated, length_take_slen, Nat.mod_eq_of_lt hlt]

/-- A text and what is left of it have the same body. -/
theorem chatBody_truncated (text : CStr) : chatBody (truncated text) = chatBody text := by
  rw [chatBody_eq, chatBody_eq, slen_truncated]
  congr 2
  exact List.take_of_length_le (length_take_slen text).le

/-- A text whose body fits the prefix arrives as what is left of it. -/
theorem receives_truncated {text : CStr} (h : (chatBody text).length < 2 ^ 16)
    {wakes : List (List RecvResult)} (hwakes : stream wakes = chatWire text) :
    ∃ d, (serve connNew wakes).dispatched = [d] ∧ ReceivesText d (truncated text) := by
  have hdisp := dispatched_of_stream hwakes
  have hframes : ∀ body ∈ [chatBody text], body ≠ [] ∧ body.length < 256 ^ 2 := by
    intro body hbody
    obtain rfl := List.mem_singleton.mp hbody
    refine ⟨fun hnil => ?_, h⟩
    have hlen := length_chatBody text
    rw [hnil, List.length_nil] at hlen
    omega
  have hbodies := parse_frames hframes
  rw [List.map_singleton, List.flatten_singleton] at hbodies
  rw [chatWire_of_lt h, hbodies, List.map_singleton, List.map_eq_singleton_iff] at hdisp
  obtain ⟨d, hd, hmessage⟩ := hdisp
  rw [← chatBody_truncated] at hmessage
  have hlt : strlen (truncated text) < 2 ^ 16 := by
    change (text.bytes.take (slen text)).length < 2 ^ 16
    rw [length_take_slen]
    exact Nat.mod_lt _ (by decide)
  exact ⟨d, hd, unpack_chatBody hlt hmessage⟩

/-- Texts of at most 65532 bytes are delivered. -/
theorem chatDelivered_of_le {text : CStr} (h : strlen text ≤ 65532) : ChatDelivered text := by
  intro env fds
  obtain ⟨t, ht, hret, hsent⟩ := connectAndSendMsg_chat env fds text
  refine ⟨t, ht, hret, fun hzero wakes hwakes => ?_⟩
  have hslen : slen text = strlen text := Nat.mod_eq_of_lt (by omega)
  have htrunc : truncated text = text := by
    refine CStr.ext (List.take_of_length_le ?_)
    rw [hslen]
    exact le_rfl
  obtain ⟨d, hd, htext⟩ := receives_truncated (by rw [length_chatBody]; omega)
    (hwakes.trans (hsent hzero))
  exact ⟨d, hd, htrunc ▸ htext⟩

/-- Longer texts are not, although the sender returns `0` when its system calls succeed. -/
theorem not_chatDelivered_of_gt {text : CStr} (h : 65532 < strlen text) :
    ¬ChatDelivered text := by
  intro hdel
  obtain ⟨t, ht, hzero⟩ := connectAndSendMsg_ok text
  obtain ⟨t₁, ht₁, -, hsent⟩ := connectAndSendMsg_chat (sendEnvOk (chatWire text).length) ∅ text
  obtain ⟨t₂, ht₂, -, hrecv⟩ := hdel (sendEnvOk (chatWire text).length) ∅
  cases Except.ok.inj (ht₁.symm.trans ht)
  cases Except.ok.inj (ht₂.symm.trans ht)
  have hstream := (stream_oneByOne t.sent).trans (hsent hzero)
  obtain ⟨d, hd, s, hbytes, hout⟩ := hrecv hzero _ (stream_oneByOne t.sent)
  rcases Nat.lt_or_ge (chatBody text).length (2 ^ 16) with hlt | hge
  · -- the length of the text was truncated
    obtain ⟨d', hd', s', hbytes', hout'⟩ := receives_truncated hlt hstream
    obtain rfl := List.singleton_inj.mp (hd.symm.trans hd')
    rw [hout] at hout'
    obtain rfl : s = s' := by simpa using hout'
    have hlen := congrArg List.length (hbytes.symm.trans hbytes')
    change strlen text = (text.bytes.take (slen text)).length at hlen
    rw [length_take_slen] at hlen
    rw [length_chatBody] at hlt
    omega
  · -- the length of the body was truncated
    obtain ⟨rest, hrest⟩ := chatWire_of_ge hge
    have hdisp := dispatched_of_stream hstream
    have hzero : parse 2 ([0, 0] ++ rest) = ⟨[], true, []⟩ := parse_zero rfl (by decide)
    rw [hrest, hzero, hd] at hdisp
    exact absurd hdisp (List.cons_ne_nil _ _)

/-- A chat text arrives as it was sent, or the sender is told, exactly when it has at most 65532
bytes. -/
theorem chatDelivered_iff (text : CStr) : ChatDelivered text ↔ strlen text ≤ 65532 :=
  ⟨fun h => not_lt.mp fun hgt => not_chatDelivered_of_gt hgt h, chatDelivered_of_le⟩

/-- A text of 65533 characters is reported as sent and never shown. -/
theorem long_text_not_delivered : ¬∀ text : CStr, ChatDelivered text := by
  intro h
  refine not_chatDelivered_of_gt ?_ (h ⟨List.replicate 65533 (ofChar 'a'), ?_⟩)
  · rw [strlen, List.length_replicate]
    decide
  · rw [List.mem_replicate]
    exact fun h => absurd h.2 (by decide)

end TinyMsg
