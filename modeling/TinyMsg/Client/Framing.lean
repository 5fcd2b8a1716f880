import TinyMsg.Cnet.Io
import TinyMsg.Lib.Framing

/-!
# The framing loop of the client

Of a `SocketCtx` the framing loop of `THREAD_wait_for_tcp_messages` uses `readbuf` and `msglen`;
they are a `Conn` here.  When `select()` reports the socket, `NetRecv` appends what has arrived and
the `while (1)` loop (`frameLoop`) dispatches frames while it can.  `msglen` is not zero while the
prefix of a frame has been taken off the buffer and its body is not complete, so the bytes not yet
dispatched are those of the buffer behind that prefix (`Conn.pending`).  With that the loop is the
reference reader `parse 2` on the pending bytes.

A dispatch is recorded with the block that `msgbytes` points into, of which the first `msglen`
bytes are the body.  `handle_msg` does not touch the connection.  Arena memory is taken to suffice
for the buffer here.
-/

namespace TinyMsg

/-- The part of a `SocketCtx` that the framing loop works on. -/
structure Conn where
  /-- The bytes received and not yet used. -/
  readbuf : Buffer
  /-- The length of the body being received, `0` while the next thing is a prefix. -/
  msglen : ℕ
  /-- `msglen` is a `u16`. -/
  msglen_lt : msglen < 256 ^ 2

/-- A call of `handle_msg`. -/
structure Dispatch where
  /-- The block that `msgbytes` points to. -/
  mem : List UInt8
  /-- The length passed on. -/
  msglen : ℕ

/-- The message of a call: the body and its length. -/
def Dispatch.message (d : Dispatch) : List UInt8 × ℕ := (d.mem.take d.msglen, d.msglen)

/-- The outcome of a pass of the `while (1)` loop. -/
structure FramePass where
  /-- The calls of `handle_msg`, in order. -/
  dispatched : List Dispatch
  /-- The connection afterwards. -/
  conn : Conn
  /-- A prefix of zero was found, which sets `read_eof`. -/
  zero : Bool

/-- The prefix at the front of a buffer: `ntohs` of its first two bytes. -/
def prefixLen (buf : Buffer) : ℕ := numeral (buf.bs.take 2)

theorem prefixLen_lt (buf : Buffer) : prefixLen buf < 256 ^ 2 :=
  lt_of_lt_of_le (numeral_lt _) (Nat.pow_le_pow_right (by decide) (List.length_take_le _ _))

/-- The `while (1)` loop, for at most `fuel` rounds. -/
def frameLoop : ℕ → Conn → FramePass
  | 0, c => ⟨[], c, false⟩
  | fuel + 1, c =>
    if c.msglen = 0 then
      if 2 ≤ c.readbuf.len then
        if prefixLen c.readbuf = 0 then ⟨[], c, true⟩
        else
          frameLoop fuel ⟨bufferShift c.readbuf 2, prefixLen c.readbuf, prefixLen_lt c.readbuf⟩
      else ⟨[], c, false⟩
    else if c.msglen ≤ c.readbuf.len then
      let p := frameLoop fuel ⟨bufferShift c.readbuf c.msglen, 0, by decide⟩
      { p with dispatched := ⟨c.readbuf.bs, c.msglen⟩ :: p.dispatched }
    else ⟨[], c, false⟩

/-- The calls of `handle_msg` for a connection, and how it was closed. -/
structure Served where
  /-- The calls of `handle_msg`, in order. -/
  dispatched : List Dispatch
  /-- The connection was closed because of a prefix of zero. -/
  zeroClosed : Bool

/-- The life of a connection: for each time `select()` reports it, the results of the `recv()`
calls.  Each round of the loop takes at least a byte off the buffer, so `len + 1` rounds are
enough. -/
def serve : Conn → List (List RecvResult) → Served
  | _, [] => ⟨[], false⟩
  | c, rs :: wakes =>
    let r := netRecv rs c.readbuf
    let p := frameLoop (r.2.len + 1) { c with readbuf := r.2 }
    if r.1 = 0 ∨ p.zero then ⟨p.dispatched, p.zero⟩
    else
      let s := serve p.conn wakes
      ⟨p.dispatched ++ s.dispatched, s.zeroClosed⟩

/-- A connection as `accept()` makes it. -/
def connNew : Conn := ⟨bufferNew 64, 0, by decide⟩

/-- The byte stream that arrives on a connection, up to its end. -/
def stream : List (List RecvResult) → List UInt8
  | [] => []
  | rs :: wakes => received rs ++ if reachesEof rs then [] else stream wakes

/-! ## The loop is the reference reader -/

/-- The bytes that are not dispatched yet, the prefix taken off included. -/
def Conn.pending (c : Conn) : List UInt8 :=
  (if c.msglen = 0 then [] else bigEndian 2 c.msglen) ++ c.readbuf.contents

@[simp] theorem connNew_pending : connNew.pending = [] := rfl

/-- The messages of the bodies that the reference reader finds. -/
def withLength (body : List UInt8) : List UInt8 × ℕ := (body, body.length)

/-- The front of the contents is the front of the block. -/
theorem take_contents {buf : Buffer} {n : ℕ} (h : n ≤ buf.len) :
    buf.contents.take n = buf.bs.take n := by
  rw [Buffer.contents, List.take_take, Nat.min_eq_left h]

/-- Taking the prefix off a buffer moves it into `msglen`. -/
theorem pending_shift_length {buf : Buffer} (hlen : 2 ≤ buf.len) (hn : prefixLen buf ≠ 0) :
    Conn.pending ⟨bufferShift buf 2, prefixLen buf, prefixLen_lt buf⟩ = buf.contents := by
  have hpre : bigEndian 2 (prefixLen buf) = buf.contents.take 2 := by
    have htwo : (buf.bs.take 2).length = 2 := by
      rw [← take_contents hlen, List.length_take, Buffer.length_contents, Nat.min_eq_left hlen]
    have hround := bigEndian_numeral (buf.bs.take 2)
    rw [htwo] at hround
    rw [take_contents hlen, prefixLen, hround]
  rw [Conn.pending, if_neg hn, hpre, bufferShift_contents, List.take_append_drop]

/-- A pass of the loop with enough rounds reads the pending bytes as the reference reader does. -/
theorem frameLoop_spec {fuel : ℕ} {c : Conn} (hfuel : c.readbuf.len < fuel) :
    (frameLoop fuel c).dispatched.map Dispatch.message =
        (parse 2 c.pending).bodies.map withLength ∧
      (frameLoop fuel c).zero = (parse 2 c.pending).stopped ∧
      ((parse 2 c.pending).stopped = false →
        (frameLoop fuel c).conn.pending = (parse 2 c.pending).rest) := by
  induction fuel generalizing c with
  | zero => omega
  | succ fuel ih =>
    have hlen := c.readbuf.length_contents
    rw [frameLoop]
    by_cases hmsg : c.msglen = 0
    · have hpending : c.pending = c.readbuf.contents := by
        rw [Conn.pending, if_pos hmsg, List.nil_append]
      rw [if_pos hmsg]
      by_cases htwo : 2 ≤ c.readbuf.len
      · rw [if_pos htwo]
        by_cases hzero : prefixLen c.readbuf = 0
        · have hsplit := List.take_append_drop 2 c.readbuf.contents
          have hpre : numeral (c.readbuf.contents.take 2) = 0 := by rwa [take_contents htwo]
          rw [if_pos hzero, hpending, ← hsplit, parse_zero (by simp [htwo]) hpre]
          exact ⟨rfl, rfl, fun h => by cases h⟩
        · rw [if_neg hzero, hpending, ← pending_shift_length htwo hzero]
          exact ih (by simp only [bufferShift_len]; omega)
      · rw [if_neg htwo, parse_short (by rw [hpending]; omega)]
        exact ⟨rfl, rfl, fun _ => rfl⟩
    · have hpending : c.pending = bigEndian 2 c.msglen ++ c.readbuf.contents := by
        rw [Conn.pending, if_neg hmsg]
      have hnum := numeral_bigEndian_of_lt c.msglen_lt
      rw [if_neg hmsg]
      by_cases hbody : c.msglen ≤ c.readbuf.len
      · have hnext := ih (c := ⟨bufferShift c.readbuf c.msglen, 0, by decide⟩)
          (by simp only [bufferShift_len]; omega)
        have hrest : Conn.pending ⟨bufferShift c.readbuf c.msglen, 0, by decide⟩ =
            c.readbuf.contents.drop c.msglen := by
          rw [Conn.pending, if_pos rfl, List.nil_append, bufferShift_contents]
        have htake : (c.readbuf.contents.take c.msglen).length = c.msglen := by
          rw [List.length_take, hlen, Nat.min_eq_left hbody]
        have hne : c.readbuf.contents.take c.msglen ≠ [] := by
          rw [ne_eq, ← List.length_eq_zero_iff, htake]
          exact hmsg
        rw [hrest] at hnext
        obtain ⟨hdisp, hstop, htail⟩ := hnext
        rw [if_pos hbody, hpending, ← List.take_append_drop c.msglen c.readbuf.contents,
          parse_cons (length_bigEndian 2 _) (by rw [hnum, htake]) hne]
        refine ⟨?_, hstop, htail⟩
        rw [List.map_cons, List.map_cons, hdisp, withLength, htake, take_contents hbody]
        rfl
      · rw [if_neg hbody, hpending, parse_incomplete (length_bigEndian 2 _) (by omega)]
        exact ⟨rfl, rfl, fun _ => rfl⟩

/-- Appending what arrives to the buffer appends it to the pending bytes. -/
theorem pending_netRecv (c : Conn) (rs : List RecvResult) :
    Conn.pending { c with readbuf := (netRecv rs c.readbuf).2 } = c.pending ++ received rs := by
  simp only [Conn.pending, netRecv_contents, List.append_assoc]

/-- From a point on where nothing more can be dispatched, a connection dispatches what the
reference reader finds in the pending bytes and those still to come. -/
theorem serve_spec {c : Conn} (wakes : List (List RecvResult))
    (hdrained : parse 2 c.pending = ⟨[], false, c.pending⟩) :
    (serve c wakes).dispatched.map Dispatch.message =
        (parse 2 (c.pending ++ stream wakes)).bodies.map withLength ∧
      (serve c wakes).zeroClosed = (parse 2 (c.pending ++ stream wakes)).stopped := by
  induction wakes generalizing c with
  | nil =>
    rw [stream, List.append_nil, hdrained]
    exact ⟨rfl, rfl⟩
  | cons rs wakes ih =>
    obtain ⟨hdisp, hzero, hrest⟩ := frameLoop_spec
      (c := { c with readbuf := (netRecv rs c.readbuf).2 }) (Nat.lt_succ_self _)
    rw [pending_netRecv] at hdisp hzero hrest
    rw [serve, stream, ← List.append_assoc, parse_append 2 (c.pending ++ received rs)]
    by_cases hstop : (parse 2 (c.pending ++ received rs)).stopped = true
    · rw [if_pos (Or.inr (hzero.trans hstop)), Parsed.feed, if_pos hstop]
      exact ⟨hdisp, hzero⟩
    · rw [Bool.not_eq_true] at hstop
      have hdone := parse_rest hstop
      by_cases heof : reachesEof rs = true
      · rw [if_pos (Or.inl ((netRecv_eq_zero_iff _ _).mpr heof)), if_pos heof, Parsed.feed, hstop,
          if_neg (by simp), List.append_nil, hdone]
        refine ⟨?_, hzero.trans hstop⟩
        simpa using hdisp
      · have hcont : ¬((netRecv rs c.readbuf).1 = 0 ∨ (frameLoop ((netRecv rs c.readbuf).2.len + 1)
            { c with readbuf := (netRecv rs c.readbuf).2 }).zero = true) := by
          rintro (h | h)
          · exact heof ((netRecv_eq_zero_iff _ _).mp h)
          · rw [hzero, hstop] at h
            cases h
        have hpending := hrest hstop
        obtain ⟨hdisp', hzero'⟩ := ih (by rw [hpending]; exact hdone)
        rw [hpending] at hdisp' hzero'
        rw [if_neg hcont, if_neg heof, Parsed.feed, hstop, if_neg (by simp)]
        refine ⟨?_, hzero'⟩
        rw [List.map_append, List.map_append, hdisp, hdisp']

end TinyMsg
