import TinyMsg.Client.Framing
import TinyMsg.Lib.Copy

/-!
# The calls of `BufferShift`

`BufferShift` moves what is left of a buffer to its front with `memcpy`.  With `len` bytes of which
`n` go, it reads from `n` up to `len` and writes from `0` up to `len - n`, and the ranges overlap as
soon as more bytes stay than go (`shiftCopy_apart_iff`).

The program calls it in the framing loop, which `tm.c` and `tmtracker.c` have word for word alike,
to drop a prefix of two bytes or a body, and in `NetSend`, to drop what the kernel took.
`frameCopies` and `sendCopies` put the calls on record.  Of the state of the receive loop they
depend on `readbuf` and `msglen`, and `handle_msg` touches neither.
-/

namespace TinyMsg

/-- The `memcpy` of `BufferShift`. -/
def shiftCopy (buf : Buffer) (n : ℕ) : Copy := ⟨min n buf.len, 0, buf.len - min n buf.len⟩

/-- Its ranges do not overlap when no more bytes stay than go. -/
theorem shiftCopy_apart_iff {buf : Buffer} {n : ℕ} :
    (shiftCopy buf n).Apart ↔ buf.len ≤ 2 * n := by
  rw [Copy.apart_iff]
  simp only [shiftCopy]
  omega

/-- The buffer after the calls on record. -/
def replayShifts (copies : List Copy) (buf : Buffer) : Buffer :=
  copies.foldl (fun buf copy => bufferShift buf copy.src) buf

/-- `BufferShift` takes no more bytes off than there are. -/
theorem bufferShift_min (buf : Buffer) (n : ℕ) :
    bufferShift buf (min n buf.len) = bufferShift buf n := by
  have hmin : min (min n buf.len) buf.len = min n buf.len := min_eq_left (min_le_right _ _)
  simp only [bufferShift, hmin]

/-- Replaying a call and the calls behind it. -/
theorem replayShifts_cons (copies : List Copy) (buf : Buffer) (n : ℕ) :
    replayShifts (shiftCopy buf n :: copies) buf = replayShifts copies (bufferShift buf n) := by
  rw [replayShifts, List.foldl_cons, shiftCopy, bufferShift_min]
  rfl

/-! ## The framing loop -/

/-- The calls in a pass of the framing loop, in order. -/
def frameCopies : ℕ → Buffer → ℕ → List Copy
  | 0, _, _ => []
  | fuel + 1, readbuf, msglen =>
    if msglen = 0 then
      if 2 ≤ readbuf.len then
        if prefixLen readbuf = 0 then []
        else shiftCopy readbuf 2 :: frameCopies fuel (bufferShift readbuf 2) (prefixLen readbuf)
      else []
    else if msglen ≤ readbuf.len then
      shiftCopy readbuf msglen :: frameCopies fuel (bufferShift readbuf msglen) 0
    else []

/-- The calls on record are the ones of the loop. -/
theorem replay_frameCopies (fuel : ℕ) (c : Conn) :
    replayShifts (frameCopies fuel c.readbuf c.msglen) c.readbuf =
      (frameLoop fuel c).conn.readbuf := by
  induction fuel generalizing c with
  | zero => rfl
  | succ fuel ih =>
    rw [frameCopies, frameLoop]
    by_cases hmsg : c.msglen = 0
    · rw [if_pos hmsg, if_pos hmsg]
      by_cases hlen : 2 ≤ c.readbuf.len
      · rw [if_pos hlen, if_pos hlen]
        by_cases hzero : prefixLen c.readbuf = 0
        · rw [if_pos hzero, if_pos hzero]
          rfl
        · rw [if_neg hzero, if_neg hzero, replayShifts_cons]
          exact ih ⟨bufferShift c.readbuf 2, prefixLen c.readbuf, prefixLen_lt c.readbuf⟩
      · rw [if_neg hlen, if_neg hlen]
        rfl
    · rw [if_neg hmsg, if_neg hmsg]
      by_cases hbody : c.msglen ≤ c.readbuf.len
      · rw [if_pos hbody, if_pos hbody, replayShifts_cons]
        exact ih ⟨bufferShift c.readbuf c.msglen, 0, by decide⟩
      · rw [if_neg hbody, if_neg hbody]
        rfl

/-- Bytes at whose front the loop looks for a prefix: no prefix, a prefix of zero, or at most two
bytes behind it. -/
def ShortFrames (bytes : List UInt8) : Prop :=
  bytes.length < 2 ∨ numeral (bytes.take 2) = 0 ∨ bytes.length ≤ 4

/-- A state of the loop in which little is buffered: at most two bytes behind a prefix, and behind
a body at most as many bytes as the body has, which again are short. -/
def ShortPass (readbuf : Buffer) (msglen : ℕ) : Prop :=
  if msglen = 0 then ShortFrames readbuf.contents
  else msglen ≤ readbuf.len →
    readbuf.len ≤ 2 * msglen ∧ ShortFrames (readbuf.contents.drop msglen)

section Frames

variable {fuel msglen : ℕ} {readbuf : Buffer}

/-- Without two bytes no prefix is taken off. -/
theorem frameCopies_of_lt (hlen : readbuf.len < 2) : frameCopies fuel readbuf 0 = [] := by
  cases fuel with
  | zero => rfl
  | succ fuel => rw [frameCopies, if_pos rfl, if_neg (not_le.mpr hlen)]

/-- Two bytes are not too many behind a prefix: a body that they complete is at least half of
them, and too few are left for another prefix. -/
theorem frameCopies_apart_of_le (hmsg : msglen ≠ 0) (hlen : readbuf.len ≤ 2) :
    ∀ copy ∈ frameCopies fuel readbuf msglen, copy.Apart := by
  cases fuel with
  | zero => exact fun copy h => by cases h
  | succ fuel =>
    rw [frameCopies, if_neg hmsg]
    split
    · rw [frameCopies_of_lt (by rw [bufferShift_len]; omega), List.forall_mem_singleton,
        shiftCopy_apart_iff]
      omega
    · exact fun copy h => by cases h

/-- A pass that starts with a prefix. -/
theorem frameCopies_prefix_iff (hfuel : readbuf.len < fuel) :
    (∀ copy ∈ frameCopies fuel readbuf 0, copy.Apart) ↔ ShortFrames readbuf.contents := by
  obtain ⟨fuel, rfl⟩ := Nat.exists_eq_succ_of_ne_zero (Nat.ne_zero_of_lt hfuel)
  rw [frameCopies, if_pos rfl, ShortFrames, Buffer.length_contents]
  by_cases hlen : 2 ≤ readbuf.len
  case neg =>
    rw [if_neg hlen]
    exact iff_of_true (fun copy h => by cases h) (Or.inl (not_le.mp hlen))
  case pos =>
    rw [if_pos hlen, take_contents hlen, or_iff_right (not_lt.mpr hlen), ← prefixLen]
    by_cases hzero : prefixLen readbuf = 0
    · rw [if_pos hzero]
      exact iff_of_true (fun copy h => by cases h) (Or.inl hzero)
    · rw [if_neg hzero, or_iff_right hzero, List.forall_mem_cons, shiftCopy_apart_iff]
      refine and_iff_left_of_imp fun hshort => frameCopies_apart_of_le hzero ?_
      rw [bufferShift_len]
      omega

/-- A pass of the loop, from any state. -/
theorem frameCopies_iff (readbuf : Buffer) (msglen : ℕ) :
    (∀ copy ∈ frameCopies (readbuf.len + 1) readbuf msglen, copy.Apart) ↔
      ShortPass readbuf msglen := by
  rw [ShortPass]
  by_cases hmsg : msglen = 0
  · rw [if_pos hmsg, hmsg]
    exact frameCopies_prefix_iff (Nat.lt_succ_self _)
  · rw [if_neg hmsg, frameCopies, if_neg hmsg]
    by_cases hbody : msglen ≤ readbuf.len
    · have hrest : (∀ copy ∈ frameCopies readbuf.len (bufferShift readbuf msglen) 0, copy.Apart) ↔
          ShortFrames (bufferShift readbuf msglen).contents :=
        frameCopies_prefix_iff (by rw [bufferShift_len]; omega)
      rw [bufferShift_contents] at hrest
      rw [if_pos hbody, List.forall_mem_cons, shiftCopy_apart_iff, hrest]
      exact ⟨fun h _ => h, fun h => h hbody⟩
    · rw [if_neg hbody]
      exact iff_of_true (fun copy h => by cases h) (fun h => absurd h hbody)

end Frames

/-! ## `NetSend` -/

/-- The calls in `NetSend`, in order. -/
def sendCopies : List SendResult → Buffer → List Copy
  | [], _ => []
  | r :: rs, buf =>
    if buf.len = 0 then []
    else
      match r with
      | .sent k => shiftCopy buf k :: sendCopies rs (bufferShift buf k)
      | .eintr => sendCopies rs buf
      | .eagain => []
      | .error => []

/-- Of an empty buffer nothing is sent. -/
theorem sendCopies_of_empty {rs : List SendResult} {buf : Buffer} (hempty : buf.len = 0) :
    sendCopies rs buf = [] := by
  cases rs with
  | nil => rfl
  | cons r rs => cases r <;> rw [sendCopies, if_pos hempty]

/-- The calls on record are the ones of `NetSend`. -/
theorem replay_sendCopies (rs : List SendResult) (buf : Buffer) :
    replayShifts (sendCopies rs buf) buf = (netSend rs buf).buf := by
  induction rs generalizing buf with
  | nil =>
    rw [netSend]
    split <;> rfl
  | cons r rs ih =>
    by_cases hempty : buf.len = 0
    · rw [sendCopies_of_empty hempty, netSend_of_empty hempty]
      rfl
    · cases r with
      | sent k =>
        rw [sendCopies, netSend, if_neg hempty, if_neg hempty, replayShifts_cons, ih]
      | eintr =>
        rw [sendCopies, netSend, if_neg hempty, if_neg hempty]
        exact ih buf
      | eagain =>
        rw [sendCopies, netSend, if_neg hempty, if_neg hempty]
        rfl
      | error =>
        rw [sendCopies, netSend, if_neg hempty, if_neg hempty]
        rfl

/-- Each time the kernel takes at least half of the bytes that are left. -/
def TakesHalf : List SendResult → ℕ → Prop
  | .sent k :: rs, len => len ≤ 2 * k ∧ TakesHalf rs (len - k)
  | .eintr :: rs, len => TakesHalf rs len
  | _, _ => True

/-- There is nothing to take from an empty buffer. -/
theorem takesHalf_zero (rs : List SendResult) : TakesHalf rs 0 := by
  induction rs with
  | nil => trivial
  | cons r rs ih =>
    cases r with
    | sent k =>
      refine ⟨Nat.zero_le _, ?_⟩
      rwa [Nat.zero_sub]
    | eintr => exact ih
    | eagain => trivial
    | error => trivial

/-- A call of `NetSend`, for any buffer and whatever the kernel takes. -/
theorem sendCopies_iff (rs : List SendResult) (buf : Buffer) :
    (∀ copy ∈ sendCopies rs buf, copy.Apart) ↔ TakesHalf rs buf.len := by
  induction rs generalizing buf with
  | nil => exact iff_of_true (fun copy h => by cases h) trivial
  | cons r rs ih =>
    by_cases hempty : buf.len = 0
    · rw [sendCopies_of_empty hempty, hempty]
      exact iff_of_true (fun copy h => by cases h) (takesHalf_zero _)
    · cases r with
      | sent k =>
        rw [sendCopies, if_neg hempty, List.forall_mem_cons, shiftCopy_apart_iff, ih,
          bufferShift_len]
        rfl
      | eintr =>
        rw [sendCopies, if_neg hempty]
        exact ih buf
      | eagain =>
        rw [sendCopies, if_neg hempty]
        exact iff_of_true (fun copy h => by cases h) trivial
      | error =>
        rw [sendCopies, if_neg hempty]
        exact iff_of_true (fun copy h => by cases h) trivial

/-! ## The contract of `memcpy` -/

/-- `BufferShift` meets the contract of `memcpy` in all calls of a pass of the framing loop exactly
when little is buffered, and in all calls of a `NetSend` exactly when the kernel takes at least half
of what is left each time. -/
theorem shift_memcpy_iff (readbuf : Buffer) (msglen : ℕ) (rs : List SendResult) (buf : Buffer) :
    ((∀ copy ∈ frameCopies (readbuf.len + 1) readbuf msglen, copy.Apart) ↔
        ShortPass readbuf msglen) ∧
      ((∀ copy ∈ sendCopies rs buf, copy.Apart) ↔ TakesHalf rs buf.len) :=
  ⟨frameCopies_iff readbuf msglen, sendCopies_iff rs buf⟩

/-- A frame with a body of three bytes that has arrived whole: behind the prefix more bytes stay
than go. -/
theorem shift_overlaps :
    let readbuf := bufferAppend (bufferNew 64) [0, 3, 97, 98, 99]
    frameCopies (readbuf.len + 1) readbuf 0 = [⟨2, 0, 3⟩, ⟨3, 0, 0⟩] ∧
      ¬ (⟨2, 0, 3⟩ : Copy).Apart := by
  refine ⟨by decide, by decide⟩

end TinyMsg
