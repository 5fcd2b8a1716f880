import TinyMsg.Clib.Buffer

/-!
# Sockets: `NetRecv`, `NetSend`, `NetSend_wait_until_complete` and `OpenTcpConnectSocket`

A function of `cnet.c` that makes system calls is given the list of their results, in the order of
the calls.  A list that runs out stands for a socket that has nothing more to say: `recv()` and
`send()` then answer `EAGAIN`, and `select()` times out.  So every list of results is one that can
happen, and the functions are total.

The bytes that `send()` took are part of what a sending function returns: they are what the kernel
will deliver.  The open descriptors are a set that `socket()` adds to and `close()` removes from.
-/

namespace TinyMsg

/-! ## Receiving -/

/-- The bytes that one `recv()` into the 1024-byte `readbuf` returns. -/
structure Chunk where
  /-- The bytes. -/
  bytes : List UInt8
  /-- Zero bytes are the end of the stream, which is another result. -/
  ne_nil : bytes ≠ []
  /-- The size of the buffer that `recv()` is given. -/
  length_le : bytes.length ≤ 1024
  deriving DecidableEq

/-- A result of `recv()`. -/
inductive RecvResult
  | data (c : Chunk)
  | eof
  | eintr
  | eagain
  | error
  deriving DecidableEq

/-- `NetRecv`: receive until there is nothing more; the value returned and the buffer. -/
def netRecv : List RecvResult → Buffer → ℤ × Buffer
  | [], buf => (1, buf)
  | .data c :: rs, buf => netRecv rs (bufferAppend buf c.bytes)
  | .eof :: _, buf => (0, buf)
  | .eintr :: rs, buf => netRecv rs buf
  | .eagain :: _, buf => (1, buf)
  | .error :: _, buf => (-1, buf)

/-- The bytes that arrive in one call of `NetRecv`. -/
def received : List RecvResult → List UInt8
  | .data c :: rs => c.bytes ++ received rs
  | .eintr :: rs => received rs
  | _ => []

/-- The call of `NetRecv` meets the end of the stream. -/
def reachesEof : List RecvResult → Bool
  | .data _ :: rs => reachesEof rs
  | .eintr :: rs => reachesEof rs
  | .eof :: _ => true
  | _ => false

/-- `NetRecv` appends what arrives. -/
@[simp] theorem netRecv_contents (rs : List RecvResult) (buf : Buffer) :
    (netRecv rs buf).2.contents = buf.contents ++ received rs := by
  induction rs generalizing buf with
  | nil => simp [netRecv, received]
  | cons r rs ih => cases r <;> simp [netRecv, received, ih]

/-- `NetRecv` returns `0` exactly at the end of the stream. -/
theorem netRecv_eq_zero_iff (rs : List RecvResult) (buf : Buffer) :
    (netRecv rs buf).1 = 0 ↔ reachesEof rs = true := by
  induction rs generalizing buf with
  | nil => simp [netRecv, reachesEof]
  | cons r rs ih => cases r <;> simp [netRecv, reachesEof, ih]

/-! ## Sending -/

/-- A result of `send()`. -/
inductive SendResult
  /-- The kernel took `k` bytes, or all of them if there were no more than that. -/
  | sent (k : ℕ+)
  | eintr
  | eagain
  | error
  deriving DecidableEq

/-- What a sending function leaves behind. -/
structure Sent where
  /-- The value returned. -/
  ret : ℤ
  /-- The bytes that the kernel took. -/
  accepted : List UInt8
  /-- The buffer with the bytes that were not sent. -/
  buf : Buffer
  deriving DecidableEq

/-- `NetSend`: send until the buffer is empty or the socket takes no more. -/
def netSend : List SendResult → Buffer → Sent
  | [], buf => if buf.len = 0 then ⟨0, [], buf⟩ else ⟨1, [], buf⟩
  | r :: rs, buf =>
    if buf.len = 0 then ⟨0, [], buf⟩
    else
      match r with
      | .sent k =>
        let s := netSend rs (bufferShift buf k)
        { s with accepted := buf.contents.take k ++ s.accepted }
      | .eintr => netSend rs buf
      | .eagain => ⟨1, [], buf⟩
      | .error => ⟨-1, [], buf⟩

/-- Of an empty buffer nothing is sent. -/
theorem netSend_of_empty {rs : List SendResult} {buf : Buffer} (hempty : buf.len = 0) :
    netSend rs buf = ⟨0, [], buf⟩ := by
  cases rs with
  | nil => rw [netSend, if_pos hempty]
  | cons r rs => cases r <;> rw [netSend, if_pos hempty]

/-- The bytes taken and the bytes left are the bytes there were, and the value returned says
whether any are left. -/
theorem netSend_spec (rs : List SendResult) (buf : Buffer) :
    (netSend rs buf).accepted ++ (netSend rs buf).buf.contents = buf.contents ∧
      ((netSend rs buf).ret = 0 ↔ (netSend rs buf).buf.len = 0) ∧
      ((netSend rs buf).ret = 0 ∨ (netSend rs buf).ret = 1 ∨ (netSend rs buf).ret = -1) := by
  induction rs generalizing buf with
  | nil =>
    rw [netSend]
    split <;> simp_all
  | cons r rs ih =>
    by_cases hempty : buf.len = 0
    · simp [netSend_of_empty hempty, hempty]
    · cases r with
      | sent k =>
        rw [netSend, if_neg hempty]
        obtain ⟨hbytes, hret⟩ := ih (bufferShift buf k)
        refine ⟨?_, hret⟩
        rw [List.append_assoc, hbytes, bufferShift_contents, List.take_append_drop]
      | eintr =>
        rw [netSend, if_neg hempty]
        exact ih buf
      | eagain =>
        rw [netSend, if_neg hempty]
        simp [hempty]
      | error =>
        rw [netSend, if_neg hempty]
        simp [hempty]

/-- `NetSend` reports an error only when `send()` does. -/
theorem netSend_ne_error {rs : List SendResult} (hrs : .error ∉ rs) (buf : Buffer) :
    (netSend rs buf).ret ≠ -1 := by
  have hzero : (0 : ℤ) ≠ -1 := by decide
  have hone : (1 : ℤ) ≠ -1 := by decide
  induction rs generalizing buf with
  | nil =>
    rw [netSend]
    split
    · exact hzero
    · exact hone
  | cons r rs ih =>
    by_cases hempty : buf.len = 0
    · rw [netSend_of_empty hempty]
      exact hzero
    · cases r with
      | sent k =>
        rw [netSend, if_neg hempty]
        exact ih (List.not_mem_of_not_mem_cons hrs) (bufferShift buf k)
      | eintr =>
        rw [netSend, if_neg hempty]
        exact ih (List.not_mem_of_not_mem_cons hrs) buf
      | eagain =>
        rw [netSend, if_neg hempty]
        exact hone
      | error => exact absurd List.mem_cons_self hrs

/-- The calls of `send()` for `len` bytes take fewer than that, and the last one would block. -/
def leavesRest : List SendResult → ℕ → Bool
  | [], len => 0 < len
  | .sent k :: rs, len => k < len && leavesRest rs (len - k)
  | .eintr :: rs, len => leavesRest rs len
  | .eagain :: _, len => 0 < len
  | .error :: _, _ => false

theorem leavesRest_zero (rs : List SendResult) : leavesRest rs 0 = false := by
  induction rs with
  | nil => rfl
  | cons r rs ih => cases r <;> simp [leavesRest, ih]

/-- `NetSend` returns `1` exactly when bytes are left because the socket takes no more. -/
theorem netSend_eq_one_iff (rs : List SendResult) (buf : Buffer) :
    (netSend rs buf).ret = 1 ↔ leavesRest rs buf.len = true := by
  induction rs generalizing buf with
  | nil =>
    rw [netSend]
    split <;> simp [leavesRest] <;> omega
  | cons r rs ih =>
    by_cases hempty : buf.len = 0
    · simp [netSend_of_empty hempty, hempty, leavesRest_zero]
    · cases r with
      | sent k =>
        rw [netSend, if_neg hempty]
        change (netSend rs (bufferShift buf k)).ret = 1 ↔ _
        rw [ih, bufferShift_len, leavesRest]
        by_cases hk : (k : ℕ) < buf.len
        · simp [hk]
        · have hzero : buf.len - k = 0 := by omega
          simp [hk, hzero, leavesRest_zero]
      | eintr =>
        rw [netSend, if_neg hempty]
        exact ih buf
      | eagain =>
        rw [netSend, if_neg hempty]
        simp only [leavesRest, decide_eq_true_eq, true_iff]
        omega
      | error =>
        rw [netSend, if_neg hempty]
        simp [leavesRest]

/-- A result of the `select()` that waits for a socket to take more bytes, with the results of
the `send()` calls of the round that follows when it is ready. -/
inductive SendWait
  | ready (rs : List SendResult)
  | eintr
  | timeout
  | error
  deriving DecidableEq

/-- The loop of `NetSend_wait_until_complete`. -/
def netSendWaitLoop : List SendWait → Buffer → Sent
  | [], buf => ⟨-1, [], buf⟩
  | .ready rs :: ws, buf =>
    let s := netSend rs buf
    if s.ret = -1 then { s with ret := -1 }
    else if s.ret = 0 then { s with ret := 0 }
    else
      let t := netSendWaitLoop ws s.buf
      { t with accepted := s.accepted ++ t.accepted }
  | .eintr :: ws, buf => netSendWaitLoop ws buf
  | .timeout :: _, buf => ⟨-1, [], buf⟩
  | .error :: _, buf => ⟨-1, [], buf⟩

/-- `NetSend_wait_until_complete`: a first round, and more when the socket is ready again. -/
def netSendWaitUntilComplete (rs : List SendResult) (ws : List SendWait) (buf : Buffer) : Sent :=
  let s := netSend rs buf
  if s.ret = -1 then { s with ret := -1 }
  else if s.ret = 0 then { s with ret := 0 }
  else
    let t := netSendWaitLoop ws s.buf
    { t with accepted := s.accepted ++ t.accepted }

/-- What a blocking send guarantees: no byte is lost or doubled, and it returns `0` only when all
of them were taken, otherwise `-1`. -/
structure SendsAll (s : Sent) (buf : Buffer) : Prop where
  /-- The bytes taken and the bytes left are the bytes there were. -/
  bytes : s.accepted ++ s.buf.contents = buf.contents
  /-- Success means that none are left. -/
  done : s.ret = 0 → s.buf.contents = []
  /-- There is no third result. -/
  ret : s.ret = 0 ∨ s.ret = -1

/-- Giving up before anything more was sent. -/
theorem sendsAll_fail (buf : Buffer) : SendsAll ⟨-1, [], buf⟩ buf :=
  ⟨rfl, fun h => absurd h (by simp), Or.inr rfl⟩

/-- A round of `NetSend` followed by waiting guarantees what the waiting does. -/
theorem sendsAll_round {rs : List SendResult} {buf : Buffer} {t : Sent}
    (ht : SendsAll t (netSend rs buf).buf) :
    SendsAll
      (if (netSend rs buf).ret = -1 then { netSend rs buf with ret := -1 }
      else if (netSend rs buf).ret = 0 then { netSend rs buf with ret := 0 }
      else { t with accepted := (netSend rs buf).accepted ++ t.accepted }) buf := by
  obtain ⟨hbytes, hzero, -⟩ := netSend_spec rs buf
  split
  · exact ⟨hbytes, fun h => absurd h (by simp), Or.inr rfl⟩
  · split
    case isTrue h =>
      exact ⟨hbytes, fun _ => (Buffer.contents_eq_nil_iff _).mpr (hzero.mp h), Or.inl rfl⟩
    case isFalse =>
      refine ⟨?_, ht.done, ht.ret⟩
      rw [List.append_assoc, ht.bytes, hbytes]

/-- The waiting loop is all or error. -/
theorem netSendWaitLoop_sendsAll (ws : List SendWait) (buf : Buffer) :
    SendsAll (netSendWaitLoop ws buf) buf := by
  induction ws generalizing buf with
  | nil => exact sendsAll_fail buf
  | cons w ws ih =>
    cases w with
    | ready rs => exact sendsAll_round (ih _)
    | eintr => exact ih buf
    | timeout => exact sendsAll_fail buf
    | error => exact sendsAll_fail buf

/-- A blocking send is all or error. -/
theorem netSendWait_sendsAll (rs : List SendResult) (ws : List SendWait) (buf : Buffer) :
    SendsAll (netSendWaitUntilComplete rs ws buf) buf :=
  sendsAll_round (netSendWaitLoop_sendsAll ws _)

/-- `NetSend` succeeds exactly when no bytes are left. -/
theorem netSend_ret_eq_zero_iff (rs : List SendResult) (buf : Buffer) :
    (netSend rs buf).ret = 0 ↔ (netSend rs buf).buf.len = 0 := (netSend_spec rs buf).2.1

/-- A round of `NetSend` followed by waiting succeeds exactly when no bytes are left, if the waiting
does. -/
theorem round_ret_eq_zero_iff {rs : List SendResult} {buf : Buffer} {t : Sent}
    (ht : 0 < (netSend rs buf).buf.len → (t.ret = 0 ↔ t.buf.len = 0)) :
    let s :=
      if (netSend rs buf).ret = -1 then { netSend rs buf with ret := -1 }
      else if (netSend rs buf).ret = 0 then { netSend rs buf with ret := 0 }
      else { t with accepted := (netSend rs buf).accepted ++ t.accepted }
    s.ret = 0 ↔ s.buf.len = 0 := by
  have hround := netSend_ret_eq_zero_iff rs buf
  intro s
  unfold s
  split
  case isTrue herr =>
    rw [herr] at hround
    exact hround
  case isFalse =>
    split
    case isTrue hzero =>
      rw [hzero] at hround
      exact hround
    case isFalse hzero => exact ht (Nat.pos_of_ne_zero fun hlen => hzero (hround.mpr hlen))

/-- The waiting loop, with bytes to send, succeeds exactly when no bytes are left. -/
theorem netSendWaitLoop_ret_eq_zero_iff (ws : List SendWait) {buf : Buffer} (hbuf : 0 < buf.len) :
    (netSendWaitLoop ws buf).ret = 0 ↔ (netSendWaitLoop ws buf).buf.len = 0 := by
  have hfail : ((-1 : ℤ) = 0 ↔ buf.len = 0) := by
    constructor
    · intro h
      exact absurd h (by decide)
    · intro h
      exact absurd h hbuf.ne'
  induction ws generalizing buf with
  | nil => exact hfail
  | cons w ws ih =>
    cases w with
    | ready rs =>
      refine round_ret_eq_zero_iff fun hrest => ih hrest ?_
      constructor
      · intro h
        exact absurd h (by decide)
      · intro h
        exact absurd h hrest.ne'
    | eintr => exact ih hbuf hfail
    | timeout => exact hfail
    | error => exact hfail

/-- A blocking send succeeds exactly when no bytes are left. -/
theorem netSendWait_ret_eq_zero_iff (rs : List SendResult) (ws : List SendWait) (buf : Buffer) :
    (netSendWaitUntilComplete rs ws buf).ret = 0 ↔
      (netSendWaitUntilComplete rs ws buf).buf.len = 0 :=
  round_ret_eq_zero_iff fun hrest => netSendWaitLoop_ret_eq_zero_iff ws hrest

/-- For every buffer and all results of `send()` and `select()`: a blocking send loses and doubles
no byte, and returns `0` if the kernel took the whole buffer and `-1` otherwise; one round of
`NetSend` returns `0` exactly when it leaves nothing, and `1` only when it leaves something. -/
theorem blocking_send (rs : List SendResult) (ws : List SendWait) (buf : Buffer) :
    ((netSendWaitUntilComplete rs ws buf).accepted ++
        (netSendWaitUntilComplete rs ws buf).buf.contents = buf.contents ∧
      (netSendWaitUntilComplete rs ws buf).ret =
        if (netSendWaitUntilComplete rs ws buf).accepted = buf.contents then 0 else -1) ∧
      ((netSend rs buf).ret = 0 ↔ (netSend rs buf).buf.len = 0) ∧
      ((netSend rs buf).ret = 1 → 0 < (netSend rs buf).buf.len) := by
  obtain ⟨hbytes, -, hret⟩ := netSendWait_sendsAll rs ws buf
  have hzero := netSendWait_ret_eq_zero_iff rs ws buf
  have hround := netSend_ret_eq_zero_iff rs buf
  refine ⟨⟨hbytes, ?_⟩, hround, fun hone => Nat.pos_of_ne_zero fun hlen => ?_⟩
  · -- the whole buffer was taken when nothing of it is left
    have htaken : (netSendWaitUntilComplete rs ws buf).accepted = buf.contents ↔
        (netSendWaitUntilComplete rs ws buf).buf.len = 0 := by
      rw [← Buffer.contents_eq_nil_iff, ← hbytes, List.self_eq_append_right]
    split
    case isTrue hall => exact hzero.mpr (htaken.mp hall)
    case isFalse hpart =>
      exact hret.resolve_left fun h => hpart (htaken.mpr (hzero.mp h))
  · rw [hround.mpr hlen] at hone
    exact absurd hone (by decide)

/-- When the kernel takes everything at once, the send succeeds. -/
theorem netSendWait_at_once (ws : List SendWait) {buf : Buffer} {k : ℕ+} (hk : buf.len ≤ k) :
    (netSendWaitUntilComplete [.sent k] ws buf).ret = 0 := by
  have hempty : (bufferShift buf k).len = 0 := by
    rw [bufferShift_len]
    omega
  have hret : (netSend [.sent k] buf).ret = 0 := by
    rw [netSend]
    split
    · rfl
    · change (netSend [] (bufferShift buf k)).ret = 0
      rw [netSend, if_pos hempty]
  simp [netSendWaitUntilComplete, hret]

/-! ## Connecting -/

/-- A result of the nonblocking `connect()`. -/
inductive ConnectResult
  | connected
  | inProgress
  | error
  deriving DecidableEq

/-- A result of the `select()` that waits for the connection. -/
inductive SelectResult
  | ready
  | eintr
  | timeout
  | error
  deriving DecidableEq

/-- The results of the system calls of one `OpenTcpConnectSocket`. -/
structure ConnectEnv where
  /-- The new descriptor, if `socket()` succeeds. -/
  socket : Option ℕ
  /-- `setsockopt()` succeeds. -/
  setsockopt : Bool
  /-- `bind()` succeeds. -/
  bind : Bool
  /-- The result of `connect()`. -/
  connect : ConnectResult
  /-- The results of `select()`. -/
  selects : List SelectResult
  /-- The `SO_ERROR` that `getsockopt()` returns, if it succeeds. -/
  soError : Option ℕ

/-- The loop around `select()` in `OpenTcpConnectSocket`: whether the socket became ready. -/
def waitConnected : List SelectResult → Bool
  | [] => false
  | .ready :: _ => true
  | .eintr :: rs => waitConnected rs
  | .timeout :: _ => false
  | .error :: _ => false

/-- `OpenTcpConnectSocket`: the connected socket, if all goes well, and the open descriptors
afterwards.  The returns after a failed `setsockopt()` or `bind()` leave the socket open. -/
def openTcpConnectSocket (env : ConnectEnv) (fds : Finset ℕ) : Option ℕ × Finset ℕ :=
  match env.socket with
  | none => (none, fds)
  | some fd =>
    let opened := insert fd fds
    if !env.setsockopt then (none, opened)
    else if !env.bind then (none, opened)
    else
      match env.connect with
      | .connected => (some fd, opened)
      | .error => (none, opened.erase fd)
      | .inProgress =>
        if !waitConnected env.selects then (none, opened.erase fd)
        else if env.soError = some 0 then (some fd, opened)
        else (none, opened.erase fd)

end TinyMsg
