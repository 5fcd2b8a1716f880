import TinyMsg.Client.Framing
import TinyMsg.Clib.Arena
import TinyMsg.Cnet.Pack
import TinyMsg.Tracker.Memory

/-!
# The framing loop of the client in `tscratch`

The `readbuf`s of all connections grow in `tscratch`, an arena of 1 MiB, and `ArenaAlloc` aborts the
client when a block does not fit (`serveIn`).  A buffer that grows leaves its old block behind, and
`NetRecv` appends all that has arrived before a frame is dispatched; so how much is buffered, and
with it how much is taken from the arena, depends on how the stream is cut.

What the chunks make `BufferAppend` take depends on their sizes alone (`growth`), and what is
buffered between two times that `select()` reports the connection is the incomplete frame at the
end of the bytes so far.  With that the blocks taken can be counted beforehand (`Demand`), and the
connection is served like the reference reader serves the bytes that arrive before the count
exceeds what is left of the arena (`serveIn_spec`).

The calls of `handle_msg` are taken to come back.  It is given the arena by value, so what it takes
is free again when it does.
-/

namespace TinyMsg

/-- `NetRecv`, in an arena. -/
def netRecvIn : List RecvResult → Arena → Buffer → Except Stop (Arena × ℤ × Buffer)
  | [], arena, buf => .ok (arena, 1, buf)
  | .data c :: rs, arena, buf => do
    let (arena, buf) ← bufferAppendIn arena buf c.bytes
    netRecvIn rs arena buf
  | .eof :: _, arena, buf => .ok (arena, 0, buf)
  | .eintr :: rs, arena, buf => netRecvIn rs arena buf
  | .eagain :: _, arena, buf => .ok (arena, 1, buf)
  | .error :: _, arena, buf => .ok (arena, -1, buf)

/-- A time that `select()` reports a connection. -/
structure Wake where
  /-- The bytes that the arena has handed out for other connections since the last time. -/
  others : ℕ
  /-- The results of the `recv()` calls. -/
  recvs : List RecvResult

/-- The life of a connection whose buffer draws on an arena; it is over when `ArenaAlloc` aborts. -/
def serveIn : Arena → Conn → List Wake → Served
  | _, _, [] => ⟨[], false⟩
  | arena, c, w :: wakes =>
    match arenaAlloc arena w.others >>= fun arena => netRecvIn w.recvs arena c.readbuf with
    | .error _ => ⟨[], false⟩
    | .ok (arena, ret, readbuf) =>
      let p := frameLoop (readbuf.len + 1) { c with readbuf := readbuf }
      if ret = 0 ∨ p.zero then ⟨p.dispatched, p.zero⟩
      else
        let s := serveIn arena p.conn wakes
        ⟨p.dispatched ++ s.dispatched, s.zeroClosed⟩

/-- The byte stream that arrives. -/
def wakeStream (wakes : List Wake) : List UInt8 := stream (wakes.map Wake.recvs)

/-! ## What is taken from the arena -/

/-- The size of the block that `BufferAppend` takes for `n` more bytes in a buffer with `len` of
`cap` bytes in use: the new capacity, if it is a larger one. -/
def growBlock (n len cap : ℕ) : ℕ :=
  if growCap n len (len + n) cap > cap then growCap n len (len + n) cap else 0

/-- Chunks of these sizes are appended to a buffer with `len` of `cap` bytes in use: the sizes of
the blocks taken, and the capacity afterwards. -/
def growth : List ℕ → ℕ → ℕ → ℕ × ℕ
  | [], _, cap => (0, cap)
  | n :: ns, len, cap =>
    let g := growth ns (len + n) (growCap n len (len + n) cap)
    (growBlock n len cap + g.1, g.2)

/-- The sizes of the chunks that arrive. -/
def chunkSizes : List RecvResult → List ℕ
  | .data c :: rs => c.bytes.length :: chunkSizes rs
  | .eintr :: rs => chunkSizes rs
  | _ => []

section Receiving

variable {arena : Arena} {buf : Buffer} {bs : List UInt8} {rs : List RecvResult}

/-- With room for the block `BufferAppend` takes it. -/
theorem bufferAppendIn_room (hroom : arena.pos + growBlock bs.length buf.len buf.cap ≤ arena.cap) :
    ∃ arena', bufferAppendIn arena buf bs = .ok (arena', bufferAppend buf bs) ∧
      arena'.pos = arena.pos + growBlock bs.length buf.len buf.cap ∧ arena'.cap = arena.cap := by
  rw [growBlock, ← appendCap] at hroom ⊢
  rw [bufferAppendIn]
  by_cases hgrow : appendCap buf bs.length > buf.cap
  · rw [if_pos hgrow] at hroom ⊢
    rw [if_pos hgrow, arenaAlloc_ok hroom]
    exact ⟨_, rfl, rfl, rfl⟩
  · rw [if_neg hgrow]
    rw [if_neg hgrow]
    exact ⟨arena, rfl, rfl, rfl⟩

/-- Without it the process aborts. -/
theorem bufferAppendIn_over (hover : arena.cap < arena.pos + growBlock bs.length buf.len buf.cap) :
    bufferAppendIn arena buf bs = .error .noMemory := by
  rw [growBlock, ← appendCap] at hover
  split at hover
  case isTrue hgrow =>
    rw [bufferAppendIn, if_pos hgrow, arenaAlloc_error hover]
    rfl
  case isFalse => exact absurd arena.pos_le_cap (not_le.mpr hover)

/-- The capacity of the buffer after a call of `NetRecv`. -/
theorem netRecv_cap (rs : List RecvResult) (buf : Buffer) :
    (netRecv rs buf).2.cap = (growth (chunkSizes rs) buf.len buf.cap).2 := by
  induction rs generalizing buf with
  | nil => rfl
  | cons r rs ih =>
    cases r with
    | data c =>
      rw [netRecv, ih, bufferAppend_len]
      rfl
    | eintr => exact ih buf
    | eof | eagain | error => rfl

/-- With room for the blocks `NetRecv` does what it does without an arena. -/
theorem netRecvIn_room
    (hroom : arena.pos + (growth (chunkSizes rs) buf.len buf.cap).1 ≤ arena.cap) :
    ∃ arena', netRecvIn rs arena buf = .ok (arena', netRecv rs buf) ∧
      arena'.pos = arena.pos + (growth (chunkSizes rs) buf.len buf.cap).1 ∧
      arena'.cap = arena.cap := by
  induction rs generalizing arena buf with
  | nil => exact ⟨arena, rfl, rfl, rfl⟩
  | cons r rs ih =>
    cases r with
    | eof | eagain | error => exact ⟨arena, rfl, rfl, rfl⟩
    | eintr => exact ih hroom
    | data c =>
      rw [chunkSizes, growth] at hroom ⊢
      dsimp only at hroom ⊢
      have hfirst : arena.pos + growBlock c.bytes.length buf.len buf.cap ≤ arena.cap := by omega
      obtain ⟨arena₁, happend, hpos₁, hcap₁⟩ := bufferAppendIn_room hfirst
      have hlen := bufferAppend_len buf c.bytes
      rw [← hlen] at hroom ⊢
      have hrest : arena₁.pos + (growth (chunkSizes rs) (bufferAppend buf c.bytes).len
          (bufferAppend buf c.bytes).cap).1 ≤ arena₁.cap := by
        rw [hpos₁, hcap₁, Nat.add_assoc]
        exact hroom
      obtain ⟨arena₂, hrecv, hpos₂, hcap₂⟩ := ih hrest
      rw [netRecvIn, happend, ok_bind, netRecv]
      refine ⟨arena₂, hrecv, ?_, hcap₂.trans hcap₁⟩
      rw [hpos₂, hpos₁, Nat.add_assoc]
      rfl

/-- Without it the process aborts. -/
theorem netRecvIn_over
    (hover : arena.cap < arena.pos + (growth (chunkSizes rs) buf.len buf.cap).1) :
    netRecvIn rs arena buf = .error .noMemory := by
  have hle := arena.pos_le_cap
  induction rs generalizing arena buf with
  | nil => exact absurd hover (not_lt.mpr hle)
  | cons r rs ih =>
    cases r with
    | eof | eagain | error => exact absurd hover (not_lt.mpr hle)
    | eintr => exact ih hover hle
    | data c =>
      rw [chunkSizes, growth] at hover
      dsimp only at hover
      rw [netRecvIn]
      rcases Nat.lt_or_ge arena.cap (arena.pos + growBlock c.bytes.length buf.len buf.cap) with
        hblock | hblock
      · rw [bufferAppendIn_over hblock]
        rfl
      · obtain ⟨arena₁, happend, hpos₁, hcap₁⟩ := bufferAppendIn_room hblock
        rw [happend, ok_bind]
        refine ih ?_ arena₁.pos_le_cap
        rw [hpos₁, hcap₁, bufferAppend_len, Nat.add_assoc]
        exact hover

end Receiving

/-! ## How much is taken while a connection lasts -/

/-- The bytes of an incomplete frame that are in `readbuf`: a prefix that is complete has been taken
off. -/
def bufferedLen (rest : List UInt8) : ℕ := if rest.length < 2 then rest.length else rest.length - 2

/-- What the arena has handed out since a connection was accepted, and what the next blocks depend
on. -/
structure Demand where
  /-- The sizes of the blocks together, those for other connections included. -/
  taken : ℕ
  /-- The capacity of `readbuf`. -/
  cap : ℕ
  /-- The incomplete frame at the end of the bytes received. -/
  rest : List UInt8

/-- `select()` reports the connection. -/
def Demand.wake (d : Demand) (w : Wake) : Demand :=
  let g := growth (chunkSizes w.recvs) (bufferedLen d.rest) d.cap
  ⟨d.taken + w.others + g.1, g.2, (parse 2 (d.rest ++ received w.recvs)).rest⟩

/-- `accept()` has made the connection. -/
def demandNew : Demand := ⟨0, 64, []⟩

/-- The times that an arena has room for, up to the first one that it has no room for. -/
def Demand.fitting (start : Arena) : Demand → List Wake → List Wake
  | _, [] => []
  | d, w :: wakes =>
    if start.pos + (d.wake w).taken ≤ start.cap then w :: fitting start (d.wake w) wakes else []

/-- What has been counted is the state of a connection that was accepted with the arena at
`start`. -/
structure Demand.Counts (d : Demand) (start arena : Arena) (c : Conn) : Prop where
  /-- The blocks are taken one after the other. -/
  pos : arena.pos = start.pos + d.taken
  /-- The arena keeps its size. -/
  size : arena.cap = start.cap
  /-- `cap` -/
  cap : c.readbuf.cap = d.cap
  /-- A complete prefix is off the buffer. -/
  short : c.msglen = 0 → c.readbuf.len < 2
  /-- The bytes that are not dispatched yet. -/
  rest : c.pending = d.rest

section Counting

variable {start arena : Arena} {d : Demand} {c : Conn}

/-- The bytes in the buffer. -/
theorem Demand.Counts.len (h : d.Counts start arena c) : bufferedLen d.rest = c.readbuf.len := by
  have hshort := h.short
  rw [bufferedLen, ← h.rest, Conn.pending, List.length_append, Buffer.length_contents]
  by_cases hmsg : c.msglen = 0
  · have hlt := hshort hmsg
    rw [if_pos hmsg, List.length_nil, Nat.zero_add, if_pos hlt]
  · rw [if_neg hmsg, length_bigEndian, if_neg (by omega)]
    omega

/-- The loop leaves the capacity alone, and when it ends for want of bytes a complete prefix is off
the buffer. -/
theorem frameLoop_conn {fuel : ℕ} (hfuel : c.readbuf.len < fuel)
    (hzero : (frameLoop fuel c).zero = false) :
    (frameLoop fuel c).conn.readbuf.cap = c.readbuf.cap ∧
      ((frameLoop fuel c).conn.msglen = 0 → (frameLoop fuel c).conn.readbuf.len < 2) := by
  induction fuel generalizing c with
  | zero => omega
  | succ fuel ih =>
    rw [frameLoop] at hzero ⊢
    by_cases hmsg : c.msglen = 0
    · rw [if_pos hmsg] at hzero ⊢
      by_cases htwo : 2 ≤ c.readbuf.len
      · rw [if_pos htwo] at hzero ⊢
        by_cases hprefix : prefixLen c.readbuf = 0
        · rw [if_pos hprefix] at hzero
          cases hzero
        · rw [if_neg hprefix] at hzero ⊢
          exact ih (by simp only [bufferShift_len]; omega) hzero
      · rw [if_neg htwo]
        exact ⟨rfl, fun _ => not_le.mp htwo⟩
    · rw [if_neg hmsg] at hzero ⊢
      by_cases hbody : c.msglen ≤ c.readbuf.len
      · rw [if_pos hbody] at hzero ⊢
        exact ih (c := ⟨bufferShift c.readbuf c.msglen, 0, by decide⟩)
          (by simp only [bufferShift_len]; omega) hzero
      · rw [if_neg hbody]
        exact ⟨rfl, fun h => absurd h hmsg⟩

/-- What a time that `select()` reports the connection takes. -/
theorem Demand.Counts.taken (h : d.Counts start arena c) (w : Wake) :
    (d.wake w).taken = d.taken + w.others +
      (growth (chunkSizes w.recvs) c.readbuf.len c.readbuf.cap).1 := by
  rw [Demand.wake, h.len, h.cap]

/-- If it has been counted to be too much, the process aborts. -/
theorem Demand.Counts.over (h : d.Counts start arena c) {w : Wake}
    (hover : ¬ start.pos + (d.wake w).taken ≤ start.cap) :
    (arenaAlloc arena w.others >>= fun arena => netRecvIn w.recvs arena c.readbuf) =
      .error .noMemory := by
  have htaken := h.taken w
  have hpos := h.pos
  have hsize := h.size
  rcases Nat.lt_or_ge arena.cap (arena.pos + w.others) with hother | hother
  · rw [arenaAlloc_error hother]
    rfl
  · rw [arenaAlloc_ok hother, ok_bind]
    refine netRecvIn_over ?_
    dsimp only
    omega

/-- Otherwise the bytes are received, and after the pass of the framing loop the count goes on. -/
theorem Demand.Counts.next (h : d.Counts start arena c) {w : Wake}
    (hfits : start.pos + (d.wake w).taken ≤ start.cap) :
    ∃ arena', (arenaAlloc arena w.others >>= fun arena => netRecvIn w.recvs arena c.readbuf) =
        .ok (arena', netRecv w.recvs c.readbuf) ∧
      ∀ p, frameLoop ((netRecv w.recvs c.readbuf).2.len + 1)
          { c with readbuf := (netRecv w.recvs c.readbuf).2 } = p → p.zero = false →
        (d.wake w).Counts start arena' p.conn := by
  have htaken := h.taken w
  have hpos := h.pos
  have hsize := h.size
  have hother : arena.pos + w.others ≤ arena.cap := by omega
  obtain ⟨arena', hrecv, hpos', hsize'⟩ := @netRecvIn_room
    ⟨arena.pos + w.others, arena.cap, hother⟩ c.readbuf w.recvs (by dsimp only; omega)
  dsimp only at hpos'
  refine ⟨arena', by rw [arenaAlloc_ok hother, ok_bind, hrecv], ?_⟩
  rintro p rfl hzero
  obtain ⟨-, hstopped, hrest⟩ := frameLoop_spec
    (c := { c with readbuf := (netRecv w.recvs c.readbuf).2 }) (Nat.lt_succ_self _)
  obtain ⟨hcap, hshort⟩ := frameLoop_conn
    (c := { c with readbuf := (netRecv w.recvs c.readbuf).2 }) (Nat.lt_succ_self _) hzero
  refine ⟨by omega, hsize'.trans hsize, ?_, hshort, ?_⟩
  · rw [hcap, netRecv_cap, Demand.wake, h.len, h.cap]
  · rw [hrest (hstopped ▸ hzero), pending_netRecv, h.rest, Demand.wake]

/-- A connection is served as it would be without a limit, up to the first time that the arena has
no room for. -/
theorem serveIn_eq_serve (h : d.Counts start arena c) (wakes : List Wake) :
    serveIn arena c wakes = serve c ((d.fitting start wakes).map Wake.recvs) := by
  induction wakes generalizing d arena c with
  | nil => rfl
  | cons w wakes ih =>
    rw [serveIn, Demand.fitting]
    by_cases hfits : start.pos + (d.wake w).taken ≤ start.cap
    case neg =>
      rw [if_neg hfits, h.over hfits]
      rfl
    case pos =>
      obtain ⟨arena', hrecv, hnext⟩ := h.next hfits
      rw [if_pos hfits, hrecv, List.map_cons, serve]
      dsimp only
      split
      · rfl
      case isFalse hopen =>
        obtain ⟨-, hzero⟩ := not_or.mp hopen
        rw [ih (hnext _ rfl (Bool.not_eq_true _ ▸ hzero))]

/-- The times that fit are the first ones, and the next one overruns the arena. -/
theorem Demand.fitting_cases (start : Arena) (d : Demand) (wakes : List Wake) :
    d.fitting start wakes = wakes ∨ ∃ w rest, wakes = d.fitting start wakes ++ w :: rest ∧
      start.cap < start.pos + ((d.fitting start wakes ++ [w]).foldl Demand.wake d).taken := by
  induction wakes generalizing d with
  | nil => exact Or.inl rfl
  | cons w wakes ih =>
    rw [Demand.fitting]
    split
    case isTrue =>
      rcases ih (d.wake w) with hall | ⟨w', rest, hsplit, hover⟩
      · exact Or.inl (congrArg _ hall)
      · exact Or.inr ⟨w', rest, congrArg _ hsplit, hover⟩
    case isFalse hover => exact Or.inr ⟨w, wakes, rfl, not_le.mp hover⟩

/-- No time that overruns the arena is among them. -/
theorem Demand.fitting_le {ws rest : List Wake} {w : Wake}
    (hover : start.cap < start.pos + ((ws ++ [w]).foldl Demand.wake d).taken) :
    d.fitting start (ws ++ w :: rest) <+: ws := by
  induction ws generalizing d with
  | nil =>
    have hfirst : start.cap < start.pos + (d.wake w).taken := hover
    rw [List.nil_append, Demand.fitting, if_neg (not_le.mpr hfirst)]
  | cons x ws ih =>
    rw [List.cons_append, Demand.fitting]
    split
    · exact (List.prefix_cons_inj x).mpr (ih hover)
    · exact List.nil_prefix

end Counting

/-! ## The reference reader -/

/-- What the arena has handed out after these times that `select()` has reported a connection. -/
def demand (wakes : List Wake) : Demand := wakes.foldl Demand.wake demandNew

/-- What has arrived comes first in what arrives. -/
theorem wakeStream_mono {ws wakes : List Wake} (h : ws <+: wakes) :
    wakeStream ws <+: wakeStream wakes := by
  obtain ⟨rest, rfl⟩ := h
  induction ws with
  | nil => exact List.nil_prefix
  | cons w ws ih =>
    rw [wakeStream, wakeStream, List.cons_append, List.map_cons, List.map_cons, stream, stream]
    refine (List.prefix_append_right_inj _).mpr ?_
    split
    · exact List.prefix_rfl
    · exact ih

/-- The calls of `handle_msg` and the closing are those of the reference reader on what arrives at
the times that the arena has room for. -/
theorem serveIn_spec (arena : Arena) (wakes : List Wake) :
    (serveIn arena connNew wakes).dispatched.map Dispatch.message =
        (parse 2 (wakeStream (demandNew.fitting arena wakes))).bodies.map withLength ∧
      (serveIn arena connNew wakes).zeroClosed =
        (parse 2 (wakeStream (demandNew.fitting arena wakes))).stopped := by
  have hcounts : demandNew.Counts arena arena connNew :=
    ⟨rfl, rfl, rfl, fun _ => Nat.zero_lt_two, rfl⟩
  have hnew : parse 2 connNew.pending = ⟨[], false, connNew.pending⟩ := parse_short (by decide)
  rw [serveIn_eq_serve hcounts]
  exact serve_spec _ hnew

/-- The bytes that `NetPackLen` appends for some format and arguments whose packed body, what
`NetPack` appends for them, has 1 to 65535 bytes. -/
structure PackedFrame (bytes body : List UInt8) : Prop where
  /-- The body is not empty. -/
  pos : body ≠ []
  /-- Its length fits the prefix. -/
  lt : body.length < 2 ^ 16
  /-- A format and arguments pack to the body, and to the bytes with the length in front. -/
  packed : ∃ fmt args, ∀ buf,
    (∃ buf', netPackV buf fmt args = .ok (buf', (body.length : ℤ)) ∧
      buf'.contents = buf.contents ++ body) ∧
    ∃ buf' n, netPackLenV buf fmt args = .ok (buf', n) ∧ buf'.contents = buf.contents ++ bytes

/-- The frames that `NetPackLen` makes are length-prefixed frames. -/
theorem PackedFrame.eq_frame {bytes body : List UInt8} (h : PackedFrame bytes body) :
    bytes = frame 2 body := by
  obtain ⟨fmt, args, hpacked⟩ := h.packed
  obtain ⟨buf₁, hpack, hbuf₁⟩ := (hpacked (bufferAppend (bufferNew 0) [0, 0])).1
  obtain ⟨buf₂, n, hlen, hbuf₂⟩ := (hpacked (bufferNew 0)).2
  rw [← wrapInt_of_lt (lt_trans h.lt (by decide))] at hpack
  obtain ⟨buf₃, hlen', hbuf₃⟩ := netPackLenV_of_pack hpack hbuf₁
  rw [hlen, Except.ok.injEq, Prod.mk.injEq] at hlen'
  obtain ⟨rfl, -⟩ := hlen'
  rw [patch_length _ h.lt] at hbuf₃
  exact List.append_cancel_left (hbuf₂.symm.trans hbuf₃)

/-- `tscratch` when `accept()` has made the first connection: the array of contexts and the two
buffers have been taken from it. -/
def tscratchAccepted : Arena := ⟨64 * socketCtxSize + 64 + 64, 1024 * 1024, by decide⟩

section Alone

variable {n len cap k : ℕ} {ns : List ℕ}

/-- `BufferAppend` settles on a capacity that doubling reaches. -/
theorem growCap_of_room (hlen : len ≤ cap) (hroom : len + n ≤ cap * 2 ^ k) :
    ∃ j ≤ k, growCap n len (len + n) cap = cap * 2 ^ j := by
  obtain ⟨j, hgrow, hfull⟩ := growCap_eq n (len + n) hlen
  refine ⟨j, ?_, hgrow⟩
  by_contra hlt
  exact absurd (hfull k (not_le.mp hlt)) (not_lt.mpr hroom)

/-- The blocks that a buffer leaves behind are together not larger than the one it has. -/
theorem growth_of_room (hcap : 0 < cap) (hlen : len ≤ cap) (hroom : len + ns.sum ≤ cap * 2 ^ k) :
    (growth ns len cap).1 + 2 * cap ≤ 2 * (growth ns len cap).2 ∧
      len + ns.sum ≤ (growth ns len cap).2 ∧
      ∃ j ≤ k, (growth ns len cap).2 = cap * 2 ^ j := by
  induction ns generalizing len cap k with
  | nil => exact ⟨by simp [growth], hlen, 0, Nat.zero_le k, by simp [growth]⟩
  | cons n ns ih =>
    rw [List.sum_cons] at hroom
    obtain ⟨j, hj, hgrow⟩ := growCap_of_room (n := n) hlen (k := k) (by omega)
    have hfits : len + n ≤ cap * 2 ^ j := by
      rw [← hgrow]
      refine growCap_room hlen ?_
      calc len + n ≤ 2 ^ (len + n) := Nat.lt_two_pow_self.le
        _ ≤ cap * 2 ^ (len + n) := Nat.le_mul_of_pos_left _ hcap
    have hdouble : cap * 2 ^ j * 2 ^ (k - j) = cap * 2 ^ k := by
      rw [Nat.mul_assoc, ← pow_add, Nat.add_sub_cancel' hj]
    have hrest : len + n + ns.sum ≤ cap * 2 ^ j * 2 ^ (k - j) := by
      rw [hdouble]
      omega
    obtain ⟨hsum, hbytes, i, hi, hlast⟩ :=
      ih (Nat.mul_pos hcap (Nat.two_pow_pos j)) hfits hrest
    have hblock : growBlock n len cap + 2 * cap ≤ 2 * (cap * 2 ^ j) := by
      rw [growBlock, hgrow]
      cases j with
      | zero => simp
      | succ j =>
        have hpow := Nat.le_mul_of_pos_right (cap * 2) (Nat.two_pow_pos j)
        rw [Nat.mul_assoc, ← pow_succ'] at hpow
        split <;> omega
    rw [growth, hgrow]
    dsimp only
    refine ⟨by omega, by rw [List.sum_cons]; omega, j + i, by omega, ?_⟩
    rw [hlast, Nat.mul_assoc, ← pow_add]

/-- The chunks are what is received. -/
theorem chunkSizes_sum (rs : List RecvResult) : (chunkSizes rs).sum = (received rs).length := by
  induction rs with
  | nil => rfl
  | cons r rs ih =>
    cases r with
    | data c => rw [chunkSizes, received, List.sum_cons, List.length_append, ih]
    | eintr => exact ih
    | eof | eagain | error => rfl

/-- What is in the buffer after a pass of the loop was in it before, or has been received. -/
theorem bufferedLen_parse (rest bs : List UInt8) :
    bufferedLen (parse 2 (rest ++ bs)).rest ≤ bufferedLen rest + bs.length := by
  have hlen : (rest ++ bs).length = rest.length + bs.length := List.length_append
  rcases parse_rest_length 2 (rest ++ bs) with hsame | hless
  · rw [hsame, bufferedLen, bufferedLen, hlen]
    split <;> split <;> omega
  · rw [hlen] at hless
    rw [bufferedLen, bufferedLen]
    split <;> split <;> omega

/-- What has been counted for a connection that is alone and whose buffer fits 262144 bytes. -/
structure Demand.Alone (d : Demand) : Prop where
  /-- The blocks left behind are together not larger than the last one. -/
  taken : d.taken + 2 * 64 ≤ 2 * d.cap
  /-- The capacity is reached by doubling. -/
  cap : ∃ j ≤ 12, d.cap = 64 * 2 ^ j
  /-- The incomplete frame is in the buffer. -/
  len : bufferedLen d.rest ≤ d.cap

/-- It goes on so. -/
theorem Demand.Alone.wake {d : Demand} (h : d.Alone) {w : Wake} (hw : w.others = 0)
    (hroom : bufferedLen d.rest + (received w.recvs).length ≤ 2 ^ 18) : (d.wake w).Alone := by
  obtain ⟨j, hj, hcap⟩ := h.cap
  have hpos : 0 < d.cap := hcap ▸ Nat.mul_pos (by decide) (Nat.two_pow_pos j)
  have hmax : d.cap * 2 ^ (12 - j) = 2 ^ 18 := by
    rw [hcap, Nat.mul_assoc, ← pow_add, Nat.add_sub_cancel' hj]
    rfl
  have hchunks : bufferedLen d.rest + (chunkSizes w.recvs).sum ≤ d.cap * 2 ^ (12 - j) := by
    rw [chunkSizes_sum, hmax]
    exact hroom
  obtain ⟨hsum, hbytes, i, hi, hlast⟩ := growth_of_room hpos h.len hchunks
  have htaken := h.taken
  rw [chunkSizes_sum] at hbytes
  refine ⟨?_, ⟨j + i, by omega, ?_⟩, (bufferedLen_parse _ _).trans hbytes⟩
  · rw [Demand.wake]
    dsimp only
    omega
  · rw [Demand.wake, hlast, hcap, Nat.mul_assoc, ← pow_add]

end Alone

/-- A connection that is alone and in whose buffer at no time more than 262144 bytes come together
is served like the reference reader serves the stream. -/
theorem alone_as_reference (wakes : List Wake) (halone : ∀ w ∈ wakes, w.others = 0)
    (hroom : ∀ ws w rest, wakes = ws ++ w :: rest →
      bufferedLen (demand ws).rest + (received w.recvs).length ≤ 2 ^ 18) :
    (serveIn tscratchAccepted connNew wakes).dispatched.map Dispatch.message =
        (parse 2 (wakeStream wakes)).bodies.map withLength ∧
      (serveIn tscratchAccepted connNew wakes).zeroClosed =
        (parse 2 (wakeStream wakes)).stopped := by
  have hdemand : ∀ ws, ws <+: wakes → (demand ws).Alone := by
    intro ws
    induction ws using List.reverseRecOn with
    | nil => exact fun _ => ⟨by decide, ⟨0, by decide, by decide⟩, Nat.zero_le _⟩
    | append_singleton ws w ih =>
      rintro ⟨rest, rfl⟩
      have hsplit : ws ++ [w] ++ rest = ws ++ w :: rest := by
        rw [List.append_assoc, List.singleton_append]
      have hstep := (ih ⟨w :: rest, hsplit.symm⟩).wake (halone w (by simp))
        (hroom ws w rest hsplit)
      rwa [demand, List.foldl_append]
  rcases Demand.fitting_cases tscratchAccepted demandNew wakes with hall | ⟨w, rest, hsplit, hover⟩
  · have hspec := serveIn_spec tscratchAccepted wakes
    rwa [hall] at hspec
  · -- the blocks left behind and the last one are at most 524288 bytes
    obtain ⟨htaken, ⟨j, hj, hcap⟩, -⟩ :=
      hdemand (demandNew.fitting tscratchAccepted wakes ++ [w]) ⟨rest, by
        rw [List.append_assoc, List.singleton_append, ← hsplit]⟩
    have hpow : 2 ^ j ≤ 2 ^ 12 := Nat.pow_le_pow_right (by decide) hj
    have hpos : tscratchAccepted.pos = 6272 := rfl
    have hsize : tscratchAccepted.cap = 1048576 := rfl
    rw [← demand] at hover
    omega

/-- A chunk as large as `recv()` returns them. -/
def fullChunk : Chunk where
  bytes := List.replicate 1024 1
  ne_nil := List.ne_nil_of_length_pos (List.length_replicate.symm ▸ Nat.succ_pos 1023)
  length_le := List.length_replicate.le

/-- One chunk more than 262144 bytes, all at once. -/
def burst : Wake := ⟨0, List.replicate 257 (.data fullChunk)⟩

theorem chunkSizes_burst : chunkSizes burst.recvs = List.replicate 257 1024 := by
  have hall : ∀ n, chunkSizes (List.replicate n (.data fullChunk)) = List.replicate n 1024 := by
    intro n
    induction n with
    | zero => rfl
    | succ n ih =>
      rw [List.replicate_succ, List.replicate_succ, chunkSizes, ih, fullChunk]
      dsimp only
      rw [List.length_replicate]
  rw [burst]
  exact hall 257

end TinyMsg
