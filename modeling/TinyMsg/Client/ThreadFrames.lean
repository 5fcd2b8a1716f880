import TinyMsg.Client.ThreadTables

/-!
# The receiving thread handles every frame once

What is seen of one descriptor is a `Wire`: the address that the last connection on it came from,
the bytes received on that connection and the messages handled for it.  The thread goes from one
connection to another, and in the middle of a pass over the received bytes the GUI thread may run;
still the messages handled for a connection are the frames in its bytes, in order, each once, with
the address that the connection came from (`ClientProc.Follows`).

For the client this means that a run of the thread is a run of `clientInputStep` over the messages
handled and what the GUI thread does, and what has been proved of those runs holds with messages
that are frames of connections.
-/

namespace TinyMsg

/-! ## What is seen of a descriptor -/

/-- What is seen of the last connection on a descriptor. -/
structure Wire where
  /-- The address it was accepted from. -/
  fromaddr : HostAddr
  /-- The bytes received. -/
  received : List UInt8
  /-- The messages handled. -/
  handled : List Received

/-- A descriptor without a connection. -/
def wireNew : Wire := ⟨0, [], []⟩

/-- What an event shows of a descriptor. -/
def Wire.step (fd : ℕ) (w : Wire) : ThreadEvent → Wire
  | .accepted fd' fromaddr => if fd' = fd then ⟨fromaddr, [], []⟩ else w
  | .received fd' bytes => if fd' = fd then { w with received := w.received ++ bytes } else w
  | .handled fd' r => if fd' = fd then { w with handled := w.handled ++ [r] } else w
  | .closed _ => w
  | .gui _ => w

/-- What a record shows of a descriptor. -/
def wireOf (fd : ℕ) (trace : List ThreadEvent) : Wire := trace.foldl (Wire.step fd) wireNew

/-- The bodies of the messages handled. -/
def Wire.bodies (w : Wire) : List (List UInt8) := w.handled.map Received.body

/-- The thread is in the loop over the frames of a descriptor. -/
def ThreadPoint.ReadsFrames (fd : ℕ) : ThreadPoint → Prop
  | .frames i _ _ => i = fd
  | _ => False

/-- What the thread has made of the last connection on a descriptor. -/
structure ClientProc.Follows (p : ClientProc) (fd : ℕ) (w : Wire) : Prop where
  /-- Every message handled has the address of the connection. -/
  fromaddr_eq : ∀ r ∈ w.handled, r.fromaddr = w.fromaddr
  /-- The frames in the bytes received are those handled and those in the bytes that wait. -/
  current : ∀ c ∈ p.contexts, c.fd = fd → c.fromaddr = w.fromaddr ∧
    parse 2 w.received =
      { parse 2 c.conn.pending with bodies := w.bodies ++ (parse 2 c.conn.pending).bodies }
  /-- Outside the loop there is no frame in the bytes that wait. -/
  waiting : ¬ p.point.ReadsFrames fd → ∀ c ∈ p.contexts, c.fd = fd →
    parse 2 c.conn.pending = ⟨[], false, c.conn.pending⟩
  /-- When the connection is closed, its frames have been handled. -/
  closed : (∀ c ∈ p.contexts, c.fd ≠ fd) → w.bodies = (parse 2 w.received).bodies

/-! ## The rounds of the loop -/

section Rounds

variable {c conn : Conn}

/-- The loop is left when no frame waits. -/
theorem frameRound_leave_pending {zero : Bool} (h : frameRound c = .leave zero) :
    (parse 2 c.pending).bodies = [] ∧ (parse 2 c.pending).stopped = zero ∧
      (zero = false → parse 2 c.pending = ⟨[], false, c.pending⟩) := by
  have hlen := c.readbuf.length_contents
  unfold frameRound at h
  split at h
  case isTrue hmsg =>
    have hpending : c.pending = c.readbuf.contents := by
      rw [Conn.pending, if_pos hmsg, List.nil_append]
    split at h
    case isTrue htwo =>
      split at h
      case isTrue hzero =>
        obtain rfl := FrameRound.leave.inj h
        have hpre : numeral (c.readbuf.contents.take 2) = 0 := by rwa [take_contents htwo]
        rw [hpending, ← List.take_append_drop 2 c.readbuf.contents,
          parse_zero (by simp [htwo]) hpre]
        exact ⟨rfl, rfl, fun hfalse => by cases hfalse⟩
      case isFalse => cases h
    case isFalse htwo =>
      obtain rfl := FrameRound.leave.inj h
      rw [parse_short (by rw [hpending]; omega)]
      exact ⟨rfl, rfl, fun _ => rfl⟩
  case isFalse hmsg =>
    split at h
    case isTrue => cases h
    case isFalse hbody =>
      obtain rfl := FrameRound.leave.inj h
      have hpending : c.pending = bigEndian 2 c.msglen ++ c.readbuf.contents := by
        rw [Conn.pending, if_neg hmsg]
      have hnum := numeral_bigEndian_of_lt c.msglen_lt
      rw [hpending, parse_incomplete (length_bigEndian 2 _) (by omega)]
      exact ⟨rfl, rfl, fun _ => rfl⟩

/-- Reading a length leaves the bytes that wait. -/
theorem frameRound_length_pending (h : frameRound c = .length conn) :
    conn.pending = c.pending := by
  unfold frameRound at h
  split at h
  case isTrue hmsg =>
    split at h
    case isTrue htwo =>
      split at h
      case isTrue => cases h
      case isFalse hzero =>
        obtain rfl := FrameRound.length.inj h
        rw [pending_shift_length htwo hzero, Conn.pending, if_pos hmsg, List.nil_append]
    case isFalse => cases h
  case isFalse => split at h <;> cases h

/-- The message that is handled is the next frame in the bytes that wait. -/
theorem frameRound_body_pending {d : Dispatch} (h : frameRound c = .body d conn) :
    parse 2 c.pending = { parse 2 conn.pending with
      bodies := c.readbuf.contents.take d.msglen :: (parse 2 conn.pending).bodies } := by
  obtain ⟨rfl, hpos, hle, rfl⟩ := frameRound_body h
  have htake : (c.readbuf.contents.take c.msglen).length = c.msglen := by
    rw [List.length_take, Buffer.length_contents, Nat.min_eq_left hle]
  have hne : c.readbuf.contents.take c.msglen ≠ [] := by
    rw [ne_eq, ← List.length_eq_zero_iff, htake]
    exact hpos.ne'
  have hpending : c.pending = bigEndian 2 c.msglen ++
      (c.readbuf.contents.take c.msglen ++ c.readbuf.contents.drop c.msglen) := by
    rw [Conn.pending, if_neg hpos.ne', List.take_append_drop]
  have hrest : Conn.pending ⟨bufferShift c.readbuf c.msglen, 0, by decide⟩ =
      c.readbuf.contents.drop c.msglen := by
    rw [Conn.pending, if_pos rfl, List.nil_append, bufferShift_contents]
  rw [hpending, parse_cons (length_bigEndian 2 _)
    ((numeral_bigEndian_of_lt c.msglen_lt).trans htake.symm) hne, hrest]

end Rounds

/-! ## The steps -/

section Steps

variable {gTrackerAddr : HostAddr} {p p' : ClientProc} {a : ThreadAnswers} {e : ProcInput}
  {evs : List ThreadEvent} {client : Client} {fd i index : ℕ} {w : Wire} {conn : Conn}
  {c : ClientSocketCtx}

/-- The context whose connection has changed is there. -/
theorem ClientProc.mem_setCtx_self (p : ClientProc) (hindex : index < p.contexts.length)
    (conn : Conn) : p.contexts[index].withConn conn ∈
      (p.setCtx index (p.contexts[index].withConn conn)).contexts := by
  rw [ClientProc.setCtx_contexts]
  exact List.mem_set hindex _

/-- A context with the descriptor of the one at an index, whose connection has changed, is that
one. -/
theorem ClientProc.InOrder.eq_of_mem_setCtx (hp : p.InOrder) (hindex : index < p.contexts.length)
    (hmem : c ∈ (p.setCtx index (p.contexts[index].withConn conn)).contexts)
    (hfd : c.fd = p.contexts[index].fd) : c = p.contexts[index].withConn conn := by
  have hnodup := hp.fds_nodup
  rw [← p.map_fd_setCtx hindex conn] at hnodup
  exact List.inj_on_of_nodup_map hnodup hmem (p.mem_setCtx_self hindex conn) hfd

/-- The contexts with other descriptors stay. -/
theorem ClientProc.mem_setCtx_iff (hindex : index < p.contexts.length)
    (hfd : c.fd ≠ p.contexts[index].fd) :
    c ∈ (p.setCtx index (p.contexts[index].withConn conn)).contexts ↔ c ∈ p.contexts := by
  rw [ClientProc.setCtx_contexts]
  constructor
  · intro hmem
    rcases List.mem_or_eq_of_mem_set hmem with hmem | rfl
    · exact hmem
    · exact absurd rfl hfd
  · intro hmem
    obtain ⟨j, hj, rfl⟩ := List.getElem_of_mem hmem
    have hne : index ≠ j := fun heq => hfd (by subst heq; rfl)
    rw [← List.getElem_set_ne hne (by simpa using hj)]
    exact List.getElem_mem _

/-- A step that does not touch a descriptor. -/
theorem ClientProc.Follows.other (h : p.Follows fd w)
    (hctxs : ∀ c : ClientSocketCtx, c.fd = fd → (c ∈ p'.contexts ↔ c ∈ p.contexts))
    (hpoint : ¬ p'.point.ReadsFrames fd → ¬ p.point.ReadsFrames fd) : p'.Follows fd w where
  fromaddr_eq := h.fromaddr_eq
  current c hc hfd := h.current c ((hctxs c hfd).mp hc) hfd
  waiting hnot c hc hfd := h.waiting (hpoint hnot) c ((hctxs c hfd).mp hc) hfd
  closed hnone := h.closed fun c hc hfd => hnone c ((hctxs c hfd).mpr hc) hfd

/-- A new connection starts a new record. -/
theorem ClientProc.Follows.accept {fromaddr : HostAddr} (hfresh : ∀ c ∈ p.contexts, c.fd ≠ fd)
    (hlist : p'.contexts = p.contexts ++ [⟨fd, fromaddr, connNew⟩]) :
    p'.Follows fd ⟨fromaddr, [], []⟩ := by
  have hnew : ∀ c ∈ p'.contexts, c.fd = fd → c = ⟨fd, fromaddr, connNew⟩ := by
    intro c hc hfd
    rw [hlist] at hc
    rcases List.mem_append.mp hc with hold | hnew
    · exact absurd hfd (hfresh c hold)
    · exact List.mem_singleton.mp hnew
  have hempty : parse 2 ([] : List UInt8) = ⟨[], false, []⟩ := parse_short (by decide)
  refine ⟨fun r hr => absurd hr List.not_mem_nil, fun c hc hfd => ?_, fun _ c hc hfd => ?_,
    fun _ => ?_⟩
  · obtain rfl := hnew c hc hfd
    exact ⟨rfl, rfl⟩
  · obtain rfl := hnew c hc hfd
    exact hempty
  · exact (congrArg Parsed.bodies hempty).symm

/-- Bytes that are received are bytes that wait. -/
theorem ClientProc.Follows.receive (hp : p.InOrder) (h : p.Follows i w)
    (hpoint : ¬ p.point.ReadsFrames i) (hindex : index < p.contexts.length)
    (hfd : p.contexts[index].fd = i) (rs : List RecvResult) {readEof : Bool}
    (hctxs : p'.contexts =
      (p.setCtx index (p.contexts[index].withConn (p.contexts[index].conn.recv rs))).contexts)
    (hpoint' : p'.point = .frames i index readEof) :
    p'.Follows i { w with received := w.received ++ received rs } := by
  have hmem := List.getElem_mem hindex
  obtain ⟨hfrom, hparse⟩ := h.current _ hmem hfd
  have hwaiting := h.waiting hpoint _ hmem hfd
  refine ⟨h.fromaddr_eq, fun c hc hcfd => ?_, fun hnot => ?_, fun hnone => ?_⟩
  · obtain rfl := hp.eq_of_mem_setCtx hindex (hctxs ▸ hc) (hcfd.trans hfd.symm)
    refine ⟨hfrom, ?_⟩
    have hpending : (p.contexts[index].withConn (p.contexts[index].conn.recv rs)).conn.pending =
        p.contexts[index].conn.pending ++ received rs := pending_netRecv _ _
    rw [hpending, parse_append, hparse, hwaiting, Parsed.feed, if_neg (by simp)]
    simp only [List.append_nil]
    rfl
  · rw [hpoint'] at hnot
    exact absurd rfl hnot
  · have hself := p.mem_setCtx_self hindex (p.contexts[index].conn.recv rs)
    rw [← hctxs] at hself
    exact (hnone _ hself hfd).elim

/-- Reading a length changes nothing that is seen. -/
theorem ClientProc.Follows.length (hp : p.InOrder) (h : p.Follows i w) {readEof : Bool}
    (hpoint : p.point = .frames i index readEof) (hindex : index < p.contexts.length)
    (hfd : p.contexts[index].fd = i)
    (hround : frameRound p.contexts[index].conn = .length conn) :
    (p.setCtx index (p.contexts[index].withConn conn)).Follows i w := by
  obtain ⟨hfrom, hparse⟩ := h.current _ (List.getElem_mem hindex) hfd
  refine ⟨h.fromaddr_eq, fun c hc hcfd => ?_, fun hnot => ?_, fun hnone => ?_⟩
  · obtain rfl := hp.eq_of_mem_setCtx hindex hc (hcfd.trans hfd.symm)
    refine ⟨hfrom, ?_⟩
    rw [← frameRound_length_pending hround] at hparse
    exact hparse
  · have hsame : (p.setCtx index (p.contexts[index].withConn conn)).point = p.point := rfl
    rw [hsame, hpoint] at hnot
    exact absurd rfl hnot
  · exact (hnone _ (p.mem_setCtx_self hindex conn) hfd).elim

/-- The message that is handled is the next frame. -/
theorem ClientProc.Follows.body (hp : p.InOrder) (h : p.Follows i w) {readEof : Bool}
    {d : Dispatch} (hpoint : p.point = .frames i index readEof)
    (hindex : index < p.contexts.length) (hfd : p.contexts[index].fd = i)
    (hround : frameRound p.contexts[index].conn = .body d conn) (behind : ℕ → UInt8) (u : Uninit) :
    ClientProc.Follows { p.setCtx index (p.contexts[index].withConn conn) with client := client } i
      { w with handled := w.handled ++ [.ofBuffer p.contexts[index].fromaddr
        p.contexts[index].conn.readbuf d.msglen behind u] } := by
  obtain ⟨hfrom, hparse⟩ := h.current _ (List.getElem_mem hindex) hfd
  refine ⟨fun r hr => ?_, fun c hc hcfd => ?_, fun hnot => ?_, fun hnone => ?_⟩
  · rcases List.mem_append.mp hr with hold | hnew
    · exact h.fromaddr_eq r hold
    · obtain rfl := List.mem_singleton.mp hnew
      exact hfrom
  · obtain rfl := hp.eq_of_mem_setCtx hindex hc (hcfd.trans hfd.symm)
    refine ⟨hfrom, ?_⟩
    rw [frameRound_body_pending hround] at hparse
    rw [hparse]
    simp only [Wire.bodies, List.map_append, List.map_cons, List.map_nil, List.append_assoc,
      List.cons_append, List.nil_append]
    rfl
  · change ¬ p.point.ReadsFrames i at hnot
    rw [hpoint] at hnot
    exact absurd rfl hnot
  · exact (hnone _ (p.mem_setCtx_self hindex conn) hfd).elim

/-- Leaving the loop, no frame waits. -/
theorem ClientProc.Follows.leave (hp : p.InOrder) (h : p.Follows i w)
    (hindex : index < p.contexts.length) (hfd : p.contexts[index].fd = i)
    (hround : frameRound p.contexts[index].conn = .leave false) (point : ThreadPoint) :
    ClientProc.Follows { p with point := point } i w := by
  refine ⟨h.fromaddr_eq, h.current, fun _ c hc hcfd => ?_, h.closed⟩
  have hsame : c = p.contexts[index] :=
    List.inj_on_of_nodup_map hp.fds_nodup hc (List.getElem_mem hindex) (hcfd.trans hfd.symm)
  rw [hsame]
  exact (frameRound_leave_pending hround).2.2 rfl

/-- Closing the connection, all frames have been handled. -/
theorem ClientProc.Follows.close (h : p.Follows i w)
    (hindex : index < p.contexts.length) (hfd : p.contexts[index].fd = i) {zero : Bool}
    (hround : frameRound p.contexts[index].conn = .leave zero)
    (hgone : ∀ c ∈ p'.contexts, c.fd ≠ i) : p'.Follows i w := by
  refine ⟨h.fromaddr_eq, fun c hc hcfd => absurd hcfd (hgone c hc),
    fun _ c hc hcfd => absurd hcfd (hgone c hc), fun _ => ?_⟩
  obtain ⟨-, hparse⟩ := h.current _ (List.getElem_mem hindex) hfd
  rw [hparse, (frameRound_leave_pending hround).1, List.append_nil]

/-- A step of the receiving thread keeps the record of a descriptor. -/
theorem ThreadStepped.follows (hp : p.InOrder) (hf : p.Follows fd w)
    (h : ThreadStepped gTrackerAddr p a p' evs) :
    p'.Follows fd (evs.foldl (Wire.step fd) w) := by
  have hscan := hp.scan
  -- outside the loop a step that leaves the contexts shows nothing
  have hquiet : ∀ q : ClientProc, ¬ p.point.ReadsFrames fd → q.contexts = p.contexts →
      q.Follows fd w := fun q hpoint hctxs =>
    hf.other (fun c _ => by rw [hctxs]) fun _ => hpoint
  have houtside : (∀ i index readEof, p.point ≠ .frames i index readEof) →
      ¬ p.point.ReadsFrames fd := by
    intro hne hreads
    cases hpoint : p.point with
    | frames i index readEof => exact hne i index readEof hpoint
    | select | visit | ended =>
      rw [hpoint] at hreads
      exact hreads
  have hindexed : ∀ {i index : ℕ} {readEof : Bool}, p.point = .frames i index readEof →
      ∀ h : index < p.contexts.length, p.contexts[index].fd = i := by
    intro i index readEof hpoint _
    rw [hpoint] at hscan
    exact hscan.2.2
  cases h with
  | again hpoint | ended hpoint => exact hf
  | failed hpoint | ready hpoint | scanned hpoint | skip hpoint | lost hpoint
  | unblocked hpoint =>
    exact hquiet _ (houtside (by rw [hpoint]; exact fun _ _ _ => ThreadPoint.noConfusion)) rfl
  | @accept i fd' sa socketctxs hpoint _ _ _ _ hnew _ hlist =>
    have hout := houtside (by rw [hpoint]; exact fun _ _ _ => ThreadPoint.noConfusion)
    have hfresh : ∀ c ∈ p.contexts, c.fd ≠ fd' := fun c hc heq => hnew (hp.readfds_open
      (heq ▸ (hp.watched c.fd).mpr (Or.inr (Or.inr (List.mem_map_of_mem hc)))))
    rw [List.foldl_cons, List.foldl_nil, Wire.step]
    by_cases heq : fd' = fd
    · subst heq
      rw [if_pos rfl]
      exact ClientProc.Follows.accept hfresh hlist
    · rw [if_neg heq]
      refine hf.other (fun c hc => ?_) fun _ => hout
      change c ∈ socketctxs.toList ↔ c ∈ p.contexts
      rw [hlist, List.mem_append, List.mem_singleton]
      refine ⟨fun hor => hor.resolve_right ?_, Or.inl⟩
      rintro rfl
      exact heq hc
  | @receive i index hpoint _ _ _ _ hindex hfd =>
    have hout := houtside (by rw [hpoint]; exact fun _ _ _ => ThreadPoint.noConfusion)
    rw [List.foldl_cons, List.foldl_nil, Wire.step]
    by_cases heq : i = fd
    · subst heq
      rw [if_pos rfl]
      exact hf.receive hp hout hindex hfd a.recvs rfl rfl
    · rw [if_neg heq]
      refine hf.other (fun c hc => ?_) fun _ => hout
      exact ClientProc.mem_setCtx_iff hindex (by rw [hc, hfd]; exact Ne.symm heq)
  | @length i index readEof conn hpoint hindex hround =>
    have hfd := hindexed hpoint hindex
    by_cases heq : i = fd
    · subst heq
      exact hf.length hp hpoint hindex hfd hround
    · refine hf.other (fun c hc => ?_) id
      exact ClientProc.mem_setCtx_iff hindex (by rw [hc, hfd]; exact Ne.symm heq)
  | @body i index readEof d conn client hpoint hindex hround =>
    have hfd := hindexed hpoint hindex
    rw [List.foldl_cons, List.foldl_nil, Wire.step]
    by_cases heq : i = fd
    · subst heq
      rw [if_pos rfl]
      exact hf.body hp hpoint hindex hfd hround a.behind a.uninit
    · rw [if_neg heq]
      refine hf.other (fun c hc => ?_) id
      exact ClientProc.mem_setCtx_iff hindex (by rw [hc, hfd]; exact Ne.symm heq)
  | @leave i index hpoint hindex hround =>
    by_cases heq : i = fd
    · subst heq
      exact hf.leave hp hindex (hindexed hpoint hindex) hround _
    · refine hquiet _ ?_ rfl
      rw [hpoint]
      exact heq
  | @close i index readEof zero socketctxs hpoint hindex hround _ hlist =>
    have hmem : ∀ c, c ∈ socketctxs.toList ↔ c ∈ p.contexts ∧ c.fd ≠ i := by
      intro c
      rw [hlist, eraseP_eq_filter hp.fds_nodup, List.mem_filter, decide_eq_true_iff]
    by_cases heq : i = fd
    · subst heq
      exact hf.close hindex (hindexed hpoint hindex) hround fun c hc => ((hmem c).mp hc).2
    · refine hf.other (fun c hc => ?_) fun _ => ?_
      · exact (hmem c).trans (and_iff_left (by rw [hc]; exact Ne.symm heq))
      · rw [hpoint]
        exact heq

/-- A step of one of the threads keeps the record of a descriptor. -/
theorem procStep_follows (hp : p.point = .ended ∨ p.InOrder) (hf : p.Follows fd w)
    (h : procStep gTrackerAddr p e = .ok p') :
    p'.Follows fd ((procEvents p e).foldl (Wire.step fd) w) := by
  cases e with
  | net a =>
    have hstepped := threadStep_stepped h
    rcases hp with hended | hp
    · rw [procStep, threadStep, hended] at h
      obtain rfl := Except.ok.inj h
      rw [procEvents, threadEvents, hended]
      exact hf
    · exact hstepped.follows hp hf
  | gui e =>
    obtain ⟨client, -, heq⟩ := bind_eq_ok.mp h
    obtain rfl := Except.ok.inj heq
    exact ⟨hf.fromaddr_eq, hf.current, hf.waiting, hf.closed⟩

/-- When the loop starts there are no connections. -/
theorem threadStart_contexts {start : StartAnswers} (h : threadStart client start = .ok p) :
    p.contexts = [] ∧ p.client = client := by
  rcases threadStart_cases h with ⟨fds, rfl⟩ | ⟨listenfd, unblockfd, -, -, -, rfl⟩
  · exact ⟨rfl, rfl⟩
  · exact ⟨arrayNew_toList 64, rfl⟩

/-- A reachable thread follows the record of every descriptor. -/
theorem procRun_follows {start : StartAnswers} {es : List ProcInput} {p₀ : ClientProc}
    {trace : List ThreadEvent} (hstart : threadStart client start = .ok p₀)
    (hrun : run (traced (procStep gTrackerAddr) procEvents) (p₀, []) es = .ok (p, trace))
    (fd : ℕ) : p.Follows fd (wireOf fd trace) := by
  have hempty := (threadStart_contexts hstart).1
  have hinit : p₀.Follows fd wireNew := by
    refine ⟨fun r hr => absurd hr List.not_mem_nil, fun c hc => ?_, fun _ c hc => ?_, fun _ => ?_⟩
    · rw [hempty] at hc
      exact absurd hc List.not_mem_nil
    · rw [hempty] at hc
      exact absurd hc List.not_mem_nil
    · exact (congrArg Parsed.bodies (parse_short (by decide))).symm
  refine (run_history (I := fun _ s => (s.1.point = .ended ∨ s.1.InOrder) ∧
    s.1.Follows fd (wireOf fd s.2)) ⟨threadStart_inOrder hstart, hinit⟩ ?_ hrun).2
  rintro es ⟨q, before⟩ e s' ⟨hq, hf⟩ hstep
  obtain ⟨q', hone, heq⟩ := bind_eq_ok.mp hstep
  obtain rfl := Except.ok.inj heq
  refine ⟨procStep_inOrder hq hone, ?_⟩
  rw [wireOf, List.foldl_append]
  exact procStep_follows hq hf hone

/-- Outside the loop over its frames the frames of a descriptor have been handled, and inside those
at the front. -/
theorem ClientProc.Follows.bodies_prefix (h : p.Follows fd w) :
    w.bodies <+: (parse 2 w.received).bodies ∧
      (¬ p.point.ReadsFrames fd → w.bodies = (parse 2 w.received).bodies) := by
  by_cases hopen : ∃ c ∈ p.contexts, c.fd = fd
  · obtain ⟨c, hc, hfd⟩ := hopen
    obtain ⟨-, hparse⟩ := h.current c hc hfd
    rw [hparse]
    refine ⟨List.prefix_append _ _, fun hpoint => ?_⟩
    rw [h.waiting hpoint c hc hfd, List.append_nil]
  · have hclosed := h.closed fun c hc hfd => hopen ⟨c, hc, hfd⟩
    exact ⟨hclosed ▸ List.prefix_rfl, fun _ => hclosed⟩

end Steps

/-- The receiving thread has the messages on each of its connections handled once and in order,
with the address the connection was accepted from: they are the frames in the bytes received on the
connection, in whatever pieces these came and whatever happened on other connections and in the GUI
thread meanwhile.  Only in the middle of the loop over the frames of the connection some are still
to come. -/
theorem thread_handles_once (client : Client) (start : StartAnswers) (gTrackerAddr : HostAddr)
    (es : List ProcInput) {p₀ p : ClientProc} {trace : List ThreadEvent}
    (hstart : threadStart client start = .ok p₀)
    (hrun : run (traced (procStep gTrackerAddr) procEvents) (p₀, []) es = .ok (p, trace))
    (fd : ℕ) :
    (∀ r ∈ (wireOf fd trace).handled, r.fromaddr = (wireOf fd trace).fromaddr) ∧
      (wireOf fd trace).bodies <+: (parse 2 (wireOf fd trace).received).bodies ∧
      (¬ p.point.ReadsFrames fd →
        (wireOf fd trace).bodies = (parse 2 (wireOf fd trace).received).bodies) := by
  have hf := procRun_follows hstart hrun fd
  exact ⟨hf.fromaddr_eq, hf.bodies_prefix⟩

/-- The tracker announces a peer; the message comes in two pieces, and the callback of it runs
before the thread is through with the pass.  Then the peer connects and sends a text. -/
def introducingRun : List ProcInput :=
  acceptingRun ++ .net { (default : ThreadAnswers) with select := .ready {4} } ::
    (List.replicate 4 (.net default) ++
      .net { (default : ThreadAnswers) with
        recvs := [.data ⟨[0, 21, 1, 0, 0, 0, 0, 0, 0, 0, 7], by decide, by decide⟩,
          .data ⟨[2, 0, 0, 127, 0, 0, 0, 8, 2, 0, 0, 127], by decide, by decide⟩] } ::
        .net default :: .net default :: .gui .idle ::
        (List.replicate 3 (.net default) ++
          .net { (default : ThreadAnswers) with select := .ready {3} } ::
            (List.replicate 3 (.net default) ++
              .net { (default : ThreadAnswers) with accept := .ipv4 6 ⟨7, 0x0200007F⟩ } ::
                (List.replicate 4 (.net default) ++
                  .net { (default : ThreadAnswers) with select := .ready {6} } ::
                    (List.replicate 6 (.net default) ++
                      .net { (default : ThreadAnswers) with
                        recvs := [.data ⟨[0, 4, 5, 0, 1, 104], by decide, by decide⟩] } ::
                        List.replicate 2 (.net default))))))

/-- The run comes back, and the text is stored. -/
theorem introducingRun_ok : ∃ p₀ p trace, threadStart clientInit startAnswers = .ok p₀ ∧
    run (traced (procStep 4294984073343) procEvents) (p₀, []) introducingRun = .ok (p, trace) ∧
    (wireOf 6 trace).bodies = [[5, 0, 1, 104]] ∧
    p.client.texts.map ChatText.fromaddr = [30098325631] := by
  have hview : (threadStart clientInit startAnswers >>= fun p₀ =>
      run (traced (procStep 4294984073343) procEvents) (p₀, []) introducingRun).toOption.map
        (fun s => ((wireOf 6 s.2).bodies, s.1.client.texts.map ChatText.fromaddr)) =
      some ([[5, 0, 1, 104]], [30098325631]) := by decide +kernel
  obtain ⟨⟨p, trace⟩, hp, hview⟩ := Option.map_eq_some_iff.mp hview
  obtain ⟨p₀, hstart, hrun⟩ := bind_eq_ok.mp (toOption_eq_some.mp hp)
  exact ⟨p₀, p, trace, hstart, hrun, Prod.mk.inj hview⟩

/-- The messages of two connections. -/
theorem thread_handles_once_introduced : ∃ p₀ p trace,
    threadStart clientInit startAnswers = .ok p₀ ∧
    run (traced (procStep 4294984073343) procEvents) (p₀, []) introducingRun = .ok (p, trace) ∧
    [[5, 0, 1, 104]] <+: (parse 2 (wireOf 6 trace).received).bodies := by
  obtain ⟨p₀, p, trace, hstart, hrun, hbodies, -⟩ := introducingRun_ok
  refine ⟨p₀, p, trace, hstart, hrun, ?_⟩
  rw [← hbodies]
  exact (thread_handles_once _ _ _ _ hstart hrun 6).2.1

end TinyMsg
