import TinyMsg.Client.ThreadEvents

/-!
# The tables of the receiving thread, and its end

The contexts, `readfds` and the open descriptors of the thread agree as long as it is in its loop
(`ClientProc.InOrder`), whatever the system calls answer and whatever the GUI thread does between
two steps.  So a descriptor that `select()` reports is always one the thread knows.

When `select()` reports the pipe, the thread is on its way out.  Every step from there on takes the
scan to the next descriptor or takes bytes off a buffer, so that there are no more steps than
descriptors up to the pipe, each counted twice, and bytes in the buffers and still arriving
(`ClientProc.stepsLeft`).
-/

namespace TinyMsg

/-! ## The tables -/

/-- The scan goes over descriptors that are watched, and the pointer leads to a context. -/
def ClientProc.ScanAt (p : ClientProc) : ThreadPoint → Prop
  | .select => True
  | .visit i => ∀ fd ∈ p.tmpReadfds, i ≤ fd → fd ∈ p.readfds
  | .frames i index _ =>
    (∀ fd ∈ p.tmpReadfds, i ≤ fd → fd ∈ p.readfds) ∧
      ∃ h : index < p.contexts.length, p.contexts[index].fd = i
  | .ended => False

/-- What the receiving thread keeps true in its loop. -/
structure ClientProc.InOrder (p : ClientProc) : Prop where
  /-- No two contexts have the same descriptor. -/
  fds_nodup : (p.contexts.map ClientSocketCtx.fd).Nodup
  /-- `listenfd`, the pipe and the contexts are watched, and nothing else. -/
  watched : ∀ fd, fd ∈ p.readfds ↔
    fd = p.listenfd ∨ fd = p.unblockfd ∨ fd ∈ p.contexts.map ClientSocketCtx.fd
  /-- `listenfd` is not the pipe. -/
  listen_ne : p.listenfd ≠ p.unblockfd
  /-- Neither belongs to a context. -/
  incoming : ∀ c ∈ p.contexts, c.fd ≠ p.listenfd ∧ c.fd ≠ p.unblockfd
  /-- What is watched is open. -/
  readfds_open : p.readfds ⊆ p.fds
  /-- It fits an `fd_set`, and `select()` is told of it. -/
  fits : ∀ fd ∈ p.readfds, fd < fdSetSize ∧ fd ≤ p.maxfd
  /-- The scan. -/
  scan : p.ScanAt p.point

section Tables

variable {gTrackerAddr : HostAddr} {p p' : ClientProc} {a : ThreadAnswers} {e : ProcInput}
  {evs : List ThreadEvent} {client : Client}

/-- A context at an index is one of the contexts, also after its connection has changed. -/
theorem ClientProc.map_fd_setCtx (p : ClientProc) {index : ℕ} (hindex : index < p.contexts.length)
    (conn : Conn) : ((p.setCtx index (p.contexts[index].withConn conn)).contexts.map
      ClientSocketCtx.fd) = p.contexts.map ClientSocketCtx.fd := by
  rw [ClientProc.setCtx_contexts, List.map_set]
  have hlt : index < (p.contexts.map ClientSocketCtx.fd).length := by simpa using hindex
  have hsame := List.set_getElem_self hlt
  rw [List.getElem_map] at hsame
  exact hsame

/-- A change of the contexts that leaves their descriptors, and a move of the thread, keep the
tables in order. -/
theorem ClientProc.InOrder.of_fds (h : p.InOrder)
    (hctxs : p'.contexts.map ClientSocketCtx.fd = p.contexts.map ClientSocketCtx.fd)
    (hreadfds : p'.readfds = p.readfds) (hlisten : p'.listenfd = p.listenfd)
    (hpipe : p'.unblockfd = p.unblockfd) (hmax : p'.maxfd = p.maxfd) (hfds : p'.fds = p.fds)
    (hscan : p'.ScanAt p'.point) : p'.InOrder := by
  refine ⟨hctxs ▸ h.fds_nodup, ?_, hlisten ▸ hpipe ▸ h.listen_ne, ?_, ?_, ?_, hscan⟩
  · rw [hreadfds, hlisten, hpipe, hctxs]
    exact h.watched
  · intro c hc
    have hmem : c.fd ∈ p.contexts.map ClientSocketCtx.fd := hctxs ▸ List.mem_map_of_mem hc
    obtain ⟨d, hd, hfd⟩ := List.mem_map.mp hmem
    rw [hlisten, hpipe, ← hfd]
    exact h.incoming d hd
  · rw [hreadfds, hfds]
    exact h.readfds_open
  · rw [hreadfds, hmax]
    exact h.fits

/-- A new connection keeps the tables in order. -/
theorem ClientProc.InOrder.accept (h : p.InOrder) {i fd : ℕ} {fromaddr : HostAddr}
    {socketctxs : Array ClientSocketCtx} (hpoint : p.point = .visit i) (hnew : fd ∉ p.fds)
    (hlt : fd < fdSetSize) (hlist : socketctxs.toList = p.contexts ++ [⟨fd, fromaddr, connNew⟩]) :
    ClientProc.InOrder { p with
      socketctxs := socketctxs
      readfds := insert fd p.readfds
      maxfd := max p.maxfd fd
      fds := insert fd p.fds
      point := .visit (i + 1) } := by
  have hfresh : fd ∉ p.readfds := fun hmem => hnew (h.readfds_open hmem)
  have hknown : ∀ c ∈ p.contexts, c.fd ∈ p.readfds := fun c hc =>
    (h.watched c.fd).mpr (Or.inr (Or.inr (List.mem_map_of_mem hc)))
  have hmap : socketctxs.toList.map ClientSocketCtx.fd =
      p.contexts.map ClientSocketCtx.fd ++ [fd] := by
    rw [hlist, List.map_append]
    rfl
  refine ⟨?_, fun fd' => ?_, h.listen_ne, fun c hc => ?_, ?_, fun fd' hfd' => ?_, ?_⟩
  · change (socketctxs.toList.map ClientSocketCtx.fd).Nodup
    rw [hlist]
    refine nodup_append_key h.fds_nodup (lookup_eq_none_iff.mpr fun c hc heq => hfresh ?_)
    have hfd : c.fd = fd := heq
    exact hfd ▸ hknown c hc
  · change fd' ∈ insert fd p.readfds ↔
      fd' = p.listenfd ∨ fd' = p.unblockfd ∨ fd' ∈ socketctxs.toList.map ClientSocketCtx.fd
    rw [Finset.mem_insert, h.watched, hmap, List.mem_append, List.mem_singleton]
    tauto
  · have hmem : c ∈ p.contexts ++ [⟨fd, fromaddr, connNew⟩] := hlist ▸ hc
    rcases List.mem_append.mp hmem with hmem | hmem
    · exact h.incoming c hmem
    · obtain rfl := List.mem_singleton.mp hmem
      exact ⟨fun heq => hfresh ((h.watched fd).mpr (Or.inl heq)),
        fun heq => hfresh ((h.watched fd).mpr (Or.inr (Or.inl heq)))⟩
  · exact Finset.insert_subset_insert _ h.readfds_open
  · rcases Finset.mem_insert.mp hfd' with rfl | hmem
    · exact ⟨hlt, le_max_right _ _⟩
    · obtain ⟨hlt', hle⟩ := h.fits fd' hmem
      exact ⟨hlt', hle.trans (le_max_left _ _)⟩
  · have hscan := h.scan
    rw [hpoint] at hscan
    exact fun fd' hfd' hle => Finset.mem_insert_of_mem (hscan fd' hfd' (Nat.le_of_succ_le hle))

/-- Closing a connection keeps the tables in order. -/
theorem ClientProc.InOrder.close (h : p.InOrder) {i index : ℕ} {readEof : Bool}
    {socketctxs : Array ClientSocketCtx} (hpoint : p.point = .frames i index readEof)
    (hlist : socketctxs.toList = p.contexts.eraseP fun c => c.fd = i) :
    ClientProc.InOrder { p with
      socketctxs := socketctxs
      readfds := p.readfds.erase i
      fds := p.fds.erase i
      point := .visit (i + 1) } := by
  have hscan := h.scan
  rw [hpoint] at hscan
  obtain ⟨hscan, hindex, hfd⟩ := hscan
  obtain ⟨hlisten, hpipe⟩ := h.incoming _ (List.getElem_mem hindex)
  rw [hfd] at hlisten hpipe
  rw [eraseP_eq_filter h.fds_nodup] at hlist
  have hmem : ∀ c, c ∈ socketctxs.toList ↔ c ∈ p.contexts ∧ c.fd ≠ i := by
    intro c
    rw [hlist, List.mem_filter, decide_eq_true_iff]
  refine ⟨?_, fun fd => ?_, h.listen_ne, fun c hc => h.incoming c ((hmem c).mp hc).1, ?_,
    fun fd hfd' => h.fits fd (Finset.mem_of_mem_erase hfd'), ?_⟩
  · change (socketctxs.toList.map ClientSocketCtx.fd).Nodup
    rw [hlist]
    exact h.fds_nodup.sublist (List.filter_sublist.map _)
  · change fd ∈ p.readfds.erase i ↔
      fd = p.listenfd ∨ fd = p.unblockfd ∨ fd ∈ socketctxs.toList.map ClientSocketCtx.fd
    rw [Finset.mem_erase, h.watched]
    constructor
    · rintro ⟨hne, hor | hor | hor⟩
      · exact Or.inl hor
      · exact Or.inr (Or.inl hor)
      · obtain ⟨c, hc, rfl⟩ := List.mem_map.mp hor
        exact Or.inr (Or.inr (List.mem_map_of_mem ((hmem c).mpr ⟨hc, hne⟩)))
    · rintro (rfl | rfl | hor)
      · exact ⟨Ne.symm hlisten, Or.inl rfl⟩
      · exact ⟨Ne.symm hpipe, Or.inr (Or.inl rfl)⟩
      · obtain ⟨c, hc, rfl⟩ := List.mem_map.mp hor
        obtain ⟨hc, hne⟩ := (hmem c).mp hc
        exact ⟨hne, Or.inr (Or.inr (List.mem_map_of_mem hc))⟩
  · exact Finset.erase_subset_erase i h.readfds_open
  · exact fun fd hfd' hle =>
      Finset.mem_erase.mpr ⟨(Nat.lt_of_succ_le hle).ne', hscan fd hfd' (Nat.le_of_succ_le hle)⟩

/-- A step of the receiving thread keeps the tables in order, or is the last one. -/
theorem ThreadStepped.inOrder (hp : p.InOrder) (h : ThreadStepped gTrackerAddr p a p' evs) :
    p'.point = .ended ∨ p'.InOrder := by
  have hscan := hp.scan
  have hpointer : ∀ {index : ℕ} (hindex : index < p.contexts.length) (conn : Conn) {i : ℕ},
      p.contexts[index].fd = i →
      ∃ h : index < (p.setCtx index (p.contexts[index].withConn conn)).contexts.length,
        (p.setCtx index (p.contexts[index].withConn conn)).contexts[index].fd = i := by
    intro index hindex conn i hfd
    refine ⟨by simpa using hindex, ?_⟩
    simp only [ClientProc.setCtx_contexts, List.getElem_set_self]
    exact hfd
  cases h with
  | failed | unblocked => exact Or.inl rfl
  | again | ended => exact Or.inr hp
  | ready =>
    refine Or.inr (hp.of_fds rfl rfl rfl rfl rfl rfl ?_)
    exact fun fd hfd _ => (Finset.mem_inter.mp hfd).1
  | scanned => exact Or.inr (hp.of_fds rfl rfl rfl rfl rfl rfl trivial)
  | skip hpoint | lost hpoint =>
    rw [hpoint] at hscan
    refine Or.inr (hp.of_fds rfl rfl rfl rfl rfl rfl ?_)
    exact fun fd hfd hle => hscan fd hfd (Nat.le_of_succ_le hle)
  | accept hpoint _ _ _ _ hnew hlt hlist => exact Or.inr (hp.accept hpoint hnew hlt hlist)
  | receive hpoint _ _ _ _ hindex hfd =>
    rw [hpoint] at hscan
    refine Or.inr (hp.of_fds (p.map_fd_setCtx hindex _) rfl rfl rfl rfl rfl ?_)
    exact ⟨hscan, hpointer hindex _ hfd⟩
  | length hpoint hindex =>
    rw [hpoint] at hscan
    refine Or.inr (hp.of_fds (p.map_fd_setCtx hindex _) rfl rfl rfl rfl rfl ?_)
    obtain ⟨hscan, _, hfd⟩ := hscan
    change ClientProc.ScanAt _ p.point
    rw [hpoint]
    exact ⟨hscan, hpointer hindex _ hfd⟩
  | body hpoint hindex =>
    rw [hpoint] at hscan
    refine Or.inr (hp.of_fds (p.map_fd_setCtx hindex _) rfl rfl rfl rfl rfl ?_)
    obtain ⟨hscan, _, hfd⟩ := hscan
    change ClientProc.ScanAt _ p.point
    rw [hpoint]
    exact ⟨hscan, hpointer hindex _ hfd⟩
  | leave hpoint =>
    rw [hpoint] at hscan
    refine Or.inr (hp.of_fds rfl rfl rfl rfl rfl rfl ?_)
    exact fun fd hfd hle => hscan.1 fd hfd (Nat.le_of_succ_le hle)
  | close hpoint _ _ _ hlist => exact Or.inr (hp.close hpoint hlist)

/-- A step of one of the threads keeps them in order. -/
theorem procStep_inOrder (hp : p.point = .ended ∨ p.InOrder)
    (h : procStep gTrackerAddr p e = .ok p') : p'.point = .ended ∨ p'.InOrder := by
  cases e with
  | net a =>
    have hstepped := threadStep_stepped h
    rcases hp with hended | hp
    · rw [procStep, threadStep, hended] at h
      obtain rfl := Except.ok.inj h
      exact Or.inl hended
    · exact hstepped.inOrder hp
  | gui e =>
    obtain ⟨client, -, heq⟩ := bind_eq_ok.mp h
    obtain rfl := Except.ok.inj heq
    exact hp.imp_right fun hp => hp.of_fds rfl rfl rfl rfl rfl rfl hp.scan

/-- The thread is in order when the loop starts. -/
theorem threadStart_inOrder {start : StartAnswers} (h : threadStart client start = .ok p) :
    p.point = .ended ∨ p.InOrder := by
  rcases threadStart_cases h with ⟨fds, rfl⟩ | ⟨listenfd, unblockfd, hlisten, hunblock, hne, rfl⟩
  · exact Or.inl rfl
  refine Or.inr ⟨List.nodup_nil, fun fd => ?_, Ne.symm hne,
    fun c hc => absurd hc List.not_mem_nil, fun fd hfd => ?_, fun fd hfd => ?_, trivial⟩
  · change fd ∈ insert unblockfd (insert listenfd ∅) ↔ fd = listenfd ∨ fd = unblockfd ∨ fd ∈ []
    simp [or_comm]
  · change fd ∈ ({listenfd, unblockfd} : Finset ℕ)
    have hfd' : fd ∈ insert unblockfd (insert listenfd (∅ : Finset ℕ)) := hfd
    simp only [Finset.mem_insert, Finset.notMem_empty, Finset.mem_singleton] at hfd' ⊢
    tauto
  · have hfd' : fd ∈ insert unblockfd (insert listenfd (∅ : Finset ℕ)) := hfd
    change fd < fdSetSize ∧ fd ≤ max listenfd unblockfd
    simp only [Finset.mem_insert, Finset.notMem_empty, or_false] at hfd'
    rcases hfd' with rfl | rfl
    · exact ⟨hunblock, le_max_right _ _⟩
    · exact ⟨hlisten, le_max_left _ _⟩

/-- A reachable thread has left its loop or is in order. -/
theorem procRun_inOrder {start : StartAnswers} {es : List ProcInput} {p₀ : ClientProc}
    (hstart : threadStart client start = .ok p₀)
    (hrun : run (procStep gTrackerAddr) p₀ es = .ok p) : p.point = .ended ∨ p.InOrder :=
  run_invariant (I := fun p : ClientProc => p.point = .ended ∨ p.InOrder)
    (fun _ _ _ hp hstep => procStep_inOrder hp hstep) (threadStart_inOrder hstart) hrun

/-- In every state that the client reaches while the receiving thread is in its loop, whatever the
GUI thread has done between its steps, its tables agree, and a descriptor that is visited because
`select()` has reported it is `listenfd`, the pipe, or one of a context. -/
theorem thread_tables_agree (client : Client) (start : StartAnswers) (gTrackerAddr : HostAddr)
    (es : List ProcInput) {p₀ p : ClientProc} (hstart : threadStart client start = .ok p₀)
    (hrun : run (procStep gTrackerAddr) p₀ es = .ok p) (hpoint : p.point ≠ .ended) :
    p.InOrder ∧ ∀ i ∈ p.tmpReadfds, p.point = .visit i →
      i = p.listenfd ∨ i = p.unblockfd ∨ (lookup ClientSocketCtx.fd p.contexts i).isSome := by
  have hp := (procRun_inOrder hstart hrun).resolve_left hpoint
  refine ⟨hp, fun i hi hvisit => ?_⟩
  have hscan := hp.scan
  rw [hvisit] at hscan
  rcases (hp.watched i).mp (hscan i hi le_rfl) with hlisten | hpipe | hmem
  · exact Or.inl hlisten
  · exact Or.inr (Or.inl hpipe)
  · obtain ⟨c, hc, rfl⟩ := List.mem_map.mp hmem
    rw [lookup_of_mem hp.fds_nodup hc]
    exact Or.inr (Or.inr rfl)

end Tables

/-- The thread starts with the descriptor 3 and a pipe that is read from at 5. -/
def startAnswers : StartAnswers := ⟨some 3, true, true, true, some (5, 6)⟩

/-- A connection is accepted, with the descriptor 4. -/
def acceptingRun : List ProcInput :=
  .net { (default : ThreadAnswers) with select := .ready {3} } ::
    (List.replicate 3 (.net default) ++
      .net { (default : ThreadAnswers) with accept := .ipv4 4 ⟨1000, 0x0100007F⟩ } ::
        List.replicate 3 (.net default))

/-- Then `select()` reports the connection and the pipe. -/
def pipeRun : List ProcInput :=
  acceptingRun ++ [.net { (default : ThreadAnswers) with select := .ready {4, 5} }]

/-- A message arrives, and the thread goes on to the pipe. -/
def leavingRun : List ProcInput :=
  List.replicate 4 (.net default) ++
    .net { (default : ThreadAnswers) with recvs := [.data ⟨[0, 1, 9], by decide, by decide⟩] } ::
      .gui .idle :: List.replicate 9 (.net default)

/-- The runs come back. -/
theorem leavingRun_ok : ∃ p₀ p₁ p before trace,
    threadStart clientInit startAnswers = .ok p₀ ∧
    run (traced (procStep 0) procEvents) (p₀, []) pipeRun = .ok (p₁, before) ∧
    run (traced (procStep 0) procEvents) (p₁, before) leavingRun = .ok (p, trace) ∧
    p₁.contexts.length = 1 ∧ p₁.point = .visit 0 ∧ p₁.unblockfd = 5 ∧ 5 ∈ p₁.tmpReadfds ∧
    p₁.buffered = 0 ∧ receivedBytes trace = 3 ∧
    trace.filterMap ThreadEvent.origin = [4294984073343] := by
  have hview : (threadStart clientInit startAnswers >>= fun p₀ =>
      run (traced (procStep 0) procEvents) (p₀, []) pipeRun >>= fun s =>
      run (traced (procStep 0) procEvents) s leavingRun >>= fun t => .ok (s, t)).toOption.map
        (fun x => decide (x.1.1.contexts.length = 1 ∧ x.1.1.point = .visit 0 ∧
          x.1.1.unblockfd = 5 ∧ 5 ∈ x.1.1.tmpReadfds ∧ x.1.1.buffered = 0 ∧
          receivedBytes x.2.2 = 3 ∧ x.2.2.filterMap ThreadEvent.origin = [4294984073343])) =
      some true := by decide +kernel
  obtain ⟨⟨⟨p₁, before⟩, p, trace⟩, hok, hview⟩ := Option.map_eq_some_iff.mp hview
  obtain ⟨p₀, hstart, hok⟩ := bind_eq_ok.mp (toOption_eq_some.mp hok)
  obtain ⟨s, hbefore, hok⟩ := bind_eq_ok.mp hok
  obtain ⟨t, hrun, heq⟩ := bind_eq_ok.mp hok
  obtain ⟨rfl, rfl⟩ := Prod.mk.inj (Except.ok.inj heq)
  exact ⟨p₀, p₁, p, before, trace, hstart, hbefore, hrun, of_decide_eq_true hview⟩

/-- The state in the middle of a scan, with a context. -/
theorem thread_tables_agree_accepted : ∃ p₀ p, threadStart clientInit startAnswers = .ok p₀ ∧
    run (procStep 0) p₀ pipeRun = .ok p ∧ p.contexts.length = 1 ∧ p.InOrder := by
  obtain ⟨p₀, p₁, p, before, trace, hstart, hrun, -, hlen, hpoint, -⟩ := leavingRun_ok
  refine ⟨p₀, p₁, hstart, run_of_traced hrun, hlen, ?_⟩
  exact (thread_tables_agree _ _ _ _ hstart (run_of_traced hrun) (by rw [hpoint]; decide)).1

/-! ## The end of the thread -/

/-- A bound on the steps that the thread still takes when the pipe is reported. -/
def ClientProc.stepsLeft (p : ClientProc) : ℕ :=
  match p.point with
  | .visit i => 2 * (p.unblockfd - i) + 1 + p.buffered
  | .frames i _ _ => 2 * (p.unblockfd - i) + p.buffered
  | _ => 0

/-- The scan has not got past the pipe. -/
def ClientProc.BeforePipe (p : ClientProc) : ThreadPoint → Prop
  | .visit i => i ≤ p.unblockfd
  | .frames i _ _ => i < p.unblockfd
  | _ => False

/-- The pipe is reported, and the scan has not got past it. -/
structure ClientProc.Leaving (p : ClientProc) : Prop where
  /-- The pipe is reported. -/
  reported : p.unblockfd ∈ p.tmpReadfds
  /-- The scan. -/
  before : p.BeforePipe p.point

/-- The step is one of the receiving thread. -/
def ProcInput.isNet : ProcInput → Bool
  | .net _ => true
  | .gui _ => false

section Ending

variable {gTrackerAddr : HostAddr} {p p' : ClientProc} {a : ThreadAnswers} {e : ProcInput}
  {evs : List ThreadEvent} {client : Client} {c conn : Conn}

/-- Reading a length takes bytes off the buffer. -/
theorem frameRound_length (h : frameRound c = .length conn) :
    conn.readbuf.len < c.readbuf.len := by
  unfold frameRound at h
  split at h
  · split at h
    case isTrue htwo =>
      split at h
      · cases h
      · obtain rfl := FrameRound.length.inj h
        rw [bufferShift_len]
        omega
    case isFalse => cases h
  · split at h <;> cases h

/-- Handling a message takes it off the buffer, and it was there. -/
theorem frameRound_body {d : Dispatch} (h : frameRound c = .body d conn) :
    d = ⟨c.readbuf.bs, c.msglen⟩ ∧ 0 < c.msglen ∧ c.msglen ≤ c.readbuf.len ∧
      conn = ⟨bufferShift c.readbuf c.msglen, 0, by decide⟩ := by
  unfold frameRound at h
  split at h
  · split at h
    · split at h <;> cases h
    · cases h
  case isFalse hne =>
    split at h
    case isTrue hle =>
      obtain ⟨rfl, rfl⟩ := FrameRound.body.inj h
      exact ⟨rfl, Nat.pos_of_ne_zero hne, hle, rfl⟩
    case isFalse => cases h

/-- What `NetRecv` appends to a buffer. -/
theorem len_recv (conn : Conn) (rs : List RecvResult) :
    (conn.recv rs).readbuf.len = conn.readbuf.len + (received rs).length := by
  rw [← Buffer.length_contents, Conn.recv, netRecv_contents, List.length_append,
    Buffer.length_contents]

/-- The bytes that wait when one connection has changed. -/
theorem ClientProc.buffered_setCtx (p : ClientProc) {index : ℕ}
    (hindex : index < p.contexts.length) (conn : Conn) :
    (p.setCtx index (p.contexts[index].withConn conn)).buffered +
        p.contexts[index].conn.readbuf.len = p.buffered + conn.readbuf.len := by
  have hsplit := List.take_append_drop index p.contexts
  rw [List.drop_eq_getElem_cons hindex] at hsplit
  have hbuffered : p.buffered = ((p.contexts.take index).map fun c => c.conn.readbuf.len).sum +
      (p.contexts[index].conn.readbuf.len +
        ((p.contexts.drop (index + 1)).map fun c => c.conn.readbuf.len).sum) := by
    rw [ClientProc.buffered]
    conv_lhs => rw [← hsplit]
    rw [List.map_append, List.sum_append, List.map_cons, List.sum_cons]
  rw [hbuffered, ClientProc.buffered, ClientProc.setCtx_contexts,
    List.set_eq_take_append_cons_drop, if_pos hindex, List.map_append, List.sum_append,
    List.map_cons, List.sum_cons]
  change _ + (conn.readbuf.len + _) + _ = _
  omega

/-- On the way out every step is the last one, or lowers the bound by more than the bytes that it
receives. -/
theorem ThreadStepped.leaving (hp : p.InOrder) (hl : p.Leaving)
    (h : ThreadStepped gTrackerAddr p a p' evs) :
    (p'.point = .ended ∧ p'.listenfd ∉ p'.fds) ∨
      (p'.Leaving ∧ p'.stepsLeft + 1 ≤ p.stepsLeft + receivedBytes evs) := by
  have hbefore := hl.before
  cases h with
  | again hpoint | failed hpoint | ready hpoint | ended hpoint =>
    rw [hpoint] at hbefore
    exact hbefore.elim
  | scanned hpoint hi =>
    rw [hpoint] at hbefore
    have hwatched := (hp.watched p.unblockfd).mpr (Or.inr (Or.inl rfl))
    exact absurd ((hp.fits _ hwatched).2.trans_lt hi) (not_lt.mpr hbefore)
  | unblocked => exact Or.inl ⟨rfl, Finset.notMem_erase _ _⟩
  | @skip i hpoint _ hidle =>
    rw [hpoint] at hbefore
    have hne : i ≠ p.unblockfd := fun heq => (hidle (heq ▸ hl.reported)).2 heq
    have hlt : i < p.unblockfd := lt_of_le_of_ne hbefore hne
    refine Or.inr ⟨⟨hl.reported, hlt⟩, ?_⟩
    rw [ClientProc.stepsLeft, ClientProc.stepsLeft, hpoint]
    change 2 * (p.unblockfd - (i + 1)) + 1 + p.buffered + 1 ≤
      2 * (p.unblockfd - i) + 1 + p.buffered + 0
    omega
  | @lost i hpoint _ _ hne =>
    rw [hpoint] at hbefore
    have hlt : i < p.unblockfd := lt_of_le_of_ne hbefore hne
    refine Or.inr ⟨⟨hl.reported, hlt⟩, ?_⟩
    rw [ClientProc.stepsLeft, ClientProc.stepsLeft, hpoint]
    change 2 * (p.unblockfd - (i + 1)) + 1 + p.buffered + 1 ≤
      2 * (p.unblockfd - i) + 1 + p.buffered + 0
    omega
  | @accept i fd sa socketctxs hpoint _ _ _ hne _ _ hlist =>
    rw [hpoint] at hbefore
    have hlt : i < p.unblockfd := lt_of_le_of_ne hbefore hne
    -- nothing has arrived on the new connection
    have hsame : (socketctxs.toList.map fun c => c.conn.readbuf.len).sum = p.buffered := by
      rw [hlist, List.map_append, List.sum_append]
      rfl
    refine Or.inr ⟨⟨hl.reported, hlt⟩, ?_⟩
    rw [ClientProc.stepsLeft, ClientProc.stepsLeft, hpoint]
    change 2 * (p.unblockfd - (i + 1)) + 1 +
      (socketctxs.toList.map fun c => c.conn.readbuf.len).sum + 1 ≤
      2 * (p.unblockfd - i) + 1 + p.buffered + 0
    rw [hsame]
    omega
  | @receive i index hpoint _ _ _ hne hindex =>
    rw [hpoint] at hbefore
    have hlt : i < p.unblockfd := lt_of_le_of_ne hbefore hne
    have hbuf := p.buffered_setCtx hindex (p.contexts[index].conn.recv a.recvs)
    rw [len_recv] at hbuf
    refine Or.inr ⟨⟨hl.reported, hlt⟩, ?_⟩
    rw [ClientProc.stepsLeft, ClientProc.stepsLeft, hpoint]
    change 2 * (p.unblockfd - i) + (p.setCtx index _).buffered + 1 ≤
      2 * (p.unblockfd - i) + 1 + p.buffered + ((received a.recvs).length + 0)
    omega
  | @length i index readEof conn hpoint hindex hround =>
    have hbuf := p.buffered_setCtx hindex conn
    have hless := frameRound_length hround
    refine Or.inr ⟨⟨hl.reported, hl.before⟩, ?_⟩
    rw [ClientProc.stepsLeft, ClientProc.stepsLeft,
      show (p.setCtx index (p.contexts[index].withConn conn)).point = p.point from rfl, hpoint]
    change 2 * (p.unblockfd - i) + (p.setCtx index _).buffered + 1 ≤
      2 * (p.unblockfd - i) + p.buffered + 0
    omega
  | @body i index readEof d conn client hpoint hindex hround =>
    have hbuf := p.buffered_setCtx hindex conn
    obtain ⟨-, hpos, hle, rfl⟩ := frameRound_body hround
    rw [bufferShift_len] at hbuf
    refine Or.inr ⟨⟨hl.reported, hl.before⟩, ?_⟩
    rw [ClientProc.stepsLeft, ClientProc.stepsLeft, hpoint]
    change (match p.point with
      | .visit i => 2 * (p.unblockfd - i) + 1 + (p.setCtx index _).buffered
      | .frames i _ _ => 2 * (p.unblockfd - i) + (p.setCtx index _).buffered
      | _ => 0) + 1 ≤ 2 * (p.unblockfd - i) + p.buffered + 0
    rw [hpoint]
    dsimp only
    omega
  | @leave i index hpoint =>
    rw [hpoint] at hbefore
    refine Or.inr ⟨⟨hl.reported, hbefore⟩, ?_⟩
    have hlt : i < p.unblockfd := hbefore
    rw [ClientProc.stepsLeft, ClientProc.stepsLeft, hpoint]
    change 2 * (p.unblockfd - (i + 1)) + 1 + p.buffered + 1 ≤ 2 * (p.unblockfd - i) + p.buffered + 0
    omega
  | @close i index readEof zero socketctxs hpoint _ _ _ hlist =>
    rw [hpoint] at hbefore
    have hlt : i < p.unblockfd := hbefore
    have hsub : (socketctxs.toList.map fun c => c.conn.readbuf.len).sum ≤ p.buffered := by
      rw [hlist]
      exact (List.eraseP_sublist.map _).sum_le_sum fun _ _ => Nat.zero_le _
    refine Or.inr ⟨⟨hl.reported, hbefore⟩, ?_⟩
    rw [ClientProc.stepsLeft, ClientProc.stepsLeft, hpoint]
    change 2 * (p.unblockfd - (i + 1)) + 1 +
      (socketctxs.toList.map fun c => c.conn.readbuf.len).sum + 1 ≤
      2 * (p.unblockfd - i) + p.buffered + 0
    omega

/-- A step of the GUI thread is not seen by the receiving thread. -/
theorem procStep_leaving (hp : p.InOrder) (hl : p.Leaving)
    (h : procStep gTrackerAddr p e = .ok p') :
    (p'.point = .ended ∧ p'.listenfd ∉ p'.fds) ∨
      (p'.Leaving ∧ p'.stepsLeft + [e].countP ProcInput.isNet ≤
        p.stepsLeft + receivedBytes (procEvents p e)) := by
  cases e with
  | net a => exact (threadStep_stepped h).leaving hp hl
  | gui e =>
    obtain ⟨client, -, heq⟩ := bind_eq_ok.mp h
    obtain rfl := Except.ok.inj heq
    exact Or.inr ⟨⟨hl.reported, hl.before⟩, le_rfl⟩

/-- A thread that has left its loop takes no more steps. -/
theorem procStep_ended (hended : p.point = .ended ∧ p.listenfd ∉ p.fds)
    (h : procStep gTrackerAddr p e = .ok p') : p'.point = .ended ∧ p'.listenfd ∉ p'.fds := by
  cases e with
  | net a =>
    rw [procStep, threadStep, hended.1] at h
    obtain rfl := Except.ok.inj h
    exact hended
  | gui e =>
    obtain ⟨client, -, heq⟩ := bind_eq_ok.mp h
    obtain rfl := Except.ok.inj heq
    exact hended

/-- After the pipe is reported, the steps taken and the steps left stay within the bound. -/
theorem procRun_leaving {p₁ : ClientProc} (hp : p₁.InOrder) (hl : p₁.Leaving)
    {es : List ProcInput} {trace : List ThreadEvent}
    (hrun : run (traced (procStep gTrackerAddr) procEvents) (p₁, []) es = .ok (p, trace)) :
    (p.point = .ended ∧ p.listenfd ∉ p.fds) ∨ (p.InOrder ∧ p.Leaving ∧
      p.stepsLeft + es.countP ProcInput.isNet ≤ p₁.stepsLeft + receivedBytes trace) := by
  refine run_history (I := fun es s => (s.1.point = .ended ∧ s.1.listenfd ∉ s.1.fds) ∨
    (s.1.InOrder ∧ s.1.Leaving ∧
      s.1.stepsLeft + es.countP ProcInput.isNet ≤ p₁.stepsLeft + receivedBytes s.2))
    (Or.inr ⟨hp, hl, le_rfl⟩) ?_ hrun
  rintro es ⟨q, before⟩ e s' hq hstep
  obtain ⟨q', hone, heq⟩ := bind_eq_ok.mp hstep
  obtain rfl := Except.ok.inj heq
  rcases hq with hended | ⟨hq, hql, hbound⟩
  · exact Or.inl (procStep_ended hended hone)
  rcases procStep_leaving hq hql hone with hended | ⟨hql', hless⟩
  · exact Or.inl hended
  rcases procStep_inOrder (Or.inr hq) hone with hended | hq'
  · have hbefore := hql'.before
    rw [hended] at hbefore
    exact hbefore.elim
  refine Or.inr ⟨hq', hql', ?_⟩
  rw [List.countP_append, receivedBytes_append]
  dsimp only at hbound hless ⊢
  omega

/-- When `select()` has reported the pipe, the receiving thread never gets to `select()` again, and
it has ended, with `listenfd` closed, after as many steps of its own as there are descriptors up to
the pipe, twice, and bytes in its buffers or received meanwhile.  No peer that keeps silent and no
GUI thread can hold it up. -/
theorem thread_ends (client : Client) (start : StartAnswers) (gTrackerAddr : HostAddr)
    (before es : List ProcInput) {p₀ p₁ p : ClientProc} {trace : List ThreadEvent}
    (hstart : threadStart client start = .ok p₀)
    (hbefore : run (procStep gTrackerAddr) p₀ before = .ok p₁)
    (hscan : p₁.point = .visit 0) (hpipe : p₁.unblockfd ∈ p₁.tmpReadfds)
    (hrun : run (traced (procStep gTrackerAddr) procEvents) (p₁, []) es = .ok (p, trace)) :
    p.point ≠ .select ∧
      (2 * p₁.unblockfd + 1 + p₁.buffered + receivedBytes trace ≤ es.countP ProcInput.isNet →
        p.point = .ended ∧ p.listenfd ∉ p.fds) := by
  have hp₁ := (procRun_inOrder hstart hbefore).resolve_left (by rw [hscan]; decide)
  have hl₁ : p₁.Leaving := by
    refine ⟨hpipe, ?_⟩
    rw [hscan]
    exact Nat.zero_le _
  rcases procRun_leaving hp₁ hl₁ hrun with hended | ⟨-, hl, hbound⟩
  · refine ⟨?_, fun _ => hended⟩
    rw [hended.1]
    decide
  have hleft : p.point ≠ .select ∧ 0 < p.stepsLeft := by
    have hbefore := hl.before
    rw [ClientProc.stepsLeft]
    cases hpoint : p.point with
    | select | ended =>
      rw [hpoint] at hbefore
      exact hbefore.elim
    | visit i =>
      refine ⟨ThreadPoint.noConfusion, ?_⟩
      dsimp only
      omega
    | frames i index readEof =>
      rw [hpoint] at hbefore
      have hlt : i < p.unblockfd := hbefore
      refine ⟨ThreadPoint.noConfusion, ?_⟩
      dsimp only
      omega
  have hfirst : p₁.stepsLeft = 2 * p₁.unblockfd + 1 + p₁.buffered := by
    rw [ClientProc.stepsLeft, hscan]
    rfl
  refine ⟨hleft.1, fun henough => ?_⟩
  omega

end Ending

/-- The thread ends after the message. -/
theorem thread_ends_waiting : ∃ p₀ p₁ p trace, threadStart clientInit startAnswers = .ok p₀ ∧
    run (procStep 0) p₀ pipeRun = .ok p₁ ∧
    run (traced (procStep 0) procEvents) (p₁, []) leavingRun = .ok (p, trace) ∧
    p.point = .ended ∧ p.listenfd ∉ p.fds := by
  obtain ⟨p₀, p₁, p, before, trace, hstart, hbefore, hrun, -, hscan, hpipe, hmem, hbuf, hbytes,
    -⟩ :=
    leavingRun_ok
  obtain ⟨after, rfl, hafter⟩ := run_traced_from hrun
  rw [receivedBytes_append] at hbytes
  refine ⟨p₀, p₁, p, after, hstart, run_of_traced hbefore, hafter, ?_⟩
  refine (thread_ends _ _ _ _ _ hstart (run_of_traced hbefore) hscan (hpipe ▸ hmem) hafter).2 ?_
  have henough : leavingRun.countP ProcInput.isNet = 14 := by decide
  rw [hpipe, hbuf, henough]
  omega

end TinyMsg
