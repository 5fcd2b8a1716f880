import TinyMsg.Tracker.Loop
import TinyMsg.Tracker.Watch

/-!
# The loop of the tracker and the descriptors it watches

`Tracker.watch` takes a state of the loop to the `Watch` it implements.  Each branch of a visit is
followed through: accepting, receiving and all that `handle_msg` sends are `WatchStep`s, and so is
sending as long as bytes are left; sending the last bytes of a context is a `Watch.drain`, after
which the context stays and is watched for nothing.

So `Tracker.WF` holds in every state of every run, and `all_watched_iff` says in which runs no
context is abandoned.  In `abandoningRun` messages are appended to an abandoned `writebuf`.
-/

namespace TinyMsg

/-! ## What the sockets are watched for -/

/-- What a context is to `select()`. -/
def SocketCtx.link (c : SocketCtx) : Link := ⟨c.fd, c.fromaddr, c.toaddr, c.writebuf.len, c.shutRd⟩

/-- Changing the `writebuf` at a descriptor changes the number of bytes that wait there. -/
theorem map_link_setWritebuf (l : List SocketCtx) (fd : ℕ) (writebuf : BufferRef) :
    (l.map fun d => if d.fd = fd then { d with writebuf := writebuf } else d).map
        SocketCtx.link =
      (l.map SocketCtx.link).map fun d =>
        if d.fd = fd then { d with pending := writebuf.len } else d := by
  rw [List.map_map, List.map_map]
  refine List.map_congr_left fun d _ => ?_
  by_cases hfd : d.fd = fd
  · simp [SocketCtx.link, hfd]
  · simp [SocketCtx.link, hfd]

/-- What the sockets are to `select()`. -/
def Net.watch (n : Net) (readfds : Finset ℕ) (listenfd : ℕ) : Watch where
  links := n.contexts.map SocketCtx.link
  readfds := readfds
  writefds := n.writefds
  maxfd := n.maxfd
  fds := n.fds
  listenfd := listenfd

/-- What the tracker's sockets are to `select()`. -/
def Tracker.watch (t : Tracker) : Watch := t.net.watch t.readfds t.listenfd

/-- What a series of sends does to the descriptors. -/
structure Watch.Sends (w w' : Watch) : Prop where
  /-- It consists of steps. -/
  steps : Relation.ReflTransGen WatchStep w w'
  /-- The accepted connections stay as they are. -/
  incoming : ∀ l ∈ w.links, l.toaddr = 0 → l ∈ w'.links
  /-- Nothing is watched for writing no longer. -/
  writefds : w.writefds ⊆ w'.writefds

theorem Watch.Sends.refl (w : Watch) : w.Sends w :=
  ⟨.refl, fun _ hl _ => hl, Finset.Subset.refl _⟩

theorem Watch.Sends.trans {w w' w'' : Watch} (h : w.Sends w') (h' : w'.Sends w'') : w.Sends w'' :=
  ⟨h.steps.trans h'.steps, fun l hl h0 => h'.incoming l (h.incoming l hl h0) h0,
    h.writefds.trans h'.writefds⟩

/-- Steps keep the invariant. -/
theorem Watch.WF.steps {w w' : Watch} (hw : w.WF) (h : Relation.ReflTransGen WatchStep w w') :
    w'.WF := by
  induction h with
  | refl => exact hw
  | tail _ hstep ih => exact ih.step hstep

section Net

variable {n n' : Net} {readfds : Finset ℕ} {listenfd : ℕ} {toaddr : HostAddr}

/-- The sockets are in order when the array and the descriptors are. -/
theorem Net.wf_of_watch (harray : n.memory.ArrayWF n.socketctxs)
    (hw : (n.watch readfds listenfd).WF) : n.WF := by
  have hlink : ∀ c ∈ n.contexts, c.link ∈ (n.watch readfds listenfd).links := fun c hc =>
    List.mem_map_of_mem hc
  refine ⟨harray, ?_, fun c hc => hw.fds_open _ (hlink c hc), fun c hc => hw.lt_size _ (hlink c hc),
    fun fd hfd => ?_⟩
  · have hnodup := hw.fds_nodup
    rw [Net.watch, List.map_map] at hnodup
    exact hnodup
  · obtain ⟨c, hc, rfl, -⟩ := hw.writefds fd hfd
    exact hw.fds_open c hc

/-- A send takes steps. -/
theorem Net.AfterSend.watch (hw : (n.watch readfds listenfd).WF) (h : n.AfterSend n' toaddr)
    (h0 : toaddr ≠ 0) : (n.watch readfds listenfd).Sends (n'.watch readfds listenfd) := by
  rcases h.sent with ⟨c, writebuf, hc, haddr, -, hctxs, hwrite, hmax, hfds⟩ |
    ⟨c, hnew, hlt, hfrom, haddr, hpending, hshut, hfresh, hctxs, hwrite, hmax, hfds⟩ |
    ⟨hctxs, hwrite, hmax, hfds⟩
  · have hc' : c.link ∈ (n.watch readfds listenfd).links := List.mem_map_of_mem hc
    have hne : c.link.toaddr ≠ 0 := fun hzero => h0 (haddr.symm.trans hzero)
    have hwatch : n'.watch readfds listenfd =
        (n.watch readfds listenfd).setPending c.link.fd writebuf.len := by
      simp only [Net.watch, Watch.setPending, hctxs, hwrite, hmax, hfds, map_link_setWritebuf]
      rfl
    rw [hwatch]
    refine ⟨.single (.queue hc' hne), fun l hl hl0 => ?_, Finset.Subset.refl _⟩
    refine List.mem_map.mpr ⟨l, hl, if_neg fun hfd => hne ?_⟩
    exact hw.link_inj hl hc' hfd ▸ hl0
  · have hwatch : n'.watch readfds listenfd =
        (n.watch readfds listenfd).connect c.fd toaddr c.writebuf.len := by
      simp only [Net.watch, Watch.connect, hctxs, hwrite, hmax, hfds, List.map_append,
        List.map_singleton, SocketCtx.link, hfrom, haddr, hshut]
    rw [hwatch]
    refine ⟨.single (.connect hnew hlt h0 (fun l hl => ?_) hpending), fun l hl _ =>
      List.mem_append_left _ hl, Finset.subset_insert _ _⟩
    obtain ⟨d, hd, rfl⟩ := List.mem_map.mp hl
    exact hfresh d hd
  · have hwatch : n'.watch readfds listenfd = n.watch readfds listenfd := by
      simp only [Net.watch, hctxs, hwrite, hmax, hfds]
    rw [hwatch]
    exact .refl _

/-- Writing through a pointer does not change what it leaves as it was. -/
theorem Memory.ArrayWF.map_setCtx {α : Type} {f : SocketCtx → α} {m : Memory} {a : ArrayRef}
    {ctx : CtxPtr} {c : SocketCtx} (h : m.ArrayWF a) (hctx : m.Valid a ctx)
    (hf : f c = f (m.ctx ctx)) : ((m.setCtx ctx c).list a).map f = (m.list a).map f := by
  by_cases hb : ctx.block = a.items
  · have hi : ctx.index < (m.list a).length := by
      rw [m.length_list]
      exact hctx.live hb
    rw [h.list_setCtx_live hb, List.map_set, hf, h.ctx_live hb hi]
    refine List.ext_getElem (by simp) fun j hj hj' => ?_
    by_cases hij : ctx.index = j
    · subst hij
      simp
    · rw [List.getElem_set_ne hij]
  · rw [Memory.list_setCtx_stale hb]

/-- Storing what is left of a `readbuf` changes nothing for `select()`. -/
theorem putReadbuf_spec (harray : n.memory.ArrayWF n.socketctxs) {ctx : CtxPtr}
    (hctx : n.memory.Valid n.socketctxs ctx) (buf : Buffer) (msglen : ℕ) (readfds : Finset ℕ)
    (listenfd : ℕ) (hn' : n' = { n with memory := n.memory.putReadbuf ctx buf msglen }) :
    n'.memory.ArrayWF n'.socketctxs ∧ n'.memory.Valid n'.socketctxs ctx ∧
      (n'.memory.ctx ctx).link = (n.memory.ctx ctx).link ∧
      n'.watch readfds listenfd = n.watch readfds listenfd := by
  subst hn'
  obtain ⟨m₁, readbuf, hput, hctxs, hpos⟩ : ∃ (m₁ : Memory) (readbuf : BufferRef),
      n.memory.putReadbuf ctx buf msglen =
        m₁.setCtx ctx { n.memory.ctx ctx with readbuf := readbuf, msglen := msglen } ∧
      m₁.ctxs = n.memory.ctxs ∧ n.memory.pos ≤ m₁.pos :=
    ⟨_, _, rfl, Memory.putBuffer_ctxs _ _ _, Memory.pos_le_putBuffer _ _ _⟩
  have harray₁ := harray.of_ctxs hctxs hpos
  obtain ⟨hctx₁, hsame⟩ := Memory.keeps_of_ctxs hctxs hpos ctx hctx
  simp only [hput]
  refine ⟨harray₁.setCtx _ _, hctx₁.setCtx _ _, ?_, ?_⟩
  · rw [Memory.ctx_setCtx_self hctx₁.index_lt]
    rfl
  · have hlinks := harray₁.map_setCtx (f := SocketCtx.link) hctx₁
      (c := { n.memory.ctx ctx with readbuf := readbuf, msglen := msglen }) (by rw [hsame]; rfl)
    simp only [Net.watch, Net.contexts, hlinks,
      Memory.list_congr (congrFun hctxs n.socketctxs.items)]

/-- Writing through a pointer to a context does not show once the context is removed. -/
theorem Memory.ArrayWF.filter_setCtx {m : Memory} {a : ArrayRef} {ctx : CtxPtr} {c : SocketCtx}
    (h : m.ArrayWF a) (hctx : m.Valid a ctx) (hfd : c.fd = (m.ctx ctx).fd) :
    (((m.setCtx ctx c).list a).filter fun d => d.fd ≠ c.fd) =
      (m.list a).filter fun d => d.fd ≠ c.fd := by
  by_cases hb : ctx.block = a.items
  · have hi : ctx.index < (m.list a).length := by
      rw [m.length_list]
      exact hctx.live hb
    have hold : (m.list a)[ctx.index].fd = c.fd := by rw [hfd, h.ctx_live hb hi]
    have hsplit : m.list a =
        (m.list a).take ctx.index ++ (m.list a)[ctx.index] :: (m.list a).drop (ctx.index + 1) := by
      rw [List.getElem_cons_drop, List.take_append_drop]
    rw [h.list_setCtx_live hb, List.set_eq_take_append_cons_drop, if_pos hi]
    conv_rhs => rw [hsplit]
    rw [List.filter_append, List.filter_append, List.filter_cons_of_neg (by simp),
      List.filter_cons_of_neg (by simp [hold])]
  · rw [Memory.list_setCtx_stale hb]

/-- Starting over with an empty arena leaves no context, as there was none. -/
theorem Net.resetIfEmpty_spec (harray : n.memory.ArrayWF n.socketctxs) :
    n.resetIfEmpty.memory.ArrayWF n.resetIfEmpty.socketctxs ∧
      n.resetIfEmpty.contexts = n.contexts ∧ n.resetIfEmpty.writefds = n.writefds ∧
      n.resetIfEmpty.maxfd = n.maxfd ∧ n.resetIfEmpty.fds = n.fds ∧
      n.resetIfEmpty.accepted = n.accepted ∧ (n.contexts = [] ∨ n.resetIfEmpty = n) := by
  unfold Net.resetIfEmpty
  split
  case isTrue hlen =>
    have hnil : n.contexts = [] := List.length_eq_zero_iff.mp ((n.memory.length_list _).trans hlen)
    refine ⟨arrayNew_arrayWF _ (by decide), ?_, rfl, rfl, rfl, rfl, Or.inl hnil⟩
    rw [hnil]
    rfl
  case isFalse => exact ⟨harray, rfl, rfl, rfl, rfl, rfl, Or.inr rfl⟩

/-- What the sockets are after the connection at a descriptor is closed. -/
structure Net.Closed (n n' : Net) (fd : ℕ) : Prop where
  /-- The array of contexts is in order. -/
  array : n'.memory.ArrayWF n'.socketctxs
  /-- The context is removed. -/
  contexts : n'.contexts = n.contexts.filter fun d => d.fd ≠ fd
  /-- What is watched for writing is the same. -/
  writefds : n'.writefds = n.writefds
  /-- `maxfd` is the same. -/
  maxfd : n'.maxfd = n.maxfd
  /-- The descriptor is closed. -/
  fds : n'.fds = n.fds.erase fd
  /-- The kernel takes nothing. -/
  accepted : n'.accepted = n.accepted
  /-- The buffers stay, unless the arena is empty. -/
  buffers : n'.contexts = [] ∨ n'.memory.bytes = n.memory.bytes ∧ n'.memory.pos = n.memory.pos

/-- `SocketCtx_close_and_remove` closes the connection of the context at the pointer, wherever the
array is. -/
theorem socketCtxCloseAndRemove_eq (harray : n.memory.ArrayWF n.socketctxs)
    (hnodup : (n.contexts.map SocketCtx.fd).Nodup) (ctx : CtxPtr) :
    ∃ n', socketCtxCloseAndRemove n ctx = .ok n' ∧ n.Closed n' (n.memory.ctx ctx).fd := by
  obtain ⟨m', a', hremove, harray', hlist, hbytes, hpos⟩ :=
    socketCtxRemove_eq harray hnodup (n.memory.ctx ctx).fd
  refine ⟨{ n.shutdownSocket (n.memory.ctx ctx).fd with memory := m', socketctxs := a' }, ?_,
    harray', hlist, rfl, rfl, rfl, rfl, Or.inr ⟨hbytes, hpos⟩⟩
  simp only [socketCtxCloseAndRemove, Net.shutdownSocket, hremove, ok_bind]

end Net

/-! ## The peer table -/

/-- Every record has an address to send to. -/
def Peers.Addressed (p : Peers) : Prop := ∀ q ∈ p.records, q.toaddr ≠ 0

section Addressed

variable {p p' : Peers} {fromaddr toaddr : HostAddr} {aliasStr hostname : CStr} {hpeer : TMHandle}

theorem createPeer_addressed (hp : p.WF) (ha : p.Addressed) (h0 : toaddr ≠ 0)
    (h : createPeer p aliasStr hostname fromaddr toaddr = .ok (p', hpeer)) : p'.Addressed := by
  intro q hq
  rcases createPeer_ok hp h with hrep | hadd
  · rw [hrep.records] at hq
    obtain ⟨r, hr, rfl⟩ := List.mem_map.mp hq
    unfold Peer.announced
    split
    · exact h0
    · exact ha r hr
  · rw [hadd.records] at hq
    rcases List.mem_append.mp hq with hq | hq
    · exact ha q hq
    · obtain rfl := List.mem_singleton.mp hq
      exact h0

theorem destroyFromaddr_addressed (hp : p.WF) (ha : p.Addressed)
    (h : destroyFromaddr p fromaddr = .ok p') : p'.Addressed := by
  rw [destroyFromaddr, findPeerFromaddr_eq, ok_bind] at h
  cases hq : p.at fromaddr with
  | none =>
    rw [hq] at h
    obtain rfl := Except.ok.inj h
    exact ha
  | some q =>
    rw [hq] at h
    obtain ⟨p₁, hok, hrec, -⟩ := destroyPeer_eq hp q.hpeer
    obtain rfl := Except.ok.inj (h.symm.trans hok)
    intro r hr
    rw [hrec] at hr
    obtain ⟨s, hs, rfl⟩ := List.mem_map.mp hr
    unfold Peer.deactivate
    split <;> exact ha s hs

/-- A peer that knocks from an address can be reached at that address. -/
theorem knockToaddr_ne_zero (h : hostAddrAddr fromaddr ≠ 0) (listenport : UInt16) :
    knockToaddr fromaddr listenport ≠ 0 := by
  intro hzero
  have haddr : (hostAddrAddr fromaddr).toNat = 0 := by
    rw [knockToaddr, hostAddrFromSockAddr] at hzero
    exact (Nat.add_eq_zero_iff.mp hzero).2
  exact h (UInt32.toNat_inj.mp haddr)

end Addressed

/-! ## The read branch -/

/-- What holds in the read branch, from where the descriptors were `w₀`, while `ctx` points to a
context that was the link `l₀`.  The array may have moved away from the context. -/
structure Serving (w₀ : Watch) (l₀ : Link) (ctx : CtxPtr) (p : Peers) (n : Net) : Prop where
  /-- The peer table is in order. -/
  peers : p.WF
  /-- Its records have addresses. -/
  addressed : p.Addressed
  /-- The array of contexts is in order. -/
  array : n.memory.ArrayWF n.socketctxs
  /-- The descriptors have changed by sends. -/
  sends : w₀.Sends (n.watch w₀.readfds w₀.listenfd)
  /-- The pointer can be used. -/
  valid : n.memory.Valid n.socketctxs ctx
  /-- It points to the same as before. -/
  link : (n.memory.ctx ctx).link = l₀

section Serving

variable {w₀ : Watch} {l₀ : Link} {ctx : CtxPtr} {p p' : Peers} {n n' : Net} {fromaddr : HostAddr}

/-- A send of `handle_msg` goes on from there. -/
theorem Serving.send (hw₀ : w₀.WF) (h0 : l₀.toaddr = 0) {s : Net × List ConnectCall}
    (h : Serving w₀ l₀ ctx p s.1) {send : Send} (hto : send.toaddr ≠ 0) :
    Meets (sendPeerMsg s send) (fun s' => Serving w₀ l₀ ctx p s'.1) NoAssertion := by
  have hw := hw₀.steps h.sends.steps
  have hne : (s.1.memory.ctx ctx).toaddr ≠ send.toaddr := by
    have hzero : (s.1.memory.ctx ctx).toaddr = 0 := (congrArg Link.toaddr h.link).trans h0
    rw [hzero]
    exact hto.symm
  refine (sendPeerMsg_meets (Net.wf_of_watch h.array hw) send).mono (fun s' hs' => ?_)
    fun _ he => he
  obtain ⟨hvalid, hctx⟩ := hs'.keeps ctx h.valid hne
  exact ⟨h.peers, h.addressed, hs'.wf.array, h.sends.trans (hs'.watch hw hto), hvalid,
    hctx ▸ h.link⟩

/-- A series of sends goes on from there. -/
theorem Serving.run (hw₀ : w₀.WF) (h0 : l₀.toaddr = 0) {s s' : Net × List ConnectCall}
    (h : Serving w₀ l₀ ctx p s.1) {sends : List Send} (hto : ∀ send ∈ sends, send.toaddr ≠ 0)
    (hrun : run sendPeerMsg s sends = .ok s') : Serving w₀ l₀ ctx p s'.1 :=
  (meets_run (I := fun s => Serving w₀ l₀ ctx p s.1) h fun _ _ hmem hs =>
    hs.send hw₀ h0 (hto _ hmem)).of_ok hrun

/-- `handle_msg` of a message from an address goes on from there. -/
theorem Serving.handleMsg (hw₀ : w₀.WF) (h0 : l₀.toaddr = 0) {s s' : Net × List ConnectCall}
    (h : Serving w₀ l₀ ctx p s.1) (hfrom : hostAddrAddr fromaddr ≠ 0) {m : TrackerMsg}
    (hmsg : handleMsg sendPeerMsg p s fromaddr m = .ok (p', s')) :
    Serving w₀ l₀ ctx p' s'.1 := by
  have hactive : ∀ {p : Peers}, p.Addressed → ∀ q ∈ p.active, q.toaddr ≠ 0 := fun ha q hq =>
    ha q (List.mem_of_mem_filter hq)
  have hwf := handleMsg_wf h.peers hmsg
  cases m with
  | knock aliasStr hostname listenport =>
    have hto := knockToaddr_ne_zero hfrom listenport
    obtain ⟨hrun, hpeer, hcreate⟩ := (handleMsg_knock h.peers).mp hmsg
    have hs' := h.run hw₀ h0 (fun send hsend => ?_) hrun
    · exact ⟨hwf, createPeer_addressed h.peers h.addressed hto hcreate, hs'.array, hs'.sends,
        hs'.valid, hs'.link⟩
    · rcases List.mem_append.mp hsend with hsend | hsend
      · obtain ⟨q, hq, rfl⟩ := List.mem_map.mp hsend
        exact hactive h.addressed q hq
      · obtain ⟨q, -, rfl⟩ := List.mem_map.mp hsend
        exact hto
  | bye =>
    obtain ⟨hdestroy, -, hrun⟩ := handleMsg_bye.mp hmsg
    have ha := destroyFromaddr_addressed h.peers h.addressed hdestroy
    refine Serving.run hw₀ h0 ⟨hwf, ha, h.array, h.sends, h.valid, h.link⟩ (fun send hsend => ?_)
      hrun
    obtain ⟨q, hq, rfl⟩ := List.mem_map.mp hsend
    exact hactive ha q hq

/-- So does a call with the bytes of a message. -/
theorem Serving.handleMsgBytes (hw₀ : w₀.WF) (h0 : l₀.toaddr = 0) (h : Serving w₀ l₀ ctx p n)
    (hfrom : hostAddrAddr fromaddr ≠ 0) {readbuf : Buffer} {msglen : ℕ} {env : MsgEnv}
    (hmsg : handleMsgBytes p n fromaddr readbuf msglen env = .ok (p', n')) :
    Serving w₀ l₀ ctx p' n' := by
  unfold TinyMsg.handleMsgBytes at hmsg
  split at hmsg
  · obtain ⟨rfl, rfl⟩ := Prod.mk.inj (Except.ok.inj hmsg)
    exact h
  · obtain ⟨⟨p₁, n₁, calls⟩, hok, heq⟩ := bind_eq_ok.mp hmsg
    obtain ⟨rfl, rfl⟩ := Prod.mk.inj (Except.ok.inj heq)
    exact Serving.handleMsg hw₀ h0 (s := (n, env.calls)) h hfrom hok

/-- So does storing what is left of the `readbuf`. -/
theorem Serving.putReadbuf (h : Serving w₀ l₀ ctx p n) (buf : Buffer) (msglen : ℕ) :
    Serving w₀ l₀ ctx p { n with memory := n.memory.putReadbuf ctx buf msglen } := by
  obtain ⟨harray, hvalid, hlink, hwatch⟩ :=
    putReadbuf_spec h.array h.valid buf msglen w₀.readfds w₀.listenfd rfl
  exact ⟨h.peers, h.addressed, harray, hwatch ▸ h.sends, hvalid, hlink.trans h.link⟩

/-- The loop over the received bytes goes on from there. -/
theorem Serving.frameLoop (hw₀ : w₀.WF) (hl₀ : l₀ ∈ w₀.links) (h0 : l₀.toaddr = 0) {fuel : ℕ}
    {envs : List MsgEnv} {readEof readEof' : Bool} (h : Serving w₀ l₀ ctx p n)
    (hloop : trackerFrameLoop ctx fuel envs readEof p n = .ok (p', n', readEof')) :
    Serving w₀ l₀ ctx p' n' := by
  induction fuel generalizing envs readEof p n with
  | zero =>
    obtain ⟨rfl, rfl, rfl⟩ := Prod.mk.inj (Except.ok.inj hloop)
    exact h
  | succ fuel ih =>
    have hfrom : hostAddrAddr (n.memory.ctx ctx).fromaddr ≠ 0 := by
      have hlink : (n.memory.ctx ctx).fromaddr = l₀.fromaddr := congrArg Link.fromaddr h.link
      rw [hlink]
      exact (hw₀.incoming l₀ hl₀ h0).2.2
    rw [trackerFrameLoop] at hloop
    split at hloop
    · split at hloop
      · split at hloop
        · -- a prefix of zero
          obtain ⟨rfl, rfl, rfl⟩ := Prod.mk.inj (Except.ok.inj hloop)
          exact h
        · exact ih (h.putReadbuf _ _) hloop
      · obtain ⟨rfl, rfl, rfl⟩ := Prod.mk.inj (Except.ok.inj hloop)
        exact h
    · split at hloop
      · obtain ⟨⟨p₁, n₁⟩, hmsg, hloop⟩ := bind_eq_ok.mp hloop
        exact ih ((h.handleMsgBytes hw₀ h0 hfrom hmsg).putReadbuf _ _) hloop
      · obtain ⟨rfl, rfl, rfl⟩ := Prod.mk.inj (Except.ok.inj hloop)
        exact h

/-- The end of the read branch removes the context. -/
theorem Serving.closed (hw₀ : w₀.WF) (hl₀ : l₀ ∈ w₀.links) (h0 : l₀.toaddr = 0)
    (h : Serving w₀ l₀ ctx p n) :
    ∃ n', closeIfDone (n.setShutRd ctx) ctx = .ok n' ∧ n.Closed n' l₀.fd := by
  have hw := hw₀.steps h.sends.steps
  have hl : l₀ ∈ (n.watch w₀.readfds w₀.listenfd).links := h.sends.incoming l₀ hl₀ h0
  have hfd : (n.memory.ctx ctx).fd = l₀.fd := congrArg Link.fd h.link
  have hlen : (n.memory.ctx ctx).writebuf.len = 0 :=
    (congrArg Link.pending h.link).trans (hw.incoming l₀ hl h0).2.1
  have harray : (n.setShutRd ctx).memory.ArrayWF (n.setShutRd ctx).socketctxs :=
    h.array.setCtx _ _
  have hctx : (n.setShutRd ctx).memory.ctx ctx = { n.memory.ctx ctx with shutRd := true } :=
    Memory.ctx_setCtx_self h.valid.index_lt
  have hnodup : ((n.setShutRd ctx).contexts.map SocketCtx.fd).Nodup := by
    have hsame := h.array.map_setCtx (f := SocketCtx.fd) h.valid
      (c := { n.memory.ctx ctx with shutRd := true }) rfl
    exact hsame ▸ (Net.wf_of_watch h.array hw).fds_nodup
  obtain ⟨n₁, hclose, hclosed⟩ := socketCtxCloseAndRemove_eq harray hnodup ctx
  obtain ⟨harray', hcontexts, hwrite, hmax, hfds, haccepted, hreset⟩ :=
    Net.resetIfEmpty_spec hclosed.array
  have hctxs : n₁.contexts = n.contexts.filter fun d => d.fd ≠ l₀.fd := by
    have hfilter := h.array.filter_setCtx h.valid
      (c := { n.memory.ctx ctx with shutRd := true }) rfl
    rw [hclosed.contexts, hctx, ← hfd]
    exact hfilter
  refine ⟨n₁.resetIfEmpty, ?_, harray', hcontexts.trans hctxs, hwrite.trans hclosed.writefds,
    hmax.trans hclosed.maxfd, ?_, haccepted.trans hclosed.accepted, ?_⟩
  · rw [closeIfDone, hctx]
    simp [hlen, hclose]
  · rw [hfds, hclosed.fds, hctx, ← hfd]
    rfl
  · rcases hreset with hnil | heq
    · exact Or.inl (hcontexts.trans hnil)
    · rw [heq]
      exact hclosed.buffers

/-- The end of the read branch closes the connection. -/
theorem Net.Closed.watch (h : n.Closed n' l₀.fd) :
    n'.watch (w₀.readfds.erase l₀.fd) w₀.listenfd =
      (n.watch w₀.readfds w₀.listenfd).close l₀.fd := by
  simp only [Net.watch, Watch.close, h.contexts, h.writefds, h.maxfd, h.fds, List.filter_map]
  rfl

end Serving

/-! ## One step of the loop -/

/-- What the tracker keeps true. -/
structure Tracker.WF (t : Tracker) : Prop where
  /-- The peer table is in order. -/
  peers : t.peers.WF
  /-- Its records have addresses. -/
  addressed : t.peers.Addressed
  /-- The array of contexts is in order. -/
  array : t.net.memory.ArrayWF t.net.socketctxs
  /-- The descriptors are in order. -/
  watch : t.watch.WF
  /-- What is still to be visited is still watched. -/
  scan : ∀ fd, t.i ≤ fd →
    (fd ∈ t.tmpReadfds → fd ∈ t.readfds) ∧ (fd ∈ t.tmpWritefds → fd ∈ t.net.writefds)

/-- What a branch of a visit leaves in order. -/
structure Tracker.Branched (t t' : Tracker) : Prop where
  /-- The peer table is in order. -/
  peers : t'.peers.WF
  /-- Its records have addresses. -/
  addressed : t'.peers.Addressed
  /-- The array of contexts is in order. -/
  array : t'.net.memory.ArrayWF t'.net.socketctxs
  /-- Other descriptors are still watched for reading. -/
  readfds : ∀ fd, fd ≠ t.i → fd ∈ t.readfds → fd ∈ t'.readfds
  /-- Other descriptors are still watched for writing. -/
  writefds : ∀ fd, fd ≠ t.i → fd ∈ t.net.writefds → fd ∈ t'.net.writefds
  /-- The visit is the same. -/
  tmpReadfds : t'.tmpReadfds = t.tmpReadfds
  /-- The visit is the same. -/
  tmpWritefds : t'.tmpWritefds = t.tmpWritefds
  /-- The visit is the same. -/
  i : t'.i = t.i

section Step

variable {t t' : Tracker} {a : Answers} {goOn : Bool}

theorem Tracker.WF.net (ht : t.WF) : t.net.WF := Net.wf_of_watch ht.array ht.watch

theorem Tracker.WF.branched (ht : t.WF) : t.Branched t :=
  ⟨ht.peers, ht.addressed, ht.array, fun _ _ h => h, fun _ _ h => h, rfl, rfl, rfl⟩

/-- The next visit finds the tracker in order. -/
theorem Tracker.Branched.next (ht : t.WF) (h : t.Branched t') (hw : t'.watch.WF) :
    Tracker.WF { t' with i := t'.i + 1 } := by
  refine ⟨h.peers, h.addressed, h.array, hw, fun fd hfd => ?_⟩
  have hlt : t.i < fd := h.i ▸ hfd
  obtain ⟨hread, hwrite⟩ := ht.scan fd hlt.le
  refine ⟨fun hmem => h.readfds fd hlt.ne' (hread ?_),
    fun hmem => h.writefds fd hlt.ne' (hwrite ?_)⟩
  · exact h.tmpReadfds ▸ hmem
  · exact h.tmpWritefds ▸ hmem

/-- The context that a descriptor is looked up for. -/
theorem Tracker.WF.found (ht : t.WF) {i : ℕ}
    (hi : (t.contexts.findIdx? fun c => c.fd = t.i) = some i) :
    ∃ h : i < t.contexts.length,
      t.net.memory.Valid t.net.socketctxs ⟨t.net.socketctxs.items, i⟩ ∧
      t.net.memory.ctx ⟨t.net.socketctxs.items, i⟩ = t.contexts[i] ∧ t.contexts[i].fd = t.i ∧
      t.contexts[i].link ∈ t.watch.links := by
  obtain ⟨h, -, hfd⟩ := findIdx?_lookup hi
  have hlen : i < t.net.socketctxs.len := by
    rw [← Memory.length_list]
    exact h
  refine ⟨h, ⟨ht.array.items_lt, ?_, fun _ => hlen⟩, ht.array.ctx_live rfl h, hfd,
    List.mem_map_of_mem (List.getElem_mem h)⟩
  rw [ht.array.block_length]
  exact hlen.trans_le t.net.socketctxs.len_le_cap

/-- A connection is accepted, or nothing happens. -/
theorem acceptBranch_ok (ht : t.WF) (h : acceptBranch t a = .ok (t', goOn)) :
    t.Branched t' ∧ Relation.ReflTransGen WatchStep t.watch t'.watch := by
  unfold acceptBranch at h
  cases haccept : a.accept with
  | failed =>
    simp only [haccept] at h
    obtain ⟨rfl, rfl⟩ := Prod.mk.inj (Except.ok.inj h)
    exact ⟨ht.branched, .refl⟩
  | other fd =>
    simp only [haccept] at h
    obtain ⟨n, hopen, heq⟩ := bind_eq_ok.mp h
    obtain ⟨hnew, rfl⟩ := (openFd_meets _ _).of_ok hopen
    obtain ⟨rfl, rfl⟩ := Prod.mk.inj (Except.ok.inj heq)
    refine ⟨⟨ht.peers, ht.addressed, ht.array, fun _ _ h => h, fun _ _ h => h, rfl, rfl, rfl⟩, ?_⟩
    convert Relation.ReflTransGen.refl using 1
    simp only [Tracker.watch, Net.watch, Net.contexts, Net.shutdownSocket,
      Finset.erase_insert hnew]
  | ipv4 fd sa =>
    simp only [haccept] at h
    obtain ⟨n, hopen, h⟩ := bind_eq_ok.mp h
    obtain ⟨hnew, rfl⟩ := (openFd_meets _ _).of_ok hopen
    split at h
    · cases h
    rename_i haddr
    rcases socketCtxNew_cases ht.array fd (hostAddrFromSockAddr sa) 0 64 1 with
      ⟨m, ctxs, p, readbuf, writebuf, hnewctx, -, hlen, hadd⟩ | ⟨herr, -⟩
    · obtain ⟨⟨m', ctxs', p'⟩, hnewctx', h⟩ := bind_eq_ok.mp h
      obtain ⟨rfl, hrest⟩ := Prod.mk.inj (Except.ok.inj (hnewctx.symm.trans hnewctx'))
      obtain ⟨rfl, rfl⟩ := Prod.mk.inj hrest
      obtain ⟨readfds, hset, heq⟩ := bind_eq_ok.mp h
      obtain ⟨hlt, rfl⟩ := fdSet_ok hset
      obtain ⟨rfl, rfl⟩ := Prod.mk.inj (Except.ok.inj heq)
      refine ⟨⟨ht.peers, ht.addressed, hadd.array, fun _ _ h => Finset.mem_insert_of_mem h,
        fun _ _ h => h, rfl, rfl, rfl⟩, .single ?_⟩
      have hfrom : hostAddrAddr (hostAddrFromSockAddr sa) ≠ 0 := by
        have hsa := congrArg SockAddr.sinAddr (sockAddrFromHostAddr_hostAddrFromSockAddr sa)
        exact fun hzero => haddr (hsa.symm.trans hzero)
      have hstep : WatchStep t.watch (t.watch.accept fd (hostAddrFromSockAddr sa)) :=
        .accept hnew hlt hfrom
      convert hstep using 1
      simp only [Tracker.watch, Net.watch, Net.contexts, Watch.accept, hadd.list, List.map_append,
        List.map_singleton, SocketCtx.link, ctxNew, hlen]
    · rw [herr] at h
      cases h

/-- A context receives. -/
theorem readBranch_ok (ht : t.WF) (hi : t.i ∈ t.readfds) (hne : t.i ≠ t.listenfd)
    (h : readBranch t a = .ok (t', goOn)) :
    t.Branched t' ∧ Relation.ReflTransGen WatchStep t.watch t'.watch := by
  have hfind : socketCtxFindByFd t.net.memory t.net.socketctxs t.i =
      .ok ((t.contexts.findIdx? fun c => c.fd = t.i).map fun i => ⟨t.net.socketctxs.items, i⟩) :=
    socketCtxFindByFd_eq _ _ _
  rw [readBranch, hfind, ok_bind] at h
  cases hidx : t.contexts.findIdx? fun c => c.fd = t.i with
  | none =>
    rw [hidx] at h
    obtain ⟨rfl, rfl⟩ := Prod.mk.inj (Except.ok.inj h)
    exact ⟨ht.branched, .refl⟩
  | some i =>
    rw [hidx] at h
    obtain ⟨hlt, hvalid, hctx, hfd, hl₀⟩ := ht.found hidx
    have h0 : t.contexts[i].link.toaddr = 0 := by
      rcases ht.watch.readfds t.i hi with hlisten | ⟨l, hl, hlfd, hzero⟩
      · exact absurd hlisten hne
      · have hsame := ht.watch.link_inj hl hl₀ (hlfd.trans hfd.symm)
        exact hsame ▸ hzero
    have hserving : Serving t.watch t.contexts[i].link ⟨t.net.socketctxs.items, i⟩ t.peers t.net :=
      ⟨ht.peers, ht.addressed, ht.array, .refl _, hvalid, by rw [hctx]⟩
    obtain ⟨⟨p, n, readEof⟩, hloop, h⟩ := bind_eq_ok.mp h
    replace hserving := (hserving.putReadbuf _ _).frameLoop ht.watch hl₀ h0 hloop
    have hsteps := hserving.sends.steps
    dsimp only at h
    split at h
    · obtain ⟨readfds, hclr, h⟩ := bind_eq_ok.mp h
      obtain rfl := fdClr_ok hclr
      obtain ⟨n', hclose, heq⟩ := bind_eq_ok.mp h
      obtain ⟨rfl, rfl⟩ := Prod.mk.inj (Except.ok.inj heq)
      obtain ⟨n₁, hclose₁, hclosed⟩ := hserving.closed ht.watch hl₀ h0
      obtain rfl := Except.ok.inj (hclose.symm.trans hclose₁)
      have hfd' : t.contexts[i].link.fd = t.i := hfd
      have hwatch : n'.watch (t.watch.readfds.erase t.contexts[i].link.fd) t.watch.listenfd =
          (n.watch t.watch.readfds t.watch.listenfd).close t.contexts[i].link.fd := hclosed.watch
      rw [hfd'] at hwatch
      have hwrite : n'.writefds = n.writefds := hclosed.writefds
      refine ⟨⟨hserving.peers, hserving.addressed, hclosed.array,
        fun fd hne hmem => Finset.mem_erase.mpr ⟨hne, hmem⟩,
        fun fd _ hmem => hwrite ▸ hserving.sends.writefds hmem, rfl, rfl, rfl⟩, ?_⟩
      have hl : t.contexts[i].link ∈ (n.watch t.watch.readfds t.watch.listenfd).links :=
        hserving.sends.incoming _ hl₀ h0
      exact (hsteps.tail (.close hl h0)).trans (by rw [hfd', ← hwatch]; exact .refl)
    · obtain ⟨rfl, rfl⟩ := Prod.mk.inj (Except.ok.inj h)
      exact ⟨⟨hserving.peers, hserving.addressed, hserving.array, fun _ _ h => h,
        fun _ _ h => hserving.sends.writefds h, rfl, rfl, rfl⟩, hsteps⟩

/-- Storing what is left of a `writebuf` changes the number of bytes that wait. -/
theorem putWritebuf_spec {n n' : Net} {ctx : CtxPtr} (hn : n.WF)
    (hblock : ctx.block = n.socketctxs.items) (hi : ctx.index < n.contexts.length) (buf : Buffer)
    (readfds : Finset ℕ) (listenfd : ℕ)
    (hn' : n' = { n with memory := n.memory.putWritebuf ctx buf }) :
    n'.WF ∧ n'.contexts.length = n.contexts.length ∧
      n'.watch readfds listenfd =
        (n.watch readfds listenfd).setPending (n.memory.ctx ctx).fd buf.len ∧
      (n'.memory.ctx ctx).fd = (n.memory.ctx ctx).fd := by
  subst hn'
  obtain ⟨block, i⟩ := ctx
  obtain rfl : block = n.socketctxs.items := hblock
  have hctx : n.memory.ctx ⟨n.socketctxs.items, i⟩ = n.contexts[i] := hn.array.ctx_live rfl hi
  obtain ⟨m₁, writebuf, hput, hctxs, hpos, hlen⟩ : ∃ (m₁ : Memory) (writebuf : BufferRef),
      n.memory.putWritebuf ⟨n.socketctxs.items, i⟩ buf = m₁.setCtx ⟨n.socketctxs.items, i⟩
        { n.memory.ctx ⟨n.socketctxs.items, i⟩ with writebuf := writebuf } ∧
      m₁.ctxs = n.memory.ctxs ∧ n.memory.pos ≤ m₁.pos ∧ writebuf.len = buf.len :=
    ⟨_, _, rfl, Memory.putBuffer_ctxs _ _ _, Memory.pos_le_putBuffer _ _ _,
      Memory.putBuffer_len _ _ _⟩
  rw [hctx] at hput
  obtain ⟨hwf, hlist⟩ := hn.update
    { n with memory := n.memory.putWritebuf ⟨n.socketctxs.items, i⟩ buf }
    hi (f := fun d => { d with writebuf := writebuf }) (fun d => rfl) hctxs hpos hput rfl rfl rfl
  have hctx' := (hwf.array.ctx_live (p := ⟨n.socketctxs.items, i⟩) rfl (by
    change i < (Net.contexts _).length
    rw [hlist, List.length_map]
    exact hi)).trans (List.getElem_of_eq hlist _)
  rw [List.getElem_map] at hctx'
  rw [hctx, hctx']
  refine ⟨hwf, by rw [hlist, List.length_map], ?_, ?_⟩
  · simp only [Net.watch, Watch.setPending, hlist, map_link_setWritebuf, hlen]
  · simp

/-- A context that is not closed for reading stays. -/
theorem closeIfDone_eq {n : Net} {ctx : CtxPtr} (h : (n.memory.ctx ctx).shutRd = false) :
    closeIfDone n ctx = .ok n := by
  simp [closeIfDone, h]

theorem clearWritefd_eq {n : Net} {fd : ℕ} (h : fd < fdSetSize) :
    n.clearWritefd fd = .ok { n with writefds := n.writefds.erase fd } := by
  simp [Net.clearWritefd, fdClr, h]

theorem Watch.setPending_setPending (w : Watch) (fd pending pending' : ℕ) :
    (w.setPending fd pending).setPending fd pending' = w.setPending fd pending' := by
  unfold Watch.setPending
  simp only [List.map_map]
  congr 1
  refine List.map_congr_left fun d _ => ?_
  by_cases hfd : d.fd = fd <;> simp [hfd]

/-- The sockets after the write branch: `n₁` after `NetSend2`, which left `rest` and returned
`ret`. -/
def Net.afterWrite (n₁ : Net) (fd : ℕ) (ctx : CtxPtr) (ret : ℤ) (rest : Buffer) : Net :=
  let n₂ := { n₁ with memory := n₁.memory.putWritebuf ctx rest }
  if ret = 0 then { n₂ with writefds := n₂.writefds.erase fd }
  else if ret = 1 then n₂
  else
    { n₂ with
      memory := n₂.memory.putWritebuf ctx (bufferClear rest)
      writefds := n₂.writefds.erase fd }

/-- Storing a `writebuf` does not close the context at the pointer. -/
theorem Memory.shutRd_putWritebuf {m : Memory} {ctx : CtxPtr} (buf : Buffer)
    (h : (m.ctx ctx).shutRd = false) : ((m.putWritebuf ctx buf).ctx ctx).shutRd = false := by
  obtain ⟨m₁, writebuf, hput, hctxs⟩ : ∃ (m₁ : Memory) (writebuf : BufferRef),
      m.putWritebuf ctx buf = m₁.setCtx ctx { m.ctx ctx with writebuf := writebuf } ∧
      m₁.ctxs = m.ctxs := ⟨_, _, rfl, m.putBuffer_ctxs _ _⟩
  rw [hput]
  by_cases hlt : ctx.index < (m₁.ctxs ctx.block).length
  · rw [Memory.ctx_setCtx_self hlt]
    exact h
  · simp only [Memory.ctx, Memory.setCtx, Function.update_self]
    rw [List.getD_eq_default _ _ (by simpa using hlt)]
    rfl

/-- The write branch finds a context that sends, and closes no connection. -/
theorem writeBranch_eq (ht : t.WF) (hi : t.i ∈ t.net.writefds) :
    ∃ (i : ℕ) (hlt : i < t.contexts.length) (n₁ : Net) (buf : Buffer),
      t.contexts[i].fd = t.i ∧ t.contexts[i].toaddr ≠ 0 ∧
      buf = t.net.memory.buffer t.contexts[i].writebuf ∧
      NetSent t.net n₁ t.i a.sends buf ∧
      writeBranch t a = .ok { t with
        net := (n₁.afterWrite t.i ⟨t.net.socketctxs.items, i⟩ (netSend a.sends buf).ret
          (netSend a.sends buf).buf) } := by
  have hfind : socketCtxFindByFd t.net.memory t.net.socketctxs t.i =
      .ok ((t.contexts.findIdx? fun c => c.fd = t.i).map fun i => ⟨t.net.socketctxs.items, i⟩) :=
    socketCtxFindByFd_eq _ _ _
  obtain ⟨l, hl, hlfd, hl0⟩ := ht.watch.writefds t.i hi
  obtain ⟨d, hd, rfl⟩ := List.mem_map.mp hl
  cases hidx : t.contexts.findIdx? fun c => c.fd = t.i with
  | none => exact absurd hlfd (lookup_eq_none_iff.mp (findIdx?_eq_none_iff_lookup.mp hidx) d hd)
  | some i =>
    obtain ⟨hlt, hvalid, hctx, hfd, hl₀⟩ := ht.found hidx
    have h0 : t.contexts[i].toaddr ≠ 0 := by
      have hsame := ht.watch.link_inj hl hl₀ (hlfd.trans hfd.symm)
      exact fun hzero => hl0 ((congrArg Link.toaddr hsame).trans hzero)
    have hsize : t.i < fdSetSize := hfd ▸ ht.watch.lt_size _ hl₀
    obtain ⟨buf, hbuf⟩ : ∃ buf, t.net.memory.buffer t.contexts[i].writebuf = buf := ⟨_, rfl⟩
    obtain ⟨n₁, hsend, hsent⟩ := netSend2_ok t.net hsize a.sends buf
    refine ⟨i, hlt, n₁, buf, hfd, h0, hbuf.symm, hsent, ?_⟩
    generalize hptr : (⟨t.net.socketctxs.items, i⟩ : CtxPtr) = ctx at hvalid hctx
    obtain ⟨n₂, hn₂⟩ : ∃ n₂ : Net, n₂ = { n₁ with
      memory := n₁.memory.putWritebuf ctx (netSend a.sends buf).buf } := ⟨_, rfl⟩
    have hshut₂ : (n₂.memory.ctx ctx).shutRd = false := by
      rw [hn₂]
      apply Memory.shutRd_putWritebuf
      rw [hsent.memory, hctx]
      exact ht.watch.shutRd _ hl₀
    obtain ⟨-, -, hret⟩ := netSend_spec a.sends buf
    rw [writeBranch, hfind, ok_bind, hidx]
    simp only [Option.map_some, hptr, hctx, hbuf, hfd, hsend, ok_bind, ← hn₂, Net.afterWrite]
    rcases hret with hret | hret | hret
    · have hnone : ¬ (0 : ℤ) = -1 := by decide
      simp only [hret, clearWritefd_eq hsize, if_true, if_neg hnone, ok_bind,
        closeIfDone_eq (n := { n₂ with writefds := n₂.writefds.erase t.i }) hshut₂]
      rw [hn₂]
    · have hnone : ¬ (1 : ℤ) = -1 := by decide
      simp only [hret, one_ne_zero, if_false, if_true, if_neg hnone, ok_bind,
        closeIfDone_eq hshut₂]
    · have hzero : ¬ (-1 : ℤ) = 0 := by decide
      have hone : ¬ (-1 : ℤ) = 1 := by decide
      have hgive : n₂.giveUp t.i ctx (netSend a.sends buf).buf = .ok { n₂ with
          memory := n₂.memory.putWritebuf ctx (bufferClear (netSend a.sends buf).buf)
          writefds := n₂.writefds.erase t.i } := by
        rw [Net.giveUp, clearWritefd_eq hsize]
        rfl
      have hclose : closeIfDone { n₂ with
          memory := n₂.memory.putWritebuf ctx (bufferClear (netSend a.sends buf).buf)
          writefds := n₂.writefds.erase t.i } ctx = .ok _ :=
        closeIfDone_eq (Memory.shutRd_putWritebuf _ hshut₂)
      simp only [hret, if_neg hzero, if_neg hone, if_true, ok_bind, hgive, hclose]
      rw [hn₂]

/-- A `writebuf` of `len` bytes has been stored at `ctx`, the pointer to the context visited. -/
structure Tracker.Stored (t : Tracker) (ctx : CtxPtr) (n : Net) (len : ℕ) : Prop where
  /-- The sockets are in order. -/
  wf : n.WF
  /-- The pointer is into the array. -/
  block : ctx.block = n.socketctxs.items
  /-- A context is there. -/
  index : ctx.index < n.contexts.length
  /-- Its descriptor is the one that is visited. -/
  fd : (n.memory.ctx ctx).fd = t.i
  /-- Of the links no other one has changed. -/
  watch : n.watch t.readfds t.listenfd =
    { t.watch.setPending t.i len with writefds := n.writefds, maxfd := n.maxfd }

section Stored

variable {n n' n₁ : Net} {ctx : CtxPtr} {len i : ℕ} {rs : List SendResult} {buf rest : Buffer}

/-- After `NetSend2` what is left is stored. -/
theorem Tracker.WF.stored (ht : t.WF) (hlt : i < t.contexts.length) (hfd : t.contexts[i].fd = t.i)
    (hsent : NetSent t.net n₁ t.i rs buf)
    (hn' : n' = { n₁ with
      memory := n₁.memory.putWritebuf ⟨t.net.socketctxs.items, i⟩ rest }) :
    t.Stored ⟨t.net.socketctxs.items, i⟩ n' rest.len ∧ n'.writefds = n₁.writefds ∧
      n'.maxfd = n₁.maxfd := by
  have hctx : t.net.memory.ctx ⟨t.net.socketctxs.items, i⟩ = t.contexts[i] :=
    ht.array.ctx_live rfl hlt
  have hopen : t.i ∈ t.net.fds :=
    hfd ▸ ht.watch.fds_open _ (List.mem_map_of_mem (List.getElem_mem hlt))
  have hctxs : n₁.contexts = t.contexts := by
    rw [Net.contexts, hsent.memory, hsent.socketctxs]
    rfl
  obtain ⟨hwf, hlen, hwatch, hfd'⟩ := putWritebuf_spec (hsent.wf ht.net hopen)
    (congrArg ArrayRef.items hsent.socketctxs.symm) (by rw [hctxs]; exact hlt) rest t.readfds
    t.listenfd hn'
  rw [hsent.memory, hctx, hfd] at hwatch hfd'
  have hwatch₁ : n₁.watch t.readfds t.listenfd =
      { t.watch with writefds := n₁.writefds, maxfd := n₁.maxfd } := by
    simp only [Net.watch, Tracker.watch, hctxs, hsent.fds, Tracker.contexts]
  rw [hwatch₁] at hwatch
  have hwrite : n'.writefds = n₁.writefds := by rw [hn']
  have hmax : n'.maxfd = n₁.maxfd := by rw [hn']
  refine ⟨⟨hwf, ?_, by rw [hlen, hctxs]; exact hlt, hfd', ?_⟩, hwrite, hmax⟩
  · rw [hn', hsent.socketctxs]
  · rw [hwatch, hwrite, hmax]
    rfl

/-- Another `writebuf` is stored. -/
theorem Tracker.Stored.put (h : t.Stored ctx n len) (buf : Buffer)
    (hn' : n' = { n with memory := n.memory.putWritebuf ctx buf }) : t.Stored ctx n' buf.len := by
  obtain ⟨hwf, hlen, hwatch, hfd⟩ := putWritebuf_spec h.wf h.block h.index buf t.readfds
    t.listenfd hn'
  have hwrite : n'.writefds = n.writefds := by rw [hn']
  have hmax : n'.maxfd = n.maxfd := by rw [hn']
  rw [h.fd, h.watch] at hwatch
  refine ⟨hwf, by rw [hn']; exact h.block, hlen ▸ h.index, hfd.trans h.fd, ?_⟩
  rw [hwatch, hwrite, hmax, ← t.watch.setPending_setPending t.i len buf.len]
  rfl

/-- A descriptor is no longer watched for writing. -/
theorem Tracker.Stored.erase (h : t.Stored ctx n len) (fd : ℕ) :
    t.Stored ctx { n with writefds := n.writefds.erase fd } len where
  wf := ⟨h.wf.array, h.wf.fds_nodup, h.wf.fds_open, h.wf.fd_lt,
    (Finset.erase_subset _ _).trans h.wf.writefds_open⟩
  block := h.block
  index := h.index
  fd := h.fd
  watch := congrArg (fun w => { w with writefds := n.writefds.erase fd }) h.watch

/-- A visit leaves the rest of the tracker alone. -/
theorem Tracker.Stored.branched (ht : t.WF) (h : t.Stored ctx n len)
    (hwrite : ∀ fd, fd ≠ t.i → fd ∈ t.net.writefds → fd ∈ n.writefds) :
    t.Branched { t with net := n } :=
  ⟨ht.peers, ht.addressed, h.wf.array, fun _ _ hfd => hfd, hwrite, rfl, rfl, rfl⟩

/-- No byte waits, and the descriptor is not watched any more. -/
theorem Tracker.Stored.drained (ht : t.WF) (h : t.Stored ctx n 0)
    (hwrite : n.writefds = t.net.writefds.erase t.i) (hmax : n.maxfd = t.net.maxfd) :
    t.Branched { t with net := n } ∧ Tracker.watch { t with net := n } = t.watch.drain t.i := by
  constructor
  · refine h.branched ht fun fd hne hfd => ?_
    rw [hwrite]
    exact Finset.mem_erase.mpr ⟨hne, hfd⟩
  · change n.watch t.readfds t.listenfd = _
    rw [h.watch, hwrite, hmax]
    rfl

/-- Bytes wait, and the descriptor is watched. -/
theorem Tracker.Stored.flushed (ht : t.WF) (h : t.Stored ctx n len)
    (hwrite : n.writefds = insert t.i t.net.writefds) (hmax : n.maxfd = max t.net.maxfd t.i) :
    t.Branched { t with net := n } ∧
      Tracker.watch { t with net := n } = t.watch.flush t.i len := by
  constructor
  · refine h.branched ht fun fd _ hfd => ?_
    rw [hwrite]
    exact Finset.mem_insert_of_mem hfd
  · change n.watch t.readfds t.listenfd = _
    rw [h.watch, hwrite, hmax]
    rfl

end Stored

/-- A context that sends goes on sending, or is not watched any more. -/
theorem writeBranch_ok (ht : t.WF) (hi : t.i ∈ t.net.writefds) :
    ∃ t' c, writeBranch t a = .ok t' ∧ t.Branched t' ∧ c ∈ t.contexts ∧ c.fd = t.i ∧
      c.toaddr ≠ 0 ∧
      if leavesRest a.sends c.writebuf.len then ∃ k > 0, t'.watch = t.watch.flush t.i k
      else t'.watch = t.watch.drain t.i := by
  obtain ⟨i, hlt, n₁, buf, hfd, h0, hbuf, hsent, hrun⟩ := writeBranch_eq (a := a) ht hi
  obtain ⟨n₂, hn₂⟩ : ∃ n₂ : Net, n₂ = { n₁ with
    memory := n₁.memory.putWritebuf ⟨t.net.socketctxs.items, i⟩ (netSend a.sends buf).buf } :=
    ⟨_, rfl⟩
  obtain ⟨hstored, hwrite₂, hmax₂⟩ := ht.stored hlt hfd hsent hn₂
  rw [hsent.writefds] at hwrite₂
  rw [hsent.maxfd] at hmax₂
  obtain ⟨-, hzero, hret⟩ := netSend_spec a.sends buf
  have hone := netSend_eq_one_iff a.sends buf
  have hlen : buf.len = t.contexts[i].writebuf.len := by
    rw [hbuf]
    rfl
  rw [hlen] at hone
  have hdrained : ∀ n ctx, t.Stored ctx n 0 → n.writefds = t.net.writefds.erase t.i →
      n.maxfd = t.net.maxfd → (netSend a.sends buf).ret ≠ 1 →
      writeBranch t a = .ok { t with net := n } →
      ∃ t' c, writeBranch t a = .ok t' ∧ t.Branched t' ∧ c ∈ t.contexts ∧ c.fd = t.i ∧
        c.toaddr ≠ 0 ∧
        if leavesRest a.sends c.writebuf.len then ∃ k > 0, t'.watch = t.watch.flush t.i k
        else t'.watch = t.watch.drain t.i := by
    intro n ctx h hwrite hmax hne hrun
    obtain ⟨hbranched, hwatch⟩ := h.drained ht hwrite hmax
    refine ⟨_, t.contexts[i], hrun, hbranched, List.getElem_mem hlt, hfd, h0, ?_⟩
    rw [if_neg fun hrest => hne (hone.mpr hrest)]
    exact hwatch
  rw [Net.afterWrite, ← hn₂] at hrun
  rcases hret with hret | hret | hret
  · -- all bytes are sent
    have hne : (netSend a.sends buf).ret ≠ 1 := by rw [hret]; decide
    rw [if_pos hret] at hwrite₂ hrun
    rw [if_neg hne] at hmax₂
    rw [hzero.mp hret] at hstored
    refine hdrained _ _ (hstored.erase t.i) ?_ hmax₂ hne hrun
    change n₂.writefds.erase t.i = _
    rw [hwrite₂, Finset.erase_idem]
  · -- the socket takes no more
    have hne : (netSend a.sends buf).ret ≠ 0 := by rw [hret]; decide
    rw [if_neg hne, if_pos hret] at hwrite₂ hrun
    rw [if_pos hret] at hmax₂
    obtain ⟨hbranched, hwatch⟩ := hstored.flushed ht hwrite₂ hmax₂
    refine ⟨_, t.contexts[i], hrun, hbranched, List.getElem_mem hlt, hfd, h0, ?_⟩
    rw [if_pos (hone.mp hret)]
    exact ⟨_, Nat.pos_of_ne_zero fun hnil => hne (hzero.mpr hnil), hwatch⟩
  · -- an error
    have hne₀ : (netSend a.sends buf).ret ≠ 0 := by rw [hret]; decide
    have hne : (netSend a.sends buf).ret ≠ 1 := by rw [hret]; decide
    rw [if_neg hne₀, if_neg hne] at hwrite₂ hrun
    rw [if_neg hne] at hmax₂
    have hcleared := (hstored.erase t.i).put (bufferClear (netSend a.sends buf).buf) rfl
    exact hdrained _ _ hcleared (congrArg (Finset.erase · t.i) hwrite₂) hmax₂ hne hrun

/-- A visit that sends nothing. -/
theorem trackerVisit_of_notMem (ht : t.WF) (hi : t.i ∉ t.tmpWritefds)
    (h : trackerVisit t a = .ok t') :
    t'.WF ∧ Relation.ReflTransGen WatchStep t.watch t'.watch := by
  obtain ⟨t₁, goOn, hbranched, hsteps, h⟩ : ∃ t₁ goOn, t.Branched t₁ ∧
      Relation.ReflTransGen WatchStep t.watch t₁.watch ∧
      (if goOn = true ∧ t₁.i ∈ t₁.tmpWritefds then do
        let t ← writeBranch t₁ a
        .ok { t with i := t.i + 1 }
      else .ok { t₁ with i := t₁.i + 1 }) = Except.ok t' := by
    unfold trackerVisit at h
    split at h
    case isTrue hmem =>
      split at h
      case isTrue =>
        obtain ⟨⟨t₁, goOn⟩, hbranch, h⟩ := bind_eq_ok.mp h
        obtain ⟨hbranched, hsteps⟩ := acceptBranch_ok ht hbranch
        exact ⟨t₁, goOn, hbranched, hsteps, h⟩
      case isFalse hne =>
        obtain ⟨⟨t₁, goOn⟩, hbranch, h⟩ := bind_eq_ok.mp h
        obtain ⟨hbranched, hsteps⟩ := readBranch_ok ht ((ht.scan t.i le_rfl).1 hmem) hne hbranch
        exact ⟨t₁, goOn, hbranched, hsteps, h⟩
    case isFalse => exact ⟨t, true, ht.branched, .refl, h⟩
  rw [if_neg fun hmem => hi ?_] at h
  · obtain rfl := Except.ok.inj h
    exact ⟨hbranched.next ht (ht.watch.steps hsteps), hsteps⟩
  · rw [hbranched.i, hbranched.tmpWritefds] at hmem
    exact hmem.2

/-- A visit that sends; no descriptor is watched for reading as well. -/
theorem trackerVisit_of_mem (ht : t.WF) (hi : t.i ∈ t.tmpWritefds) :
    ∃ t' c, trackerVisit t a = .ok t' ∧ t'.WF ∧ c ∈ t.contexts ∧ c.fd = t.i ∧ c.toaddr ≠ 0 ∧
      if leavesRest a.sends c.writebuf.len then
        Relation.ReflTransGen WatchStep t.watch t'.watch
      else t'.watch = t.watch.drain t.i := by
  have hwrite := (ht.scan t.i le_rfl).2 hi
  obtain ⟨t₁, c, hrun, hbranched, hc, hfd, h0, hcase⟩ := writeBranch_ok (a := a) ht hwrite
  have hl : c.link ∈ t.watch.links := List.mem_map_of_mem hc
  have hread : t.i ∉ t.tmpReadfds := fun hmem =>
    ht.watch.notMem_readfds hwrite ((ht.scan t.i le_rfl).1 hmem)
  have hvisit : trackerVisit t a = .ok { t₁ with i := t₁.i + 1 } := by
    simp only [trackerVisit, if_neg hread, ok_bind, hi, and_self, if_true, hrun]
  refine ⟨_, c, hvisit, ?_, hc, hfd, h0, ?_⟩
  · refine hbranched.next ht ?_
    split at hcase
    · obtain ⟨k, hk, hwatch⟩ := hcase
      rw [hwatch, ← hfd]
      exact ht.watch.step (.flush hl h0 hk)
    · rw [hcase, ← hfd]
      exact ht.watch.drain hl h0
  · change if _ then Relation.ReflTransGen WatchStep t.watch t₁.watch else t₁.watch = _
    split at hcase
    case isTrue hrest =>
      obtain ⟨k, hk, hwatch⟩ := hcase
      rw [if_pos hrest, hwatch, ← hfd]
      exact .single (.flush hl h0 hk)
    case isFalse hrest => rwa [if_neg hrest]

/-- `select()` keeps the tracker in order. -/
theorem trackerSelect_wf (ht : t.WF) (a : Answers) : (trackerSelect t a).WF :=
  ⟨ht.peers, ht.addressed, ht.array, ht.watch, fun _ _ =>
    ⟨fun hmem => (Finset.mem_inter.mp hmem).1, fun hmem => (Finset.mem_inter.mp hmem).1⟩⟩

/-- Every step of the loop keeps the tracker in order. -/
theorem loopStep_wf (ht : t.WF) (h : loopStep t a = .ok t') : t'.WF := by
  unfold loopStep at h
  split at h
  · by_cases hi : t.i ∈ t.tmpWritefds
    · obtain ⟨t₁, -, hvisit, hwf, -⟩ := trackerVisit_of_mem (a := a) ht hi
      obtain rfl := Except.ok.inj (hvisit.symm.trans h)
      exact hwf
    · exact (trackerVisit_of_notMem ht hi h).1
  · exact Except.ok.inj h ▸ trackerSelect_wf ht a

/-- The tracker is in order when the loop starts. -/
theorem trackerInit_wf (listenfd : Fin fdSetSize) (fds : Finset ℕ) :
    (trackerInit listenfd fds).WF := by
  have hnone : (trackerInit listenfd fds).watch.links = [] := rfl
  have hlinks : ∀ P : Link → Prop, ∀ c ∈ (trackerInit listenfd fds).watch.links, P c :=
    fun P c hc => absurd (hnone ▸ hc) List.not_mem_nil
  refine ⟨peersInit_wf, fun q hq => absurd hq List.not_mem_nil, (netInit_wf listenfd fds).array,
    ⟨List.nodup_nil, hlinks _, hlinks _, hlinks _, Finset.mem_insert_self _ _, hlinks _, hlinks _,
      hlinks _, fun fd hfd => Or.inl (Finset.mem_singleton.mp hfd),
      fun fd hfd => absurd hfd (Finset.notMem_empty fd), hlinks _⟩,
    fun fd _ => ⟨fun hmem => absurd hmem (Finset.notMem_empty fd),
      fun hmem => absurd hmem (Finset.notMem_empty fd)⟩⟩

/-! ## Whole runs -/

/-- `select()` watches every context, and for writing when bytes wait in its `writebuf` or messages
for its address would be appended to it. -/
def Tracker.AllWatched (t : Tracker) : Prop :=
  ∀ c ∈ t.contexts, c.fd ≤ t.net.maxfd ∧ (c.fd ∈ t.readfds ∨ c.fd ∈ t.net.writefds) ∧
    (0 < c.writebuf.len → c.fd ∈ t.net.writefds) ∧ (c.toaddr ≠ 0 → c.fd ∈ t.net.writefds)

/-- The next step sends only when it leaves bytes behind for later, if it sends at all. -/
def Tracker.KeepsPending (t : Tracker) (a : Answers) : Prop :=
  t.i ≤ t.net.maxfd → t.i ∈ t.tmpWritefds → ∀ c ∈ t.contexts, c.fd = t.i →
    leavesRest a.sends c.writebuf.len = true

/-- The contexts that send are the ones that could be abandoned. -/
theorem Tracker.WF.allWatched_iff (ht : t.WF) : t.AllWatched ↔ t.watch.SendersWatched := by
  have hlink : ∀ c ∈ t.contexts, c.link ∈ t.watch.links := fun c hc => List.mem_map_of_mem hc
  constructor
  · intro h l hl
    obtain ⟨c, hc, rfl⟩ := List.mem_map.mp hl
    exact (h c hc).2.2.2
  · intro h c hc
    refine ⟨ht.watch.le_maxfd _ (hlink c hc), ?_⟩
    by_cases h0 : c.toaddr = 0
    · obtain ⟨hread, hpending, -⟩ := ht.watch.incoming _ (hlink c hc) h0
      exact ⟨Or.inl hread, fun hpos => absurd hpending hpos.ne', fun hne => absurd h0 hne⟩
    · have hwrite := h _ (hlink c hc) h0
      exact ⟨Or.inr hwrite, fun _ => hwrite, fun _ => hwrite⟩

/-- A step that keeps bytes waiting abandons no context. -/
theorem loopStep_allWatched (ht : t.WF) (hall : t.AllWatched) (hkeep : t.KeepsPending a)
    (h : loopStep t a = .ok t') : t'.AllWatched := by
  have ht' := loopStep_wf ht h
  rw [ht.allWatched_iff] at hall
  rw [ht'.allWatched_iff]
  suffices hsteps : Relation.ReflTransGen WatchStep t.watch t'.watch by
    clear h ht'
    generalize t'.watch = w at hsteps
    induction hsteps with
    | refl => exact hall
    | tail _ hstep ih => exact ih.step hstep
  unfold loopStep at h
  split at h
  case isTrue hlt =>
    by_cases hi : t.i ∈ t.tmpWritefds
    · obtain ⟨t₁, c, hvisit, -, hc, hfd, -, hcase⟩ := trackerVisit_of_mem (a := a) ht hi
      obtain rfl := Except.ok.inj (hvisit.symm.trans h)
      rwa [if_pos (hkeep hlt hi c hc hfd)] at hcase
    · exact (trackerVisit_of_notMem ht hi h).2
  case isFalse => exact Except.ok.inj h ▸ .refl

/-- A step that sends the last bytes of a context, or gives them up, abandons it. -/
theorem loopStep_abandons (ht : t.WF) (hkeep : ¬ t.KeepsPending a) :
    ∃ t', loopStep t a = .ok t' ∧ ¬ t'.AllWatched := by
  obtain ⟨hlt, hi, c, hc, hfd, hrest⟩ : t.i ≤ t.net.maxfd ∧ t.i ∈ t.tmpWritefds ∧
      ∃ c ∈ t.contexts, c.fd = t.i ∧ ¬ leavesRest a.sends c.writebuf.len = true := by
    simpa only [Tracker.KeepsPending, not_forall, exists_prop] using hkeep
  obtain ⟨t', d, hvisit, ht', hd, hdfd, h0, hcase⟩ := trackerVisit_of_mem (a := a) ht hi
  have hl : d.link ∈ t.watch.links := List.mem_map_of_mem hd
  obtain rfl : c = d := List.inj_on_of_nodup_map ht.net.fds_nodup hc hd (hfd.trans hdfd.symm)
  rw [if_neg hrest, ← hfd] at hcase
  refine ⟨t', by rw [loopStep, if_pos hlt, hvisit], fun hall => ?_⟩
  obtain ⟨⟨l, hl', hlfd⟩, hread, hwrite⟩ := ht.watch.not_watched_drain hl h0
  have hfd' : c.link.fd = c.fd := rfl
  rw [hfd', ← hcase] at hl' hread hwrite
  obtain ⟨e, he, rfl⟩ := List.mem_map.mp hl'
  have hefd : e.fd = c.fd := hlfd
  obtain ⟨-, hwatched, -⟩ := hall e he
  rw [hefd] at hwatched
  exact hwatched.elim hread hwrite

/-- No context is abandoned in a run exactly when every send to a socket that takes bytes again
leaves some of them behind. -/
theorem all_watched_iff (listenfd : Fin fdSetSize) (fds : Finset ℕ) (es : List Answers) :
    (∀ fs t, fs <+: es → run loopStep (trackerInit listenfd fds) fs = .ok t → t.AllWatched) ↔
      ∀ fs a t, fs ++ [a] <+: es → run loopStep (trackerInit listenfd fds) fs = .ok t →
        t.KeepsPending a := by
  have hinit := trackerInit_wf listenfd fds
  refine run_forall_iff (I := Tracker.WF) hinit (fun c hc => absurd hc List.not_mem_nil)
    (fun t a t' ht h => loopStep_wf ht h) (fun t a t' ht hall hkeep h => ?_)
    (fun t a ht hkeep => loopStep_abandons ht hkeep) es
  exact loopStep_allWatched ht hall hkeep h

/-! ## The tables of descriptors -/

/-- The contexts, the descriptor sets and the open descriptors agree, and the scan of the
descriptors finds a context for each that `select()` reported. -/
structure Tracker.TablesAgree (t : Tracker) : Prop where
  /-- No two contexts have the same descriptor. -/
  fds_nodup : (t.contexts.map SocketCtx.fd).Nodup
  /-- The descriptors of the contexts are open. -/
  fds_open : ∀ c ∈ t.contexts, c.fd ∈ t.net.fds
  /-- What is watched for reading is `listenfd`, or belongs to exactly one context. -/
  readfds : ∀ fd ∈ t.readfds, fd ≠ t.listenfd → t.contexts.countP (fun c => c.fd = fd) = 1
  /-- What is watched for writing belongs to exactly one context. -/
  writefds : ∀ fd ∈ t.net.writefds, t.contexts.countP (fun c => c.fd = fd) = 1
  /-- An address has at most one context. -/
  toaddr : ∀ toaddr : HostAddr, toaddr ≠ 0 → t.contexts.countP (fun c => c.toaddr = toaddr) ≤ 1
  /-- The read branch finds a context. -/
  read : t.i ∈ t.tmpReadfds → t.i ≠ t.listenfd →
    ∃ ctx, socketCtxFindByFd t.net.memory t.net.socketctxs t.i = .ok (some ctx)
  /-- The write branch comes after no other, and finds a context. -/
  write : t.i ∈ t.tmpWritefds → t.i ∉ t.tmpReadfds ∧
    ∃ ctx, socketCtxFindByFd t.net.memory t.net.socketctxs t.i = .ok (some ctx)

/-- A descriptor that belongs to a context is found. -/
theorem Tracker.socketCtxFindByFd_some {l : Link} (hl : l ∈ t.watch.links) (hfd : l.fd = t.i) :
    ∃ ctx, socketCtxFindByFd t.net.memory t.net.socketctxs t.i = .ok (some ctx) := by
  obtain ⟨c, hc, rfl⟩ := List.mem_map.mp hl
  rw [socketCtxFindByFd_eq]
  cases hidx : (t.net.memory.list t.net.socketctxs).findIdx? fun c => c.fd = t.i with
  | none => exact absurd hfd (lookup_eq_none_iff.mp (findIdx?_eq_none_iff_lookup.mp hidx) c hc)
  | some i => exact ⟨_, rfl⟩

/-- The tables agree whenever the tracker is in order. -/
theorem Tracker.WF.tablesAgree (ht : t.WF) : t.TablesAgree := by
  have hnodup := ht.net.fds_nodup
  have hone : ∀ l ∈ t.watch.links, t.contexts.countP (fun c => c.fd = l.fd) = 1 := fun l hl => by
    obtain ⟨c, hc, rfl⟩ := List.mem_map.mp hl
    exact countP_key_eq_one hnodup hc
  refine ⟨hnodup, ht.net.fds_open, fun fd hfd hne => ?_, fun fd hfd => ?_, fun toaddr h0 => ?_,
    fun hmem hne => ?_, fun hmem => ⟨fun hread => ?_, ?_⟩⟩
  · obtain ⟨l, hl, rfl, -⟩ := (ht.watch.readfds fd hfd).resolve_left hne
    exact hone l hl
  · obtain ⟨l, hl, rfl, -⟩ := ht.watch.writefds fd hfd
    exact hone l hl
  · refine countP_le_one hnodup fun c hc d hd hcto hdto => ?_
    have hcto' : c.toaddr = toaddr := of_decide_eq_true hcto
    have hdto' : d.toaddr = toaddr := of_decide_eq_true hdto
    exact ht.watch.toaddr_inj _ (List.mem_map_of_mem hc) _ (List.mem_map_of_mem hd)
      (hcto'.trans hdto'.symm) (fun hzero => h0 (hcto'.symm.trans hzero))
  · have hread := (ht.scan t.i le_rfl).1 hmem
    obtain ⟨l, hl, hfd, -⟩ := (ht.watch.readfds t.i hread).resolve_left hne
    exact Tracker.socketCtxFindByFd_some hl hfd
  · have hwrite := (ht.scan t.i le_rfl).2 hmem
    exact ht.watch.notMem_readfds hwrite ((ht.scan t.i le_rfl).1 hread)
  · obtain ⟨l, hl, hfd, -⟩ := ht.watch.writefds t.i ((ht.scan t.i le_rfl).2 hmem)
    exact Tracker.socketCtxFindByFd_some hl hfd

/-- The tables agree in every state that the loop reaches. -/
theorem tables_agree (listenfd : Fin fdSetSize) (fds : Finset ℕ) (es : List Answers)
    (hrun : run loopStep (trackerInit listenfd fds) es = .ok t) : t.TablesAgree :=
  Tracker.WF.tablesAgree (run_invariant (fun _ _ _ ht h => loopStep_wf ht h)
    (trackerInit_wf listenfd fds) hrun)

end Step

/-- The system calls of a step that does nothing. -/
def quietAnswers : Answers := ⟨∅, ∅, .failed, [], [], []⟩

/-- A peer that listens at port 1234 knocks. -/
def knockFrame : List UInt8 := [0, 9, 3, 0, 1, 97, 0, 1, 104, 4, 210]

/-- A peer connects. -/
def connectingRun : List Answers :=
  [{ quietAnswers with readable := {3} }, quietAnswers, quietAnswers, quietAnswers,
    { quietAnswers with accept := .ipv4 4 ⟨1000, 0x0100007F⟩ }, quietAnswers]

/-- The peer knocks twice, and the second time the tracker announces it to itself; of these
messages it can send one byte at once, and the others when the socket takes bytes again.  Then the
peer knocks once more. -/
def abandoningRun : List Answers := connectingRun ++
  [{ quietAnswers with readable := {4} }, quietAnswers, quietAnswers, quietAnswers, quietAnswers,
    { quietAnswers with
      recvs := [.data ⟨knockFrame ++ knockFrame, by decide, by decide⟩]
      msgs := [default, ⟨fun _ => 0, 0, [⟨some 5, true, [.sent 1]⟩]⟩] }, quietAnswers,
    { quietAnswers with writable := {5} }, quietAnswers, quietAnswers, quietAnswers, quietAnswers,
    quietAnswers, { quietAnswers with sends := [.sent 1000] },
    { quietAnswers with readable := {4} }, quietAnswers, quietAnswers, quietAnswers, quietAnswers,
    { quietAnswers with recvs := [.data ⟨knockFrame, by decide, by decide⟩] }]

/-- The tables agree when the rest of the announcement is waiting to be sent. -/
theorem tables_agree_announcing : ∃ t, run loopStep (trackerInit ⟨3, by decide⟩ {0, 1, 2})
    (abandoningRun.take 12) = .ok t ∧
      (t.contexts.map fun c => (c.fd, c.toaddr)) = [(4, 0), (5, 230914638479487)] ∧
      t.net.writefds = {5} ∧ t.TablesAgree := by
  have hview : (run loopStep (trackerInit ⟨3, by decide⟩ {0, 1, 2})
      (abandoningRun.take 12)).toOption.map
        (fun t => (t.contexts.map fun c => (c.fd, c.toaddr), t.net.writefds)) =
      some ([(4, 0), (5, 230914638479487)], {5}) := by decide +kernel
  obtain ⟨t, ht, hview⟩ := Option.map_eq_some_iff.mp hview
  obtain ⟨hctxs, hwrite⟩ := Prod.mk.inj hview
  exact ⟨t, toOption_eq_some.mp ht, hctxs, hwrite, tables_agree _ _ _ (toOption_eq_some.mp ht)⟩

/-- The messages of the last step wait at a descriptor that is not watched. -/
theorem abandoned_context : ∃ t, run loopStep (trackerInit ⟨3, by decide⟩ {0, 1, 2})
    abandoningRun = .ok t ∧ ∃ c ∈ t.contexts, c.fd = 5 ∧ c.writebuf.len = 50 ∧
      5 ∉ t.readfds ∧ 5 ∉ t.net.writefds := by
  have hview : (run loopStep (trackerInit ⟨3, by decide⟩ {0, 1, 2}) abandoningRun).toOption.map
      (fun t => (t.contexts.map fun c => (c.fd, c.writebuf.len), t.readfds, t.net.writefds)) =
      some ([(4, 0), (5, 50)], {3, 4}, ∅) := by decide +kernel
  obtain ⟨t, ht, hview⟩ := Option.map_eq_some_iff.mp hview
  obtain ⟨hctxs, hsets⟩ := Prod.mk.inj hview
  obtain ⟨hread, hwrite⟩ := Prod.mk.inj hsets
  have hmem : (5, 50) ∈ t.contexts.map fun c => (c.fd, c.writebuf.len) := by
    rw [hctxs]
    decide
  obtain ⟨c, hc, hpair⟩ := List.mem_map.mp hmem
  obtain ⟨hfd, hlen⟩ := Prod.mk.inj hpair
  refine ⟨t, toOption_eq_some.mp ht, c, hc, hfd, hlen, ?_, ?_⟩
  · rw [hread]
    decide
  · rw [hwrite]
    decide

end TinyMsg
