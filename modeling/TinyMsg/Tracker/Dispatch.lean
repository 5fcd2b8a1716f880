import TinyMsg.Tracker.Streams

/-!
# The frames that the tracker dispatches

While a descriptor is visited the pointer `socketctx` is used throughout, and the loop over the
received bytes is the one of the client (`frameLoop`) at that pointer, whatever `handle_msg` does in
between: a call shows in no `readbuf`.  So a visit dispatches what the reference reader finds.

When a call opens a connection and the array of contexts is full, the array moves, and from then on
the pointer leads to a copy that the next visit does not find.  `openFrames` follows which addresses
get contexts in a visit, without the arena.  As long as they fit the array (`Tracker.RoomToOpen`),
or the visit ends the connection, what is left to dispatch is found again by the next visit, and
every frame received is dispatched once (`dispatched_once`).
-/

namespace TinyMsg

/-! ## What a visit finds in a context -/

/-- The bytes received for a context and not dispatched, the prefix taken off included. -/
def Memory.pending (m : Memory) (c : SocketCtx) : List UInt8 :=
  (if c.msglen = 0 then [] else bigEndian 2 c.msglen) ++ (m.buffer c.readbuf).contents

/-- The frames received were dispatched, each of them once and in order, and nothing else was. -/
def Line.ExactlyOnce (l : Line) : Prop :=
  l.dispatched = (parse 2 l.received).bodies.map withLength

/-- A context has received what a connection has. -/
structure Memory.Reads (m : Memory) (c : SocketCtx) (conn : Conn) : Prop where
  /-- The bytes received and not yet used. -/
  readbuf : m.buffer c.readbuf = conn.readbuf
  /-- The length of the body being received. -/
  msglen : c.msglen = conn.msglen

/-- The contexts of `n'` for other accepted connections have received what contexts of `n` have. -/
def Net.KeepsReads (n n' : Net) (fd : ℕ) : Prop :=
  ∀ d' ∈ n'.contexts, d'.toaddr = 0 → d'.fd ≠ fd → ∃ d ∈ n.contexts, d.toaddr = 0 ∧ d.fd = d'.fd ∧
    ∀ conn, n.memory.Reads d conn → n'.memory.Reads d' conn

/-- Contexts have been added, and the array stays where it is when they fit. -/
structure Net.Grows (n n' : Net) : Prop where
  /-- No context has been removed. -/
  len_le : n.socketctxs.len ≤ n'.socketctxs.len
  /-- The array has not moved. -/
  fits : n'.socketctxs.len ≤ n.socketctxs.cap →
    n'.socketctxs.cap = n.socketctxs.cap ∧ n'.socketctxs.items = n.socketctxs.items

/-- What a part of a visit to `fd`, with what is seen of it, does beside it. -/
structure Net.Beside (n n' : Net) (fd : ℕ) (evs : List LoopEvent) : Prop where
  /-- The other connections have received the same. -/
  keepsReads : n.KeepsReads n' fd
  /-- The array grows. -/
  grows : n.Grows n'
  /-- On the other descriptors nothing happens. -/
  lines : ∀ fd', fd' ≠ fd → ∀ l, evs.foldl (Line.step fd') l = l

theorem Memory.Reads.pending {m : Memory} {c : SocketCtx} {conn : Conn} (h : m.Reads c conn) :
    m.pending c = conn.pending := by
  rw [Memory.pending, h.readbuf, h.msglen, Conn.pending]

/-- The buffer in a block. -/
theorem Memory.buffer_eq {m : Memory} {r : BufferRef} {buf : Buffer} (hbs : m.bytes r.bs = buf.bs)
    (hlen : r.len = buf.len) (hcap : r.cap = buf.cap) : m.buffer r = buf := by
  obtain ⟨bs, len, cap, _, _, hlength⟩ := buf
  simp only [Memory.buffer, Buffer.mk.injEq]
  refine ⟨?_, hlen, hcap⟩
  rw [hbs, hcap, List.takeD_eq_take _ hlength.ge, List.take_of_length_le hlength.le]

/-- The first of two new buffers is empty. -/
theorem Memory.buffer_bufferNew_self {m m' : Memory} {nr nw : ℕ}
    (hbytes : m'.bytes = ((m.bufferNew nr).1.bufferNew nw).1.bytes) :
    m'.buffer (m.bufferNew nr).2 = TinyMsg.bufferNew nr := by
  have hlt : (m.bufferNew nr).2.bs < (m.bufferNew nr).1.pos :=
    Nat.lt_add_of_pos_right (TinyMsg.bufferNew nr).cap_pos
  refine Memory.buffer_eq ?_ rfl rfl
  rw [hbytes]
  exact (Function.update_of_ne hlt.ne _ _).trans (Function.update_self _ _ _)

section Relations

variable {n n' n'' : Net} {fd : ℕ} {evs evs' : List LoopEvent}

theorem Net.KeepsReads.refl (n : Net) (fd : ℕ) : n.KeepsReads n fd := fun d hd h0 _ =>
  ⟨d, hd, h0, rfl, fun _ h => h⟩

theorem Net.KeepsReads.trans (h : n.KeepsReads n' fd) (h' : n'.KeepsReads n'' fd) :
    n.KeepsReads n'' fd := by
  intro d'' hd'' h0'' hne''
  obtain ⟨d', hd', h0', hfd', hreads'⟩ := h' d'' hd'' h0'' hne''
  obtain ⟨d, hd, h0, hfd, hreads⟩ := h d' hd' h0' (hfd' ▸ hne'')
  exact ⟨d, hd, h0, hfd.trans hfd', fun conn hconn => hreads' conn (hreads conn hconn)⟩

/-- Closing a connection does not show in the others. -/
theorem Net.Closed.keepsReads {fd' : ℕ} (h : n.Closed n' fd') (fd : ℕ) : n.KeepsReads n' fd := by
  intro d hd h0 _
  have hmem : d ∈ n.contexts := List.mem_of_mem_filter (h.contexts ▸ hd)
  rcases h.buffers with hnil | ⟨hbytes, -⟩
  · exact absurd (hnil ▸ hd) List.not_mem_nil
  · refine ⟨d, hmem, h0, rfl, fun conn hconn => ⟨?_, hconn.msglen⟩⟩
    exact (Memory.buffer_congr (congrFun hbytes _)).trans hconn.readbuf

theorem Net.Grows.of_eq (h : n'.socketctxs = n.socketctxs) : n.Grows n' := by
  refine ⟨by rw [h], fun _ => ?_⟩
  rw [h]
  exact ⟨rfl, rfl⟩

theorem Net.Grows.trans (h : n.Grows n') (h' : n'.Grows n'') : n.Grows n'' := by
  refine ⟨h.len_le.trans h'.len_le, fun hle => ?_⟩
  obtain ⟨hcap, hitems⟩ := h.fits (h'.len_le.trans hle)
  obtain ⟨hcap', hitems'⟩ := h'.fits (hcap ▸ hle)
  exact ⟨hcap'.trans hcap, hitems'.trans hitems⟩

theorem Net.Beside.trans (h : n.Beside n' fd evs) (h' : n'.Beside n'' fd evs') :
    n.Beside n'' fd (evs ++ evs') := by
  refine ⟨h.keepsReads.trans h'.keepsReads, h.grows.trans h'.grows, fun fd' hne l => ?_⟩
  rw [List.foldl_append, h.lines fd' hne, h'.lines fd' hne]

theorem Net.beside_nil (hreads : n.KeepsReads n' fd) (hgrows : n.Grows n') : n.Beside n' fd [] :=
  ⟨hreads, hgrows, fun _ _ _ => rfl⟩

/-- What is seen of `fd` happens on no other descriptor. -/
theorem Net.Beside.cons (h : n.Beside n' fd evs) {ev : LoopEvent}
    (hev : ∀ fd', fd' ≠ fd → ∀ l, Line.step fd' l ev = l) : n.Beside n' fd (ev :: evs) := by
  refine ⟨h.keepsReads, h.grows, fun fd' hne l => ?_⟩
  rw [List.foldl_cons, hev fd' hne, h.lines fd' hne]

end Relations

/-! ## The contexts that a visit opens -/

/-- What a call of `send_msg_to_hostaddr` does to the addresses that have contexts, and to the
system calls that are left. -/
def openSend (s : List HostAddr × List ConnectCall) (send : Send) :
    List HostAddr × List ConnectCall :=
  if send.toaddr ∈ s.1 then s
  else
    (if s.2.head?.any fun call => call.leaves send.msg.handed.length then s.1 ++ [send.toaddr]
      else s.1, s.2.tail)

/-- What the frames in a `readbuf` do to the addresses that have contexts. -/
def openFrames (fromaddr : HostAddr) :
    ℕ → Buffer → ℕ → List MsgEnv → Peers → List HostAddr → List HostAddr
  | 0, _, _, _, _, addrs => addrs
  | fuel + 1, readbuf, msglen, envs, p, addrs =>
    if msglen = 0 then
      if 2 ≤ readbuf.len then
        if prefixLen readbuf = 0 then addrs
        else
          openFrames fromaddr fuel (bufferShift readbuf 2) (prefixLen readbuf) envs p addrs
      else addrs
    else if msglen ≤ readbuf.len then
      let env := envs.headD default
      match handleReceived (fun s send => .ok (openSend s send)) p (addrs, env.calls) fromaddr
        (msgMemory readbuf env.behind) msglen env.listenport with
      | .ok (p, addrs, _) =>
        openFrames fromaddr fuel (bufferShift readbuf msglen) 0 envs.tail p addrs
      | .error _ => addrs
    else addrs

section Opens

variable {n n' : Net} {l : List SocketCtx} {calls calls' : List ConnectCall} {send : Send}
  {out : Handover}

/-- The addresses of the contexts. -/
def Net.addrs (n : Net) : List HostAddr := n.contexts.map SocketCtx.toaddr

theorem Net.length_addrs (n : Net) : n.addrs.length = n.socketctxs.len := by
  rw [Net.addrs, List.length_map]
  exact n.memory.length_list n.socketctxs

/-- A call of `send_msg_to_hostaddr` opens what `openSend` says. -/
theorem Net.SentBy.opens (hn : n.WF) (hl : n.Around l)
    (h : n.SentBy calls send.msg.handed send.toaddr n' calls' out) :
    openSend (n.addrs, calls) send = (n'.addrs, calls') := by
  have hfresh' : (∀ d ∈ n.contexts, d.toaddr ≠ send.toaddr) → send.toaddr ∉ n.addrs := by
    intro hfresh hmem
    obtain ⟨d, hd, hto⟩ := List.mem_map.mp hmem
    exact hfresh d hd hto
  cases h with
  | @queued i hi haddr =>
    obtain ⟨c, -, hto, -, hlist⟩ := hn.queued_stored hi send.msg.handed
    have hmem : send.toaddr ∈ n.addrs := haddr ▸ List.mem_map_of_mem (List.getElem_mem hi)
    have hcontexts : Net.contexts
        { n with memory := n.memory.appendWritebuf ⟨n.socketctxs.items, i⟩ send.msg.handed } =
          n.contexts.set i c := hlist
    rw [openSend, if_pos hmem, Net.addrs, Net.addrs, hcontexts, List.map_set, hto]
    congr 1
    have hlt : i < (n.contexts.map SocketCtx.toaddr).length := by simpa using hi
    have hsame := List.set_getElem_self hlt
    rw [List.getElem_map] at hsame
    exact hsame.symm
  | opened hfresh hcalls hleaves hnew _ hmemory hctxs _ hlater =>
    obtain ⟨c, -, hcto, -, hc⟩ := hl.later hn hnew hmemory hctxs hlater
    rw [openSend, if_neg (hfresh' hfresh), hcalls, Net.addrs, Net.addrs, hc.contexts]
    simp [hleaves, hcto]
  | unchanged hfresh hleaves hmemory hctxs _ _ =>
    have hcontexts : n'.contexts = n.contexts := by
      rw [Net.contexts, hmemory, hctxs]
      rfl
    have hnone : ¬ (calls.head?.any fun call => call.leaves send.msg.handed.length) = true := by
      cases hcall : calls.head? with
      | none => exact Bool.false_ne_true
      | some call =>
        rw [Option.any_some, hleaves call hcall]
        exact Bool.false_ne_true
    rw [openSend, if_neg (hfresh' hfresh), if_neg hnone, Net.addrs, Net.addrs, hcontexts]

/-- The array moves only when a context does not fit. -/
theorem Net.SentBy.grows {msgbytes : List UInt8} {toaddr : HostAddr} (hn : n.WF)
    (hl : n.Around l) (h : n.SentBy calls msgbytes toaddr n' calls' out) : n.Grows n' := by
  cases h with
  | queued _ _ => exact .of_eq rfl
  | opened _ _ _ hnew _ hmemory hctxs _ hlater =>
    obtain ⟨c, -, -, -, hc⟩ := hl.later hn hnew hmemory hctxs hlater
    have hlen : n'.socketctxs.len = n.socketctxs.len + 1 := by
      have hlength := congrArg List.length hc.contexts
      rw [List.length_append, Net.contexts, Net.contexts, Memory.length_list,
        Memory.length_list] at hlength
      exact hlength
    refine ⟨by omega, fun hle => ?_⟩
    have hcap : n'.socketctxs.cap = n.socketctxs.cap := by
      rw [hc.cap, if_neg (by omega)]
    exact ⟨hcap, hc.items hcap⟩
  | unchanged _ _ _ hctxs _ _ => exact .of_eq hctxs

end Opens

/-! ## A call of `handle_msg` -/

section Sends

variable {w₀ : Watch} {l₀ : Link} {ctx : CtxPtr} {p p' : Peers} {n n' : Net} {l : List SocketCtx}
  {calls calls' : List ConnectCall} {msgbytes : List UInt8} {toaddr : HostAddr} {out : Handover}

/-- A call of `send_msg_to_hostaddr` adds no context for an accepted connection, and shows in none
of their `readbuf`s. -/
theorem Net.SentBy.keepsReads (hn : n.WF) (hl : n.Around l)
    (h : n.SentBy calls msgbytes toaddr n' calls' out) (h0 : toaddr ≠ 0) (fd : ℕ) :
    n.KeepsReads n' fd := by
  have hbuffer : ∀ d ∈ n.contexts, n'.memory.buffer d.readbuf = n.memory.buffer d.readbuf :=
    fun d hd => h.buffer hn hl (hl.contexts d hd) (Or.inl rfl)
  have hsame : ∀ d ∈ n.contexts, d.toaddr = 0 → ∃ e ∈ n.contexts, e.toaddr = 0 ∧ e.fd = d.fd ∧
      ∀ conn, n.memory.Reads e conn → n'.memory.Reads d conn := fun d hd hzero =>
    ⟨d, hd, hzero, rfl, fun conn hconn => ⟨(hbuffer d hd).trans hconn.readbuf, hconn.msglen⟩⟩
  intro d hd hzero _
  cases h with
  | @queued i hi haddr =>
    obtain ⟨c, hfd, hto, hput, hlist⟩ := hn.queued_stored hi msgbytes
    have hmem : d ∈ n.contexts.set i c := hlist ▸ hd
    rcases List.mem_or_eq_of_mem_set hmem with hmem | rfl
    · exact hsame d hmem hzero
    · exact absurd (haddr.symm.trans (hto.symm.trans hzero)) h0
  | opened _ _ _ hnew _ hmemory hctxs _ hlater =>
    obtain ⟨c, -, hcto, -, hc⟩ := hl.later hn hnew hmemory hctxs hlater
    rw [hc.contexts] at hd
    rcases List.mem_append.mp hd with hmem | hmem
    · exact hsame d hmem hzero
    · obtain rfl := List.mem_singleton.mp hmem
      exact absurd (hcto.symm.trans hzero) h0
  | unchanged _ _ hmemory hctxs _ _ =>
    have hcontexts : n'.contexts = n.contexts := by
      rw [Net.contexts, hmemory, hctxs]
      rfl
    exact hsame d (hcontexts ▸ hd) hzero

/-- The calls that `handle_msg` makes show in no `readbuf`, and open what `openSend` says. -/
theorem Tending.run_reads (hw₀ : w₀.WF) (hl₀ : l₀ ∈ w₀.links) (h0 : l₀.toaddr = 0)
    {s s' : Net × List ConnectCall} (h : Tending w₀ l₀ ctx p s.1) {sends : List Send}
    (hto : ∀ x ∈ sends, x.toaddr ≠ 0) (hrun : TinyMsg.run sendPeerMsg s sends = .ok s') :
    (∀ conn, s.1.memory.Reads (s.1.memory.ctx ctx) conn →
      s'.1.memory.Reads (s'.1.memory.ctx ctx) conn) ∧
      sends.foldl openSend (s.1.addrs, s.2) = (s'.1.addrs, s'.2) := by
  induction sends generalizing s with
  | nil =>
    obtain rfl := Except.ok.inj hrun
    exact ⟨fun _ hconn => hconn, rfl⟩
  | cons send sends ih =>
    obtain ⟨s₁, hs₁, hrun⟩ := bind_eq_ok.mp hrun
    obtain ⟨hsend, hsends⟩ := List.forall_mem_cons.mp hto
    obtain ⟨h₁, hsent, hctx⟩ := h.send hw₀ hl₀ h0 hsend hs₁
    have hn := h.net hw₀
    have hl := h.around hw₀ hl₀ h0
    obtain ⟨hreads, hopens⟩ := ih h₁ hsends hrun
    refine ⟨fun conn hconn => hreads conn ?_, ?_⟩
    · have hbuffer : s₁.1.memory.buffer (s.1.memory.ctx ctx).readbuf =
          s.1.memory.buffer (s.1.memory.ctx ctx).readbuf :=
        hsent.buffer hn hl List.mem_cons_self (Or.inl rfl)
      rw [hctx]
      exact ⟨hbuffer.trans hconn.readbuf, hconn.msglen⟩
    · rw [List.foldl_cons, hsent.opens hn hl, hopens]

/-- Nor do they show in the other connections. -/
theorem Tending.sends_beside (hw₀ : w₀.WF) (hl₀ : l₀ ∈ w₀.links) (h0 : l₀.toaddr = 0)
    {sends : List Send} {trace : List LoopEvent} (h : Tending w₀ l₀ ctx p n)
    (hto : ∀ x ∈ sends, x.toaddr ≠ 0)
    (hrun : TinyMsg.run (traced sendPeerMsg sendEvents) ((n, calls), []) sends =
      .ok ((n', calls'), trace)) (fd : ℕ) :
    n.Beside n' fd trace ∧ ∀ l, trace.foldl (Line.step fd) l = l := by
  have hstep : ∀ (s : (Net × List ConnectCall) × List LoopEvent) (x : Send) s',
      Tending w₀ l₀ ctx p s.1.1 ∧ n.Beside s.1.1 fd s.2 ∧
        (∀ l, s.2.foldl (Line.step fd) l = l) → x.toaddr ≠ 0 →
      traced sendPeerMsg sendEvents s x = .ok s' →
      Tending w₀ l₀ ctx p s'.1.1 ∧ n.Beside s'.1.1 fd s'.2 ∧
        ∀ l, s'.2.foldl (Line.step fd) l = l := by
    rintro s x s' ⟨htend, hbeside, hline⟩ hx hs'
    obtain ⟨s₁, hs₁, heq⟩ := bind_eq_ok.mp hs'
    obtain rfl := Except.ok.inj heq
    obtain ⟨htend', hsent, -⟩ := htend.send hw₀ hl₀ h0 hx hs₁
    have hn := htend.net hw₀
    have hl := htend.around hw₀ hl₀ h0
    have hone : s.1.1.Beside s₁.1 fd (sendEvents s.1 x) :=
      (Net.beside_nil (hsent.keepsReads hn hl hx fd) (hsent.grows hn hl)).cons fun _ _ _ => rfl
    refine ⟨htend', hbeside.trans hone, fun l => ?_⟩
    rw [List.foldl_append, hline]
    rfl
  obtain ⟨-, hbeside, hline⟩ := run_of_good
    ⟨h, Net.beside_nil (.refl n fd) (.of_eq rfl), fun _ => rfl⟩ hstep
    (fun fs x s hfs _ => hto x (hfs.subset (by simp))) hrun
  exact ⟨hbeside, hline⟩

/-- A call of `handle_msg` shows in no `readbuf`, and opens what the calls that it makes open. -/
theorem Tending.handled_opens (hw₀ : w₀.WF) (hl₀ : l₀ ∈ w₀.links) (h0 : l₀.toaddr = 0)
    (h : Tending w₀ l₀ ctx p n) {readbuf : Buffer} {msglen : ℕ} {env : MsgEnv}
    (hmsg : TinyMsg.handleMsgBytes p n l₀.fromaddr readbuf msglen env = .ok (p', n')) :
    (∀ conn, n.memory.Reads (n.memory.ctx ctx) conn → n'.memory.Reads (n'.memory.ctx ctx) conn) ∧
      ∃ calls', handleReceived (fun s send => .ok (openSend s send)) p (n.addrs, env.calls)
        l₀.fromaddr (msgMemory readbuf env.behind) msglen env.listenport =
          .ok (p', n'.addrs, calls') := by
  rw [handleMsgBytes_eq] at hmsg
  obtain ⟨⟨p₁, n₁, calls'⟩, hhandle, heq⟩ := bind_eq_ok.mp hmsg
  obtain ⟨rfl, rfl⟩ := Prod.mk.inj (Except.ok.inj heq)
  obtain ⟨sends, next, hto, hiff⟩ := handleReceived_iff h.peers h.addressed
    (hw₀.incoming l₀ hl₀ h0).2.2 (msgMemory readbuf env.behind) msglen env.listenport
  obtain ⟨hnext, hrun⟩ := (hiff _ _ _ _).mp hhandle
  obtain ⟨hreads, hopens⟩ := h.run_reads hw₀ hl₀ h0 (s := (n, env.calls)) hto hrun
  refine ⟨hreads, calls', (hiff _ _ _ _).mpr ⟨hnext, ?_⟩⟩
  rw [run_total fun _ _ => rfl, hopens]

end Sends

/-! ## The loop over the received bytes -/

section Loop

variable {w₀ : Watch} {l₀ : Link} {ctx : CtxPtr} {p p' : Peers} {n n' : Net}

/-- What is left of the `readbuf` is what the context has received. -/
theorem Tending.putReadbuf_reads (h : Tending w₀ l₀ ctx p n) (conn : Conn) :
    (n.memory.putReadbuf ctx conn.readbuf conn.msglen).Reads
      ((n.memory.putReadbuf ctx conn.readbuf conn.msglen).ctx ctx) conn := by
  have hstored := h.array.putReadbuf_stored h.valid conn.readbuf conn.msglen
  rw [hstored.ctx_eq]
  exact ⟨hstored.buffer_self, rfl⟩

/-- Storing it does not show beside the descriptor. -/
theorem Tending.putReadbuf_beside (h : Tending w₀ l₀ ctx p n) (buf : Buffer) (msglen : ℕ) :
    n.Beside { n with memory := n.memory.putReadbuf ctx buf msglen } l₀.fd [] := by
  have hstored := h.array.putReadbuf_stored h.valid buf msglen
  have hfd : (n.memory.ctx ctx).fd = l₀.fd := congrArg Link.fd h.link
  refine Net.beside_nil (fun d hd hzero hne => ?_) (.of_eq rfl)
  rcases hstored.mem d hd with rfl | hmem
  · exact absurd (hstored.fd.trans hfd) hne
  · refine ⟨d, hmem, hzero, rfl, fun conn hconn => ⟨?_, hconn.msglen⟩⟩
    have hbuffer : (n.memory.putReadbuf ctx buf msglen).buffer (d.buf .read) =
        n.memory.buffer (d.buf .read) :=
      hstored.buffer_ne h.apart List.mem_cons_self (List.mem_cons_of_mem _ hmem)
        fun heq => hne ((Prod.mk.inj heq).1.trans hfd)
    exact hbuffer.trans hconn.readbuf

/-- The addresses of the contexts stay. -/
theorem Tending.putReadbuf_addrs (h : Tending w₀ l₀ ctx p n) (buf : Buffer) (msglen : ℕ) :
    Net.addrs { n with memory := n.memory.putReadbuf ctx buf msglen } = n.addrs := by
  obtain ⟨-, -, -, hwatch⟩ :=
    putReadbuf_spec h.array h.valid buf msglen w₀.readfds w₀.listenfd rfl
  have hlinks : ∀ n : Net, n.addrs = (n.watch w₀.readfds w₀.listenfd).links.map Link.toaddr :=
    fun n => by rw [Net.watch, List.map_map]; rfl
  rw [hlinks, hwatch, hlinks]

/-- The loop shows nothing beside the descriptor. -/
theorem Tending.frameLoop_beside (hw₀ : w₀.WF) (hl₀ : l₀ ∈ w₀.links) (h0 : l₀.toaddr = 0)
    (h : Tending w₀ l₀ ctx p n) {fuel : ℕ} {envs : List MsgEnv} {readEof readEof' : Bool}
    (hloop : trackerFrameLoop ctx fuel envs readEof p n = .ok (p', n', readEof')) :
    Tending w₀ l₀ ctx p' n' ∧ n.Beside n' l₀.fd (frameLoopEvents l₀.fd ctx fuel envs p n) := by
  have hstart : n.Beside n l₀.fd [] := Net.beside_nil (.refl n _) (.of_eq rfl)
  refine h.frameLoop (I := fun n₁ evs => n.Beside n₁ l₀.fd evs) hw₀ hl₀ h0 ?_ ?_ hstart hloop
  · intro p₁ n₁ buf msglen evs htend hbeside
    have hput := hbeside.trans (htend.putReadbuf_beside buf msglen)
    rwa [List.append_nil] at hput
  · intro p₁ n₁ n₂ calls calls' sends message trace evs htend hto hrun hbeside
    have hsends := (htend.sends_beside hw₀ hl₀ h0 hto hrun l₀.fd).1
    exact hbeside.trans (hsends.cons fun fd' hne l => if_neg (Ne.symm hne))

/-- At the pointer the loop is the one of the client. -/
theorem Tending.frameLoop_reads (hw₀ : w₀.WF) (hl₀ : l₀ ∈ w₀.links) (h0 : l₀.toaddr = 0)
    (h : Tending w₀ l₀ ctx p n) {fuel : ℕ} {conn : Conn} {envs : List MsgEnv}
    {readEof readEof' : Bool} (hreads : n.memory.Reads (n.memory.ctx ctx) conn)
    (hloop : trackerFrameLoop ctx fuel envs readEof p n = .ok (p', n', readEof')) :
    n'.memory.Reads (n'.memory.ctx ctx) (TinyMsg.frameLoop fuel conn).conn ∧
      readEof' = (readEof || (TinyMsg.frameLoop fuel conn).zero) ∧
      (∀ l, (frameLoopEvents l₀.fd ctx fuel envs p n).foldl (Line.step l₀.fd) l =
        ⟨l.received, l.dispatched ++
          (TinyMsg.frameLoop fuel conn).dispatched.map Dispatch.message⟩) ∧
      n'.addrs = openFrames l₀.fromaddr fuel conn.readbuf conn.msglen envs p n.addrs := by
  -- the ways out of the loop
  have hstop : ∀ {p : Peers} {n : Net} {conn : Conn} {readEof zero eof : Bool},
      n.memory.Reads (n.memory.ctx ctx) conn → eof = (readEof || zero) →
      (.ok (p, n, eof) : Exec (Peers × Net × Bool)) = .ok (p', n', readEof') →
      n'.memory.Reads (n'.memory.ctx ctx) conn ∧ readEof' = (readEof || zero) ∧
        (∀ l : Line, l = ⟨l.received, l.dispatched ++ []⟩) ∧ n'.addrs = n.addrs := by
    intro p n conn readEof zero eof hreads heof heq
    obtain ⟨rfl, hrest⟩ := Prod.mk.inj (Except.ok.inj heq)
    obtain ⟨rfl, rfl⟩ := Prod.mk.inj hrest
    refine ⟨hreads, heof, fun l => ?_, rfl⟩
    rw [List.append_nil]
  induction fuel generalizing envs readEof p n conn with
  | zero => exact hstop hreads (Bool.or_false _).symm hloop
  | succ fuel ih =>
    have hfrom : (n.memory.ctx ctx).fromaddr = l₀.fromaddr := congrArg Link.fromaddr h.link
    rw [trackerFrameLoop] at hloop
    rw [TinyMsg.frameLoop, frameLoopEvents, openFrames]
    dsimp only at hloop ⊢
    rw [hreads.readbuf, hreads.msglen, hfrom] at hloop ⊢
    by_cases hlen : conn.msglen = 0
    · rw [if_pos hlen] at hloop
      rw [if_pos hlen, if_pos hlen, if_pos hlen]
      by_cases htwo : 2 ≤ conn.readbuf.len
      · rw [if_pos htwo] at hloop
        rw [if_pos htwo, if_pos htwo, if_pos htwo]
        by_cases hzero : prefixLen conn.readbuf = 0
        · rw [if_pos hzero] at hloop
          rw [if_pos hzero, if_pos hzero, if_pos hzero]
          exact hstop hreads (Bool.or_true _).symm hloop
        · rw [if_neg hzero] at hloop
          rw [if_neg hzero, if_neg hzero, if_neg hzero]
          rw [← h.putReadbuf_addrs (bufferShift conn.readbuf 2) (prefixLen conn.readbuf)]
          exact ih (h.putReadbuf _ _) (h.putReadbuf_reads
            ⟨bufferShift conn.readbuf 2, prefixLen conn.readbuf, prefixLen_lt _⟩) hloop
      · rw [if_neg htwo] at hloop
        rw [if_neg htwo, if_neg htwo, if_neg htwo]
        exact hstop hreads (Bool.or_false _).symm hloop
    · rw [if_neg hlen] at hloop
      rw [if_neg hlen, if_neg hlen, if_neg hlen]
      by_cases hbody : conn.msglen ≤ conn.readbuf.len
      · rw [if_pos hbody] at hloop
        rw [if_pos hbody, if_pos hbody, if_pos hbody]
        obtain ⟨⟨p₁, n₁⟩, hhandle, hloop⟩ := bind_eq_ok.mp hloop
        obtain ⟨hreads₁, calls', hopens⟩ := h.handled_opens hw₀ hl₀ h0 hhandle
        rw [← hfrom] at hhandle
        obtain ⟨htend, sends, calls'', hto, htrace⟩ := h.handleMsgBytes hw₀ hl₀ h0 hhandle
        rw [hfrom] at hhandle htrace
        have hline := (h.sends_beside hw₀ hl₀ h0 hto htrace l₀.fd).2
        have hconn := hreads₁ conn hreads
        dsimp only at hloop
        rw [hconn.readbuf, hconn.msglen] at hloop
        have hnext := ih (htend.putReadbuf _ _) (htend.putReadbuf_reads
          ⟨bufferShift conn.readbuf conn.msglen, 0, by decide⟩) hloop
        dsimp only at hnext
        rw [htend.putReadbuf_addrs] at hnext
        rw [hopens, hhandle]
        dsimp only
        rw [hconn.readbuf, hconn.msglen]
        obtain ⟨hreads', heof, hlines, haddrs⟩ := hnext
        refine ⟨hreads', heof, fun l => ?_, haddrs⟩
        rw [List.foldl_cons, List.foldl_append, hline, hlines, Line.step, if_pos rfl, List.map_cons,
          List.append_assoc]
        rfl
      · rw [if_neg hbody] at hloop
        rw [if_neg hbody, if_neg hbody, if_neg hbody]
        exact hstop hreads (Bool.or_false _).symm hloop

end Loop

/-! ## A visit that receives -/

/-- A connection receives: `NetRecv`, and the loop of the client. -/
def Conn.receive (conn : Conn) (rs : List RecvResult) : FramePass :=
  frameLoop ((netRecv rs conn.readbuf).2.len + 1)
    { conn with readbuf := (netRecv rs conn.readbuf).2 }

/-- A connection has what the reader leaves of the bytes received, and the reader goes on. -/
structure Conn.Drained (conn : Conn) (received : List UInt8) : Prop where
  /-- No length of zero was received. -/
  stopped : (parse 2 received).stopped = false
  /-- The frame at the end is not complete. -/
  pending : conn.pending = (parse 2 received).rest

/-- The addresses that have contexts at the end of a visit that receives for `c`. -/
def Tracker.opens (t : Tracker) (a : Answers) (c : SocketCtx) : List HostAddr :=
  let readbuf := (netRecv a.recvs (t.net.memory.buffer c.readbuf)).2
  openFrames c.fromaddr (readbuf.len + 1) readbuf c.msglen a.msgs t.peers t.net.addrs

/-- What a visit that receives for the context `c` does. -/
structure Tracker.ReceivesFor (t : Tracker) (a : Answers) (c : SocketCtx) (t' : Tracker) :
    Prop where
  /-- The context is for an accepted connection. -/
  mem : c ∈ t.contexts
  /-- It is the one of the descriptor. -/
  fd : c.fd = t.i
  /-- It was accepted. -/
  toaddr : c.toaddr = 0
  /-- The other connections have received the same. -/
  keepsReads : t.net.KeepsReads t'.net t.i
  /-- On the other descriptors nothing happens. -/
  lines : ∀ fd, fd ≠ t.i → ∀ l, (readEvents t a).foldl (Line.step fd) l = l
  /-- The frames are dispatched that the loop of the client finds. -/
  line : ∀ conn, t.net.memory.Reads c conn → ∀ l, (readEvents t a).foldl (Line.step t.i) l =
    ⟨l.received ++ received a.recvs,
      l.dispatched ++ (conn.receive a.recvs).dispatched.map Dispatch.message⟩
  /-- The context is closed, or the connection goes on; and it is found again if the array has not
  moved. -/
  next : ∀ conn, t.net.memory.Reads c conn → ∀ c' ∈ t'.contexts, c'.fd = t.i →
    reachesEof a.recvs = false ∧ (conn.receive a.recvs).zero = false ∧
      ((t.opens a c).length ≤ t.net.socketctxs.cap →
        t'.net.memory.Reads c' (conn.receive a.recvs).conn)

section Receiving

variable {conn : Conn} {bytes : List UInt8}

/-- A connection ends when the reader comes to a length of zero. -/
theorem Conn.receive_zero (conn : Conn) (rs : List RecvResult) :
    (conn.receive rs).zero = (parse 2 (conn.pending ++ received rs)).stopped := by
  obtain ⟨-, hzero, -⟩ := frameLoop_spec
    (c := { conn with readbuf := (netRecv rs conn.readbuf).2 }) (Nat.lt_succ_self _)
  rw [pending_netRecv] at hzero
  exact hzero

/-- A new connection has received nothing. -/
theorem connNew_drained : connNew.Drained [] := by
  have hnil : parse 2 [] = ⟨[], false, []⟩ := parse_short (by decide)
  exact ⟨by rw [hnil], by rw [hnil, connNew_pending]⟩

theorem Line.exactlyOnce_nil : Line.ExactlyOnce ⟨[], []⟩ := by
  rw [Line.ExactlyOnce, parse_short (by decide), List.map_nil]

/-- What a connection receives is read on from where the reader was. -/
theorem Conn.Drained.receive (h : conn.Drained bytes) (rs : List RecvResult) :
    (parse 2 (bytes ++ received rs)).bodies.map withLength =
        (parse 2 bytes).bodies.map withLength ++
          (conn.receive rs).dispatched.map Dispatch.message ∧
      ((conn.receive rs).zero = false →
        (conn.receive rs).conn.Drained (bytes ++ received rs)) := by
  obtain ⟨hdisp, hzero, hrest⟩ := frameLoop_spec
    (c := { conn with readbuf := (netRecv rs conn.readbuf).2 }) (Nat.lt_succ_self _)
  rw [pending_netRecv, h.pending] at hdisp hzero hrest
  have hfeed : parse 2 (bytes ++ received rs) = (parse 2 bytes).feed 2 (received rs) :=
    parse_append 2 bytes (received rs)
  rw [Parsed.feed, h.stopped, if_neg Bool.false_ne_true] at hfeed
  have hstopped := congrArg Parsed.stopped hfeed
  constructor
  · rw [hfeed, List.map_append, ← hdisp]
    rfl
  · intro hgoes
    have hfalse := hstopped.trans (hzero.symm.trans hgoes)
    refine ⟨hfalse, ?_⟩
    rw [hfeed]
    exact hrest (hzero.symm.trans hgoes)

end Receiving

section Pointer

variable {w₀ : Watch} {l₀ : Link} {ctx : CtxPtr} {p p' : Peers} {n n' : Net}

/-- At the pointer a visit is what a connection makes of the bytes that arrive. -/
theorem Tending.receives (hw₀ : w₀.WF) (hl₀ : l₀ ∈ w₀.links) (h0 : l₀.toaddr = 0)
    (h : Tending w₀ l₀ ctx p n) {conn : Conn} {rs : List RecvResult} {readbuf : Buffer} {msglen : ℕ}
    (hbuf : readbuf = (netRecv rs conn.readbuf).2) (hlen : msglen = conn.msglen)
    {envs : List MsgEnv} {readEof readEof' : Bool}
    (hloop : trackerFrameLoop ctx (readbuf.len + 1) envs readEof p
      { n with memory := n.memory.putReadbuf ctx readbuf msglen } = .ok (p', n', readEof')) :
    n'.memory.Reads (n'.memory.ctx ctx) (conn.receive rs).conn ∧
      readEof' = (readEof || (conn.receive rs).zero) ∧
      (∀ l, (frameLoopEvents l₀.fd ctx (readbuf.len + 1) envs p
        { n with memory := n.memory.putReadbuf ctx readbuf msglen }).foldl (Line.step l₀.fd) l =
          ⟨l.received, l.dispatched ++ (conn.receive rs).dispatched.map Dispatch.message⟩) ∧
      n'.addrs = openFrames l₀.fromaddr (readbuf.len + 1) readbuf msglen envs p n.addrs := by
  obtain ⟨conn₁, hconn₁⟩ : ∃ conn₁ : Conn,
    conn₁ = { conn with readbuf := (netRecv rs conn.readbuf).2 } := ⟨_, rfl⟩
  have hbuf₁ : readbuf = conn₁.readbuf := by rw [hbuf, hconn₁]
  have hlen₁ : msglen = conn₁.msglen := by rw [hlen, hconn₁]
  have hreceive : conn.receive rs = TinyMsg.frameLoop (readbuf.len + 1) conn₁ := by
    rw [Conn.receive, hbuf, hconn₁]
  have hput := h.putReadbuf_reads conn₁
  rw [← hbuf₁, ← hlen₁] at hput
  have hresult := (h.putReadbuf readbuf msglen).frameLoop_reads hw₀ hl₀ h0 hput hloop
  rwa [← hreceive, ← hbuf₁, ← hlen₁, h.putReadbuf_addrs] at hresult

/-- While the array stays where it is, the context for the descriptor is at the pointer. -/
theorem Tending.eq_ctx (hw₀ : w₀.WF) (h : Tending w₀ l₀ ctx p n)
    (hblock : ctx.block = n.socketctxs.items) {c : SocketCtx} (hc : c ∈ n.contexts)
    (hfd : c.fd = l₀.fd) : c = n.memory.ctx ctx := by
  have hctx : (n.memory.ctx ctx).fd = l₀.fd := congrArg Link.fd h.link
  exact List.inj_on_of_nodup_map (h.net hw₀).fds_nodup hc (h.array.ctx_mem h.valid hblock)
    (hfd.trans hctx.symm)

end Pointer

section Visit

variable {t t' : Tracker} {a : Answers} {goOn : Bool}

/-- The branch for received bytes. -/
theorem readBranch_receives (ht : t.WF) (hapart : t.net.memory.Apart t.contexts)
    (hi : t.i ∈ t.readfds) (hne : t.i ≠ t.listenfd) (h : readBranch t a = .ok (t', goOn)) :
    ∃ c, t.ReceivesFor a c t' := by
  obtain ⟨c, ctx, readbuf, p, n, readEof, hreading⟩ := readBranch_reading ht hapart hi hne h
  have hl₀ : c.link ∈ t.watch.links := List.mem_map_of_mem hreading.mem
  have hlfd : c.link.fd = t.i := hreading.fd
  obtain ⟨htending', hloopBeside⟩ := (hreading.tending.putReadbuf _ _).frameLoop_beside
    ht.watch hl₀ hreading.toaddr hreading.loop
  have hbeside := (hreading.tending.putReadbuf_beside readbuf c.msglen).trans hloopBeside
  rw [List.nil_append, hlfd] at hbeside
  -- what the loop makes of what the context has received
  have hreads : ∀ conn, t.net.memory.Reads c conn →
      n.memory.Reads (n.memory.ctx ctx) (conn.receive a.recvs).conn ∧
        readEof = (decide ((netRecv a.recvs (t.net.memory.buffer c.readbuf)).1 = 0) ||
          (conn.receive a.recvs).zero) ∧
        (∀ l, (readEvents t a).foldl (Line.step t.i) l =
          ⟨l.received ++ received a.recvs,
            l.dispatched ++ (conn.receive a.recvs).dispatched.map Dispatch.message⟩) ∧
        n.addrs = t.opens a c := by
    intro conn hconn
    obtain ⟨hreads, heof, hline, haddrs⟩ := hreading.tending.receives ht.watch hl₀ hreading.toaddr
      (by rw [hreading.readbuf_eq, hconn.readbuf]) hconn.msglen hreading.loop
    rw [hlfd] at hline
    refine ⟨hreads, heof, fun l => ?_, ?_⟩
    · rw [hreading.events, List.foldl_cons, hline, Line.step, if_pos rfl]
    · rw [haddrs, Tracker.opens, ← hreading.readbuf_eq]
      rfl
  have hlines : ∀ fd, fd ≠ t.i → ∀ l, (readEvents t a).foldl (Line.step fd) l = l := by
    intro fd hne' l
    rw [hreading.events, List.foldl_cons, Line.step, if_neg (Ne.symm hne')]
    exact hbeside.lines fd hne' l
  have hline := fun conn hconn => (hreads conn hconn).2.2.1
  refine ⟨c, hreading.mem, hreading.fd, hreading.toaddr, ?_, hlines, hline,
    fun conn hconn c' hc' hfd' => ?_⟩
  · cases hreadEof : readEof with
    | true => exact hbeside.keepsReads.trans ((hreading.closed hreadEof).keepsReads t.i)
    | false =>
      rw [hreading.goesOn hreadEof]
      exact hbeside.keepsReads
  · obtain ⟨hreads', heof, -, haddrs⟩ := hreads conn hconn
    cases hreadEof : readEof with
    | true =>
      have hmem := hc'
      rw [Tracker.contexts, (hreading.closed hreadEof).contexts, hreading.fd] at hmem
      exact absurd hfd' (of_decide_eq_true (List.mem_filter.mp hmem).2)
    | false =>
      have hnet := hreading.goesOn hreadEof
      rw [heof, Bool.or_eq_false_iff] at hreadEof
      obtain ⟨hrecv, hzero⟩ := hreadEof
      refine ⟨?_, hzero, fun hfits => ?_⟩
      · rw [← Bool.not_eq_true, ← netRecv_eq_zero_iff _ (t.net.memory.buffer c.readbuf)]
        exact of_decide_eq_false hrecv
      · -- the array has not moved away from the context
        obtain ⟨-, hitems⟩ := hbeside.grows.fits (by rw [← n.length_addrs, haddrs]; exact hfits)
        rw [Tracker.contexts, hnet] at hc'
        rw [hnet, htending'.eq_ctx ht.watch (hreading.block.trans hitems.symm) hc'
          (hfd'.trans hlfd.symm)]
        exact hreads'

/-- In a visit that receives on a connection the contexts there are and those opened fit the array,
or the connection ends. -/
def Tracker.RoomToOpen (t : Tracker) (a : Answers) : Prop :=
  t.i ≤ t.net.maxfd → t.i ∈ t.tmpReadfds → t.i ≠ t.listenfd →
    ∀ c ∈ t.contexts, c.fd = t.i → reachesEof a.recvs = true ∨
      (t.opens a c).length ≤ t.net.socketctxs.cap ∨
      (parse 2 (t.net.memory.pending c ++ received a.recvs)).stopped = true

end Visit

/-! ## The steps of the loop -/

instance (t : Tracker) (a : Answers) : Decidable (t.RoomToOpen a) :=
  inferInstanceAs (Decidable (t.i ≤ t.net.maxfd → t.i ∈ t.tmpReadfds → t.i ≠ t.listenfd →
    ∀ c ∈ t.contexts, c.fd = t.i → reachesEof a.recvs = true ∨
      (t.opens a c).length ≤ t.net.socketctxs.cap ∨
      (parse 2 (t.net.memory.pending c ++ received a.recvs)).stopped = true))

/-- What was received on the accepted connections was dispatched or waits in their contexts. -/
structure Net.Dispatches (n : Net) (trace : List LoopEvent) : Prop where
  /-- On every descriptor each frame was dispatched once. -/
  once : ∀ fd, (lineOn fd trace).ExactlyOnce
  /-- The contexts have what the reader leaves. -/
  reads : ∀ c ∈ n.contexts, c.toaddr = 0 →
    ∃ conn : Conn, n.memory.Reads c conn ∧ conn.Drained (lineOn c.fd trace).received

theorem lineOn_append (fd : ℕ) (trace evs : List LoopEvent) :
    lineOn fd (trace ++ evs) = evs.foldl (Line.step fd) (lineOn fd trace) :=
  List.foldl_append

section Dispatches

variable {n n' : Net} {trace evs : List LoopEvent}

/-- Beside the descriptor visited nothing changes. -/
theorem Net.Dispatches.visit (h : n.Dispatches trace) {fd : ℕ} (hreads : n.KeepsReads n' fd)
    (hlines : ∀ fd', fd' ≠ fd → ∀ l, evs.foldl (Line.step fd') l = l)
    (honce : (lineOn fd (trace ++ evs)).ExactlyOnce)
    (hself : ∀ c ∈ n'.contexts, c.toaddr = 0 → c.fd = fd →
      ∃ conn : Conn, n'.memory.Reads c conn ∧
        conn.Drained (lineOn fd (trace ++ evs)).received) : n'.Dispatches (trace ++ evs) := by
  have hsame : ∀ fd', fd' ≠ fd → lineOn fd' (trace ++ evs) = lineOn fd' trace := by
    intro fd' hne
    rw [lineOn_append, hlines fd' hne]
  refine ⟨fun fd' => ?_, fun c hc h0 => ?_⟩
  · by_cases hfd : fd' = fd
    · exact hfd ▸ honce
    · rw [hsame fd' hfd]
      exact h.once fd'
  · by_cases hfd : c.fd = fd
    · rw [hfd]
      exact hself c hc h0 hfd
    · obtain ⟨d, hd, hd0, hdfd, hkeep⟩ := hreads c hc h0 hfd
      obtain ⟨conn, hconn, hdrained⟩ := h.reads d hd hd0
      rw [hsame c.fd hfd, ← hdfd]
      exact ⟨conn, hkeep conn hconn, hdrained⟩

/-- A step that is seen of no connection. -/
theorem Net.Dispatches.keep (h : n.Dispatches trace) (hreads : ∀ fd, n.KeepsReads n' fd) :
    n'.Dispatches (trace ++ []) := by
  rw [List.append_nil]
  refine ⟨h.once, fun c hc h0 => ?_⟩
  obtain ⟨d, hd, hd0, hdfd, hkeep⟩ := hreads (c.fd + 1) c hc h0 (Nat.lt_succ_self _).ne
  obtain ⟨conn, hconn, hdrained⟩ := h.reads d hd hd0
  exact ⟨conn, hkeep conn hconn, hdfd ▸ hdrained⟩

end Dispatches

section Steps

variable {t t' : Tracker} {a : Answers} {goOn : Bool}

/-- Storing the `writebuf` of a context that sends shows in no `readbuf`. -/
theorem Net.WF.putWritebuf_keeps {n n' : Net} {i : ℕ} (hn : n.WF)
    (hapart : n.memory.Apart n.contexts) (hi : i < n.contexts.length)
    (h0 : n.contexts[i].toaddr ≠ 0) {buf : Buffer}
    (hmemory : n'.memory = n.memory.putWritebuf ⟨n.socketctxs.items, i⟩ buf)
    (hctxs : n'.socketctxs = n.socketctxs) :
    n'.memory.Apart n'.contexts ∧ (∀ fd, n.KeepsReads n' fd) ∧
      ∃ c, c.toaddr ≠ 0 ∧ n'.contexts = n.contexts.set i c := by
  obtain ⟨c, -, hto, hput, hlist⟩ := hn.writebuf_stored hi buf
  have hcontexts : n'.contexts = n.contexts.set i c := by
    rw [Net.contexts, hmemory, hctxs]
    exact hlist
  have hmem : ∀ d ∈ n'.contexts, d = c ∨ d ∈ n.contexts := fun d hd =>
    (List.mem_or_eq_of_mem_set (hcontexts ▸ hd)).symm
  rw [← hmemory] at hput
  refine ⟨hapart.putBack (List.getElem_mem hi) hput hmem, fun fd d hd hd0 _ => ?_, c, hto ▸ h0,
    hcontexts⟩
  rcases hmem d hd with rfl | hold
  · exact absurd (hto.symm.trans hd0) h0
  · refine ⟨d, hold, hd0, rfl, fun conn hconn => ⟨?_, hconn.msglen⟩⟩
    have hbuffer : n'.memory.buffer (d.buf .read) = n.memory.buffer (d.buf .read) :=
      hput.buffer_ne hapart (List.getElem_mem hi) hold fun heq =>
        absurd (Prod.mk.inj heq).2 (by decide)
    exact hbuffer.trans hconn.readbuf

/-- What the write branch does to the memory. -/
theorem Net.afterWrite_memory (n : Net) (fd : ℕ) (ctx : CtxPtr) (ret : ℤ) (rest : Buffer) :
    (n.afterWrite fd ctx ret rest).socketctxs = n.socketctxs ∧
      ((n.afterWrite fd ctx ret rest).memory = n.memory.putWritebuf ctx rest ∨
        (n.afterWrite fd ctx ret rest).memory =
          (n.memory.putWritebuf ctx rest).putWritebuf ctx (bufferClear rest)) := by
  unfold Net.afterWrite
  dsimp only
  split
  · exact ⟨rfl, Or.inl rfl⟩
  split
  · exact ⟨rfl, Or.inl rfl⟩
  · exact ⟨rfl, Or.inr rfl⟩

/-- A visit that sends shows in no `readbuf`, whether `send()` fails or not. -/
theorem writeBranch_keeps (ht : t.WF) (hapart : t.net.memory.Apart t.contexts)
    (hi : t.i ∈ t.net.writefds) (h : writeBranch t a = .ok t') :
    t'.net.memory.Apart t'.contexts ∧ ∀ fd, t.net.KeepsReads t'.net fd := by
  obtain ⟨i, hlt, n₁, buf, -, h0, -, hsent, hrun⟩ := writeBranch_eq (a := a) ht hi
  obtain rfl := Except.ok.inj (hrun.symm.trans h)
  obtain ⟨hctxs, hmemory⟩ := n₁.afterWrite_memory t.i ⟨t.net.socketctxs.items, i⟩
    (netSend a.sends buf).ret (netSend a.sends buf).buf
  rw [hsent.memory] at hmemory
  rw [hsent.socketctxs] at hctxs
  generalize n₁.afterWrite t.i ⟨t.net.socketctxs.items, i⟩ (netSend a.sends buf).ret
    (netSend a.sends buf).buf = n' at hctxs hmemory ⊢
  rcases hmemory with hmemory | hmemory
  · obtain ⟨hapart', hkeeps, -⟩ := ht.net.putWritebuf_keeps hapart hlt h0 hmemory hctxs
    exact ⟨hapart', hkeeps⟩
  · -- after an error the `writebuf` is stored a second time
    obtain ⟨n₂, hn₂⟩ : ∃ n₂ : Net, n₂ = { t.net with
      memory := t.net.memory.putWritebuf ⟨t.net.socketctxs.items, i⟩
        (netSend a.sends buf).buf } := ⟨_, rfl⟩
    obtain ⟨hwf₂, hlen₂, -, -⟩ := putWritebuf_spec ht.net rfl hlt (netSend a.sends buf).buf
      t.readfds t.listenfd hn₂
    have hitems₂ : n₂.socketctxs = t.net.socketctxs := by rw [hn₂]
    have hmemory₂ : n₂.memory = t.net.memory.putWritebuf ⟨t.net.socketctxs.items, i⟩
        (netSend a.sends buf).buf := by rw [hn₂]
    obtain ⟨hapart₂, hkeeps₂, c, hc0, hlist⟩ :=
      ht.net.putWritebuf_keeps hapart hlt h0 hmemory₂ hitems₂
    rw [← hmemory₂, ← hitems₂] at hmemory
    have hlt₂ : i < n₂.contexts.length := hlen₂ ▸ hlt
    have h0₂ : n₂.contexts[i].toaddr ≠ 0 := by
      simp only [hlist, List.getElem_set_self]
      exact hc0
    obtain ⟨hapart', hkeeps, -⟩ :=
      hwf₂.putWritebuf_keeps hapart₂ hlt₂ h0₂ hmemory (hctxs.trans hitems₂.symm)
    exact ⟨hapart', fun fd => (hkeeps₂ fd).trans (hkeeps fd)⟩

/-- A visit that receives dispatches the frames that have become complete. -/
theorem readBranch_dispatches (ht : t.WF) (hapart : t.net.memory.Apart t.contexts)
    (hi : t.i ∈ t.readfds) (hne : t.i ≠ t.listenfd)
    (hroom : ∀ c ∈ t.contexts, c.fd = t.i → reachesEof a.recvs = true ∨
      (t.opens a c).length ≤ t.net.socketctxs.cap ∨
      (parse 2 (t.net.memory.pending c ++ received a.recvs)).stopped = true)
    {trace : List LoopEvent} (hd : t.net.Dispatches trace) (h : readBranch t a = .ok (t', goOn)) :
    t'.net.Dispatches (trace ++ readEvents t a) := by
  obtain ⟨c, hc⟩ := readBranch_receives ht hapart hi hne h
  obtain ⟨conn, hconn, hdrained⟩ := hd.reads c hc.mem hc.toaddr
  rw [hc.fd] at hdrained
  obtain ⟨hbodies, hnext⟩ := hdrained.receive a.recvs
  have hline : lineOn t.i (trace ++ readEvents t a) =
      ⟨(lineOn t.i trace).received ++ received a.recvs, (lineOn t.i trace).dispatched ++
        (conn.receive a.recvs).dispatched.map Dispatch.message⟩ := by
    rw [lineOn_append, hc.line conn hconn]
  refine hd.visit hc.keepsReads hc.lines ?_ fun c' hc' _ hfd => ?_
  · have honce : (lineOn t.i trace).dispatched = _ := hd.once t.i
    rw [Line.ExactlyOnce, hline, hbodies, honce]
  · obtain ⟨heof, hzero, hreads⟩ := hc.next conn hconn c' hc' hfd
    rw [hline]
    refine ⟨_, hreads ?_, hnext hzero⟩
    rcases hroom c hc.mem hc.fd with htrue | hfits | hstopped
    · rw [heof] at htrue
      cases htrue
    · exact hfits
    · rw [hconn.pending, ← Conn.receive_zero, hzero] at hstopped
      cases hstopped

/-- A new connection has received nothing, and the others the same. -/
theorem acceptBranch_dispatches (ht : t.WF) (hapart : t.net.memory.Apart t.contexts)
    {trace : List LoopEvent} (hd : t.net.Dispatches trace) (h : acceptBranch t a = .ok (t', goOn)) :
    t'.net.Dispatches (trace ++ acceptEvents a) := by
  unfold acceptBranch at h
  unfold acceptEvents
  cases haccept : a.accept with
  | failed =>
    simp only [haccept] at h
    obtain ⟨rfl, -⟩ := Prod.mk.inj (Except.ok.inj h)
    exact hd.keep fun fd => .refl t.net fd
  | other fd =>
    simp only [haccept] at h
    obtain ⟨n, hopen, heq⟩ := bind_eq_ok.mp h
    obtain ⟨-, rfl⟩ := (openFd_meets _ _).of_ok hopen
    obtain ⟨rfl, -⟩ := Prod.mk.inj (Except.ok.inj heq)
    exact hd.keep fun fd => .refl t.net fd
  | ipv4 fd sa =>
    simp only [haccept] at h
    obtain ⟨n, hopen, h⟩ := bind_eq_ok.mp h
    obtain ⟨hnew, rfl⟩ := (openFd_meets _ _).of_ok hopen
    split at h
    · cases h
    obtain ⟨⟨m, ctxs, p⟩, hnewctx, h⟩ := bind_eq_ok.mp h
    obtain ⟨readfds, -, heq⟩ := bind_eq_ok.mp h
    obtain ⟨rfl, -⟩ := Prod.mk.inj (Except.ok.inj heq)
    obtain ⟨hlist, hbytes, -, -, -⟩ := socketCtxNew_ok hnewctx
    obtain ⟨c, hc⟩ : ∃ c, c = ctxNew fd (hostAddrFromSockAddr sa) 0 (t.net.memory.bufferNew 64).2
      ((t.net.memory.bufferNew 64).1.bufferNew 1).2 := ⟨_, rfl⟩
    replace hlist : m.list ctxs = t.contexts ++ [c] := hc ▸ hlist
    have hold : ∀ d ∈ t.contexts, d.fd ≠ fd := fun d hmem heq =>
      hnew (heq ▸ ht.net.fds_open d hmem)
    have hline : lineOn fd (trace ++ [.accepted fd]) = ⟨[], []⟩ := by
      rw [lineOn_append, List.foldl_cons, Line.step, if_pos rfl]
      rfl
    have hreads : t.net.KeepsReads { t.net with
        fds := insert fd t.net.fds
        accepted := Function.update t.net.accepted fd []
        memory := m
        socketctxs := ctxs
        maxfd := max t.net.maxfd fd } fd := by
      intro d hmem h0 hne
      have hmem' : d ∈ t.contexts ++ [c] := hlist ▸ hmem
      rcases List.mem_append.mp hmem' with hmem | hmem
      · refine ⟨d, hmem, h0, rfl, fun conn hconn => ⟨?_, hconn.msglen⟩⟩
        exact (hapart.buffer_bufferNew hbytes hmem .read).trans hconn.readbuf
      · obtain rfl := List.mem_singleton.mp hmem
        exact absurd (by rw [hc]; rfl) hne
    refine hd.visit hreads (fun fd' hne l => ?_) ?_ fun d hmem h0 hfd => ?_
    · exact if_neg (Ne.symm hne)
    · rw [hline]
      exact Line.exactlyOnce_nil
    · have hmem' : d ∈ t.contexts ++ [c] := hlist ▸ hmem
      rcases List.mem_append.mp hmem' with hmem | hmem
      · exact absurd hfd (hold d hmem)
      · obtain rfl := List.mem_singleton.mp hmem
        rw [hline]
        refine ⟨connNew, ⟨?_, by rw [hc]; rfl⟩, connNew_drained⟩
        rw [hc]
        exact Memory.buffer_bufferNew_self hbytes

/-- A step of the loop. -/
theorem loopStep_dispatches (ht : t.WF) (hapart : t.net.memory.Apart t.contexts)
    (hroom : t.RoomToOpen a) {trace : List LoopEvent} (hd : t.net.Dispatches trace)
    (h : loopStep t a = .ok t') :
    t'.net.memory.Apart t'.contexts ∧ t'.net.Dispatches (trace ++ loopEvents t a) := by
  have hstepped := loopStep_stepped ht h
  generalize loopEvents t a = evs at hstepped
  cases hstepped with
  | idle hnet =>
    rw [Tracker.contexts, hnet]
    exact ⟨hapart, hd.keep fun fd => .refl t.net fd⟩
  | accept hbranch =>
    have hd' := acceptBranch_dispatches ht hapart hd hbranch
    exact ⟨(acceptBranch_carries ht hapart hbranch).1, hd'⟩
  | read hi hmem hread hne hbranch =>
    have hd' := readBranch_dispatches ht hapart hread hne (hroom hi hmem hne) hd hbranch
    exact ⟨(readBranch_carries ht hapart hread hne hbranch).1, hd'⟩
  | write hwrite hbranch =>
    obtain ⟨hapart', hkeeps⟩ := writeBranch_keeps ht hapart hwrite hbranch
    exact ⟨hapart', hd.keep hkeeps⟩

/-! ## Whole runs -/

/-- In every run in which the contexts that a visit opens fit the array, or the visit ends the
connection, the buffers hold what has arrived and is not dispatched yet. -/
theorem loopRun_dispatches {listenfd : Fin fdSetSize} {fds : Finset ℕ} {es : List Answers}
    (hroom : ∀ fs a t, fs ++ [a] <+: es → run loopStep (trackerInit listenfd fds) fs = .ok t →
      t.RoomToOpen a) {trace : List LoopEvent}
    (hrun : run (traced loopStep loopEvents) (trackerInit listenfd fds, []) es = .ok (t, trace)) :
    t.net.Dispatches trace := by
  have hstep : ∀ (s : Tracker × List LoopEvent) (a : Answers) s',
      s.1.WF ∧ s.1.net.memory.Apart s.1.contexts ∧ s.1.net.Dispatches s.2 →
      s.1.RoomToOpen a → traced loopStep loopEvents s a = .ok s' →
      s'.1.WF ∧ s'.1.net.memory.Apart s'.1.contexts ∧ s'.1.net.Dispatches s'.2 := by
    rintro s a s' ⟨ht, hapart, hd⟩ ha hs'
    obtain ⟨t₁, ht₁, heq⟩ := bind_eq_ok.mp hs'
    obtain rfl := Except.ok.inj heq
    obtain ⟨hapart', hd'⟩ := loopStep_dispatches ht hapart ha hd ht₁
    exact ⟨loopStep_wf ht ht₁, hapart', hd'⟩
  have hapart : (trackerInit listenfd fds).net.memory.Apart (trackerInit listenfd fds).contexts :=
    Memory.apart_nil _
  have hinit : (trackerInit listenfd fds).net.Dispatches [] :=
    ⟨fun _ => Line.exactlyOnce_nil, fun c hc => absurd hc List.not_mem_nil⟩
  obtain ⟨-, -, hd⟩ := run_of_good ⟨trackerInit_wf listenfd fds, hapart, hinit⟩ hstep
    (fun fs a s hfs hs => hroom fs a s.1 hfs (run_of_traced hs)) hrun
  exact hd

/-- In every run in which the contexts that a visit opens fit the array, or the visit ends the
connection, every frame received is dispatched once. -/
theorem dispatched_once (listenfd : Fin fdSetSize) (fds : Finset ℕ) (es : List Answers)
    (hroom : ∀ fs a t, fs ++ [a] <+: es → run loopStep (trackerInit listenfd fds) fs = .ok t →
      t.RoomToOpen a) {trace : List LoopEvent}
    (hrun : run (traced loopStep loopEvents) (trackerInit listenfd fds, []) es = .ok (t, trace))
    (fd : ℕ) : (lineOn fd trace).ExactlyOnce :=
  (loopRun_dispatches hroom hrun).once fd

/-- A peer is announced to itself over a slow socket, and knocks again. -/
theorem dispatched_once_announcing : ∃ t trace,
    run (traced loopStep loopEvents) (trackerInit ⟨3, by decide⟩ {0, 1, 2}, []) abandoningRun =
      .ok (t, trace) ∧
    (lineOn 4 trace).ExactlyOnce := by
  have hsome : (run loopStep (trackerInit ⟨3, by decide⟩ {0, 1, 2}) abandoningRun).toOption.isSome =
      true := by decide +kernel
  have hrooms : ∀ k : Fin abandoningRun.length,
      ((run loopStep (trackerInit ⟨3, by decide⟩ {0, 1, 2}) (abandoningRun.take k)).toOption.all
        fun t => decide (t.RoomToOpen (abandoningRun.get k))) = true := by decide +kernel
  obtain ⟨t, ht⟩ := Option.isSome_iff_exists.mp hsome
  obtain ⟨trace, htrace⟩ := traced_of_run loopEvents (toOption_eq_some.mp ht)
  exact ⟨t, trace, htrace, dispatched_once _ _ abandoningRun (fun _ _ _ => good_of_takes hrooms)
    htrace 4⟩

/-- Visits to descriptors that are not ready. -/
def idleVisits (n : ℕ) : List Answers := List.replicate n quietAnswers

/-- A connection at the descriptor `4 + k`, after `k` others. -/
def acceptRound (k : ℕ) : List Answers :=
  { quietAnswers with readable := {3} } :: (idleVisits 3 ++
    { quietAnswers with accept := .ipv4 (4 + k) ⟨1000, 0x0100007F⟩ } :: idleVisits (k + 1))

/-- There are as many connections as the array has slots.  The last one knocks twice, and the second
time the tracker announces it to itself and can send two bytes at once.  Then the connection is
ready again. -/
def movingRun : List Answers :=
  (List.range 64).flatMap acceptRound ++ { quietAnswers with readable := {67} } ::
    (idleVisits 67 ++ { quietAnswers with
      recvs := [.data ⟨(List.replicate 2 knockFrame).flatten, by decide, by decide⟩]
      msgs := [default, ⟨fun _ => 0, 0, [⟨some 68, true, [.sent 2]⟩]⟩] } ::
    (idleVisits 1 ++ { quietAnswers with readable := {67} } :: idleVisits 67))

/-- After the array has moved a message is dispatched although nothing has arrived. -/
theorem dispatched_again : ¬ ∀ (listenfd : Fin fdSetSize) (fds : Finset ℕ) (es : List Answers)
    (t : Tracker) (trace : List LoopEvent),
    run (traced loopStep loopEvents) (trackerInit listenfd fds, []) es = .ok (t, trace) →
      ∀ fd, (lineOn fd trace).ExactlyOnce := by
  intro h
  have hview : (run loopStep (trackerInit ⟨3, by decide⟩ {0, 1, 2}) movingRun).toOption.bind
      (fun t => (loopStep t quietAnswers).toOption.map fun _ => loopEvents t quietAnswers) =
      some [.received 67 [], .dispatched 67 (List.replicate 9 0, 9)] := by decide +kernel
  obtain ⟨t, ht, hstep⟩ := Option.bind_eq_some_iff.mp hview
  obtain ⟨t', ht', hevents⟩ := Option.map_eq_some_iff.mp hstep
  obtain ⟨trace, htrace⟩ := traced_of_run loopEvents (toOption_eq_some.mp ht)
  have htrace' : run (traced loopStep loopEvents) (trackerInit ⟨3, by decide⟩ {0, 1, 2}, [])
      (movingRun ++ [quietAnswers]) =
        .ok (t', trace ++ [.received 67 [], .dispatched 67 (List.replicate 9 0, 9)]) := by
    rw [run_concat, htrace, ok_bind, traced, toOption_eq_some.mp ht', ok_bind, hevents]
  have hbefore : (lineOn 67 trace).ExactlyOnce := h _ _ _ _ _ htrace 67
  have hafter : (lineOn 67 _).ExactlyOnce := h _ _ _ _ _ htrace' 67
  -- one more message was dispatched, and no more bytes were received
  have hline : lineOn 67 (trace ++ [.received 67 [], .dispatched 67 (List.replicate 9 0, 9)]) =
      ⟨(lineOn 67 trace).received,
        (lineOn 67 trace).dispatched ++ [(List.replicate 9 0, 9)]⟩ := by
    rw [lineOn_append]
    simp [Line.step]
  rw [hline, Line.ExactlyOnce, ← hbefore] at hafter
  exact List.cons_ne_nil _ _ (List.append_right_eq_self.mp hafter)

end Steps

end TinyMsg
