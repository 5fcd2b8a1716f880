import TinyMsg.Tracker.Apart

/-!
# The streams to the peers

A context that sends carries a stream: the bytes that the kernel took on its descriptor, and behind
them the bytes that wait in its `writebuf` (`Net.carried`).  Of the bytes handed over for an address
some go out at once, the others wait in a new `writebuf` or behind the ones that wait already, and
`NetSend` moves bytes from the `writebuf` to the kernel.  So what is carried to an address changes
with the calls of `send_msg_to_hostaddr` for it, by the bytes handed over, and with nothing else
(`Net.Carries`), as long as `send()` does not fail.  The contexts that send stay, so a connection is
opened for an address at most once, and no call before that hands over bytes that wait.
-/

namespace TinyMsg

/-- The bytes that went out on the descriptor of a context, and the ones that wait. -/
def Net.carried (n : Net) (c : SocketCtx) : List UInt8 :=
  n.accepted c.fd ++ (n.memory.buffer c.writebuf).contents

/-- What the contexts carry, and where to. -/
def Net.streams (n : Net) : List (HostAddr × List UInt8) :=
  n.contexts.map fun c => (c.toaddr, n.carried c)

/-- What is carried to an address. -/
def Net.stream (n : Net) (toaddr : HostAddr) : Option (List UInt8) :=
  (lookup Prod.fst n.streams toaddr).map Prod.snd

/-- Bytes are handed over for an address. -/
def appendStream (toaddr : HostAddr) (msgbytes : List UInt8) (x : HostAddr × List UInt8) :
    HostAddr × List UInt8 :=
  (x.1, if x.1 = toaddr then x.2 ++ msgbytes else x.2)

section Streams

variable {n n' : Net} {l : List SocketCtx} {c : SocketCtx} {toaddr a : HostAddr}
  {msgbytes : List UInt8} {i : ℕ}

/-- What a context carries depends on its descriptor and its `writebuf`. -/
theorem Net.carried_congr (haccepted : n'.accepted c.fd = n.accepted c.fd)
    (hbuffer : n'.memory.buffer c.writebuf = n.memory.buffer c.writebuf) :
    n'.carried c = n.carried c := by
  rw [Net.carried, haccepted, hbuffer, Net.carried]

/-- Where the contexts and what they carry are the same, the streams are. -/
theorem Net.streams_congr (hctxs : n'.contexts = n.contexts)
    (hcarried : ∀ c ∈ n.contexts, n'.carried c = n.carried c) : n'.streams = n.streams := by
  rw [Net.streams, hctxs, Net.streams]
  refine List.map_congr_left fun c hc => ?_
  rw [hcarried c hc]

/-- The stream of the context that is found for the address. -/
theorem Net.stream_eq (n : Net) (a : HostAddr) :
    n.stream a = (lookup SocketCtx.toaddr n.contexts a).map n.carried := by
  rw [Net.stream, Net.streams, lookup, List.find?_map, Option.map_map]
  rfl

/-- The stream is the same when the context for the address is, and what it carries. -/
theorem Net.stream_congr
    (hfound : lookup SocketCtx.toaddr n'.contexts a = lookup SocketCtx.toaddr n.contexts a)
    (hcarried : ∀ c ∈ n.contexts, n'.carried c = n.carried c) : n'.stream a = n.stream a := by
  rw [Net.stream_eq, Net.stream_eq, hfound]
  cases hc : lookup SocketCtx.toaddr n.contexts a with
  | none => rfl
  | some c =>
    rw [Option.map_some, Option.map_some, hcarried c (lookup_some hc).1]

/-- Only one context changes. -/
theorem Net.streams_of_set {f : HostAddr × List UInt8 → HostAddr × List UInt8}
    (hi : i < n.contexts.length) (hlist : n'.contexts = n.contexts.set i c)
    (hself : (c.toaddr, n'.carried c) = f (n.contexts[i].toaddr, n.carried n.contexts[i]))
    (hother : ∀ (j : ℕ) (hj : j < n.contexts.length), j ≠ i →
      (n.contexts[j].toaddr, n'.carried n.contexts[j]) =
        f (n.contexts[j].toaddr, n.carried n.contexts[j])) :
    n'.streams = n.streams.map f := by
  rw [Net.streams, hlist, Net.streams, List.map_map]
  refine List.ext_getElem (by simp) fun j hj hj' => ?_
  rw [List.getElem_map, List.getElem_map, Function.comp_apply]
  have hlt : j < n.contexts.length := by simpa using hj'
  by_cases hij : i = j
  · subst hij
    rw [List.getElem_set_self]
    exact hself
  · rw [List.getElem_set_ne hij]
    exact hother j hlt (Ne.symm hij)

/-- Bytes handed over for a context that is there. -/
theorem Net.stream_append (h : n'.streams = n.streams.map (appendStream toaddr msgbytes))
    {out : Handover} (hout : out ≠ .opened) (a : HostAddr) :
    n'.stream a = streamStep a (n.stream a) (.sent toaddr msgbytes out) := by
  have hkeys : ∀ x, (appendStream toaddr msgbytes x).1 = x.1 := fun _ => rfl
  rw [Net.stream, h, lookup_map hkeys, Net.stream, streamStep]
  cases hx : lookup Prod.fst n.streams a with
  | none =>
    split <;> rfl
  | some x =>
    obtain ⟨-, hkey⟩ := lookup_some hx
    by_cases hto : toaddr = a
    · rw [if_pos hto, if_neg hout, hto]
      simp [appendStream, hkey]
    · have hne : x.1 ≠ toaddr := fun heq => hto (heq.symm.trans hkey)
      rw [if_neg hto]
      simp [appendStream, hne]

/-- Bytes for which a context is made. -/
theorem Net.stream_open (h : n'.streams = n.streams ++ [(toaddr, msgbytes)])
    (hfresh : ∀ c ∈ n.contexts, c.toaddr ≠ toaddr) (a : HostAddr) :
    n'.stream a = streamStep a (n.stream a) (.sent toaddr msgbytes .opened) := by
  have hnone : lookup Prod.fst n.streams toaddr = none := by
    refine lookup_eq_none_iff.mpr fun x hx => ?_
    obtain ⟨c, hc, rfl⟩ := List.mem_map.mp hx
    exact hfresh c hc
  rw [Net.stream, h, lookup_append hnone, streamStep]
  by_cases hto : toaddr = a
  · rw [if_pos hto.symm, if_pos hto, if_pos rfl]
    rfl
  · rw [if_neg (Ne.symm hto), if_neg hto]
    rfl

/-- Contexts with different addresses have different indices. -/
theorem Net.WF.fd_ne (hn : n.WF) {j : ℕ} (hi : i < n.contexts.length)
    (hj : j < n.contexts.length) (hne : j ≠ i) : n.contexts[j].fd ≠ n.contexts[i].fd := by
  intro heq
  have hsame := List.inj_on_of_nodup_map hn.fds_nodup (List.getElem_mem hj) (List.getElem_mem hi)
    heq
  exact hne ((List.Nodup.of_map _ hn.fds_nodup).getElem_inj_iff.mp hsame)

/-- A call of `send_msg_to_hostaddr` shows in the stream for its address. -/
theorem Net.SentBy.stream {calls calls' : List ConnectCall} (hn : n.WF) (hl : n.Around l)
    (hone : ∀ c ∈ n.contexts, ∀ d ∈ n.contexts, c.toaddr = d.toaddr → c.toaddr ≠ 0 → c.fd = d.fd)
    (h0 : toaddr ≠ 0) {out : Handover} (h : n.SentBy calls msgbytes toaddr n' calls' out)
    (a : HostAddr) : n'.stream a = streamStep a (n.stream a) (.sent toaddr msgbytes out) := by
  cases h with
  | @queued i hi haddr =>
    obtain ⟨c, hfd, hto, hput, hlist⟩ := hn.queued_stored hi msgbytes
    have hmem := hl.contexts _ (List.getElem_mem hi)
    have hcontexts : Net.contexts
        { n with memory := n.memory.appendWritebuf ⟨n.socketctxs.items, i⟩ msgbytes } =
          n.contexts.set i c := hlist
    refine Net.stream_append (Net.streams_of_set hi hcontexts ?_ fun j hj hne => ?_)
      Handover.noConfusion a
    · have hself := hput.buffer_self
      change _ = ((n.contexts[i].toaddr, if n.contexts[i].toaddr = toaddr then _ else _) :
        HostAddr × List UInt8)
      rw [if_pos haddr, hto, Net.carried, hfd]
      change (_, _ ++ (Memory.buffer _ (c.buf .write)).contents) = _
      rw [hself, bufferAppend_contents, Net.carried, List.append_assoc]
    · have hfd' := hn.fd_ne hi hj hne
      have hne' : n.contexts[j].toaddr ≠ toaddr := fun heq =>
        hfd' (hone _ (List.getElem_mem hj) _ (List.getElem_mem hi) (heq.trans haddr.symm)
          (fun hzero => h0 (heq.symm.trans hzero)))
      change _ = ((n.contexts[j].toaddr, if n.contexts[j].toaddr = toaddr then _ else _) :
        HostAddr × List UInt8)
      rw [if_neg hne']
      have hbuffer : (n.memory.appendWritebuf ⟨n.socketctxs.items, i⟩ msgbytes).buffer
          (n.contexts[j].buf .write) = n.memory.buffer (n.contexts[j].buf .write) :=
        hput.buffer_ne hl.apart hmem (hl.contexts _ (List.getElem_mem hj))
          fun heq => hfd' (Prod.mk.inj heq).1
      exact congrArg _ (Net.carried_congr rfl hbuffer)
  | @opened n₂ n' call calls' destfd taken sendbuf hfresh _ _ hnew hbytes hmemory hctxs haccepted
      hlater =>
    obtain ⟨c, hcfd, hcto, hacc, hc⟩ := hl.later hn hnew hmemory hctxs hlater
    refine Net.stream_open ?_ hfresh a
    rw [Net.streams, hc.contexts, List.map_append, List.map_singleton, Net.streams]
    congr 1
    · refine List.map_congr_left fun d hd => ?_
      have hne : d.fd ≠ destfd := fun heq => hnew (heq ▸ hn.fds_open d hd)
      refine congrArg _ (Net.carried_congr ?_ (hc.buffer d (hl.contexts d hd) .write))
      rw [hacc, haccepted, Function.update_of_ne hne]
    · rw [Net.carried, hacc, haccepted, hcfd, Function.update_self, hc.pending, hbytes, hcto]
  | unchanged hfresh _ hmemory hctxs haccepted _ =>
    have hcontexts : n'.contexts = n.contexts := by
      rw [Net.contexts, hmemory, hctxs]
      rfl
    have hstreams : n'.streams = n.streams := by
      refine Net.streams_congr hcontexts fun c hc => Net.carried_congr ?_ ?_
      · exact haccepted _ (hn.fds_open c hc)
      · rw [hmemory]
    refine Net.stream_append (hstreams.trans ?_) Handover.noConfusion a
    refine (List.map_id _).symm.trans (List.map_congr_left fun x hx => ?_)
    obtain ⟨c, hc, rfl⟩ := List.mem_map.mp hx
    rw [appendStream, if_neg (hfresh c hc)]
    rfl

/-- What becomes of bytes for an address depends on whether there is a stream to it. -/
def Handover.Orderly (stream : Option (List UInt8)) (msgbytes : List UInt8) : Handover → Prop
  | .queued => stream ≠ none
  | .opened => stream = none
  | .closed ret taken => stream = none ∧ SentAtOnce msgbytes ret taken

/-- A call appends to the stream that is there; else it opens one, or is done with the message. -/
theorem Net.SentBy.orderly {calls calls' : List ConnectCall} {out : Handover}
    (h : n.SentBy calls msgbytes toaddr n' calls' out) :
    out.Orderly (n.stream toaddr) msgbytes := by
  have hnone : (∀ c ∈ n.contexts, c.toaddr ≠ toaddr) → n.stream toaddr = none := by
    intro hfresh
    rw [Net.stream_eq, lookup_eq_none_iff.mpr hfresh, Option.map_none]
  cases h with
  | queued hi haddr =>
    intro hstream
    rw [Net.stream_eq, Option.map_eq_none_iff] at hstream
    exact lookup_eq_none_iff.mp hstream _ (List.getElem_mem hi) haddr
  | opened hfresh _ _ _ _ _ _ _ _ => exact hnone hfresh
  | unchanged hfresh _ _ _ _ honce => exact ⟨hnone hfresh, honce⟩

end Streams

/-! ## What is kept of the streams -/

/-- The streams have changed by what was handed over in the calls on record. -/
structure Net.Carries (n n' : Net) (evs : List LoopEvent) : Prop where
  /-- To an address is carried what was handed over for it. -/
  stream : ∀ a : HostAddr, a ≠ 0 → n'.stream a = evs.foldl (streamStep a) (n.stream a)
  /-- All calls are for an address, and what becomes of the bytes depends on the stream to it. -/
  calls : ∀ before toaddr msgbytes out after,
    evs = before ++ LoopEvent.sent toaddr msgbytes out :: after →
    toaddr ≠ 0 ∧ out.Orderly (before.foldl (streamStep toaddr) (n.stream toaddr)) msgbytes

section Carries

variable {n n' n'' : Net} {evs evs' : List LoopEvent} {fd : ℕ}

/-- Where nothing was handed over the streams are the same. -/
theorem Net.carries_nil (h : ∀ a : HostAddr, a ≠ 0 → n'.stream a = n.stream a) :
    n.Carries n' [] :=
  ⟨h, fun before _ _ _ _ hsplit => absurd hsplit (by cases before <;> exact nofun)⟩

theorem Net.carries_of_streams (h : n'.streams = n.streams) : n.Carries n' [] :=
  Net.carries_nil fun a _ => by rw [Net.stream, h, Net.stream]

/-- The address of a call is not that of the contexts that receive. -/
theorem Net.Carries.toaddr_ne_zero (h : n.Carries n' evs) {toaddr : HostAddr}
    {msgbytes : List UInt8} {out : Handover} (hmem : .sent toaddr msgbytes out ∈ evs) :
    toaddr ≠ 0 := by
  obtain ⟨before, after, hsplit⟩ := List.append_of_mem hmem
  exact (h.calls before toaddr msgbytes out after hsplit).1

theorem Net.Carries.trans (h : n.Carries n' evs) (h' : n'.Carries n'' evs') :
    n.Carries n'' (evs ++ evs') := by
  refine ⟨fun a ha => ?_, fun before toaddr msgbytes out after hsplit => ?_⟩
  · rw [h'.stream a ha, h.stream a ha, List.foldl_append]
  · rcases append_eq_append_cons hsplit with ⟨rest, rfl, hrest⟩ | ⟨rest, hevs⟩
    · obtain ⟨h0, hout⟩ := h'.calls _ _ _ _ _ hrest
      rw [h.stream toaddr h0] at hout
      rw [List.foldl_append]
      exact ⟨h0, hout⟩
    · exact h.calls _ _ _ _ _ hevs

/-- The other events do not show in the streams. -/
theorem Net.Carries.cons (h : n.Carries n' evs) (ev : LoopEvent)
    (hev : ∀ toaddr msgbytes out, ev ≠ .sent toaddr msgbytes out) :
    n.Carries n' (ev :: evs) := by
  have hstep : ∀ (a : HostAddr) stream, streamStep a stream ev = stream := by
    intro a stream
    cases ev with
    | sent toaddr msgbytes out => exact absurd rfl (hev toaddr msgbytes out)
    | accepted fd => rfl
    | received fd bytes => rfl
    | dispatched fd message => rfl
  have hone : n.Carries n [ev] := by
    refine ⟨fun a _ => (hstep a _).symm, fun before toaddr msgbytes out after hsplit => ?_⟩
    have hmem : .sent toaddr msgbytes out ∈ [ev] := hsplit ▸ by simp
    exact absurd (List.mem_singleton.mp hmem).symm (hev toaddr msgbytes out)
  exact hone.trans h

/-- Closing an accepted connection does not show in the streams. -/
theorem Net.Closed.carries (h : n.Closed n' fd)
    (hfd : ∀ c ∈ n.contexts, c.fd = fd → c.toaddr = 0) : n.Carries n' [] := by
  refine Net.carries_nil fun a ha => ?_
  have hfound : lookup SocketCtx.toaddr n'.contexts a = lookup SocketCtx.toaddr n.contexts a := by
    rw [h.contexts]
    refine lookup_filter_of fun c hc hto => decide_eq_true fun heq => ha ?_
    exact hto.symm.trans (hfd c hc heq)
  rcases h.buffers with hnil | ⟨hbytes, -⟩
  · rw [Net.stream_eq, Net.stream_eq, ← hfound, hnil]
    rfl
  · refine Net.stream_congr hfound fun c _ => ?_
    exact Net.carried_congr (congrFun h.accepted _) (Memory.buffer_congr (congrFun hbytes _))

end Carries

/-! ## The read branch -/

section Reading

variable {w₀ : Watch} {l₀ : Link} {ctx : CtxPtr} {p p' : Peers} {n n' : Net}

/-- Storing what is left of a `readbuf` does not show in the streams. -/
theorem Tending.putReadbuf_carries (h : Tending w₀ l₀ ctx p n) (buf : Buffer) (msglen : ℕ) :
    n.Carries { n with memory := n.memory.putReadbuf ctx buf msglen } [] := by
  have hstored := h.array.putReadbuf_stored h.valid buf msglen
  have hput := hstored.toPutBack
  have hmem : n.memory.ctx ctx ∈ n.memory.ctx ctx :: n.contexts := List.mem_cons_self
  have hother : ∀ d ∈ n.memory.ctx ctx :: n.contexts,
      (n.memory.putReadbuf ctx buf msglen).buffer (d.buf .write) =
        n.memory.buffer (d.buf .write) := fun d hd =>
    hput.buffer_ne h.apart hmem hd fun heq => nomatch (Prod.mk.inj heq).2
  obtain ⟨n', hn'⟩ : ∃ n' : Net, n' = { n with memory := n.memory.putReadbuf ctx buf msglen } :=
    ⟨_, rfl⟩
  have hcarried : ∀ d ∈ n'.contexts, n'.carried d = n.carried d := by
    intro d hd
    subst hn'
    refine Net.carried_congr rfl ?_
    rcases hstored.mem d hd with rfl | hd
    · exact hother (n.memory.ctx ctx) hmem
    · exact hother d (List.mem_cons_of_mem _ hd)
  rw [← hn']
  refine Net.carries_of_streams ?_
  have hsame : (n'.contexts.map fun c => (c.toaddr, n.carried c)) = n.streams := by
    have harray := h.array.of_ctxs (n.memory.putBuffer_ctxs (n.memory.ctx ctx).readbuf buf)
      (n.memory.pos_le_putBuffer _ _)
    obtain ⟨hvalid, hctx⟩ := Memory.keeps_of_ctxs
      (n.memory.putBuffer_ctxs (n.memory.ctx ctx).readbuf buf)
      (n.memory.pos_le_putBuffer _ _) ctx h.valid
    have hlist : (n.memory.putBuffer (n.memory.ctx ctx).readbuf buf).1.list n.socketctxs =
        n.contexts := Memory.list_congr (by rw [Memory.putBuffer_ctxs])
    rw [Net.streams, ← hlist, hn']
    refine harray.map_setCtx hvalid ?_
    rw [hctx]
    rfl
  rw [← hsame, Net.streams]
  refine List.map_congr_left fun d hd => ?_
  rw [hcarried d hd]

/-- The calls of `send_msg_to_hostaddr` by `handle_msg` show in the streams. -/
theorem Tending.sends_carries (hw₀ : w₀.WF) (hl₀ : l₀ ∈ w₀.links) (h0 : l₀.toaddr = 0)
    {calls calls' : List ConnectCall} {sends : List Send} {trace : List LoopEvent}
    (h : Tending w₀ l₀ ctx p n) (hto : ∀ x ∈ sends, x.toaddr ≠ 0)
    (hrun : TinyMsg.run (traced sendPeerMsg sendEvents) ((n, calls), []) sends =
      .ok ((n', calls'), trace)) : n.Carries n' trace := by
  have hstep : ∀ (s : (Net × List ConnectCall) × List LoopEvent) (x : Send) s',
      Tending w₀ l₀ ctx p s.1.1 ∧ n.Carries s.1.1 s.2 → x.toaddr ≠ 0 →
      traced sendPeerMsg sendEvents s x = .ok s' →
      Tending w₀ l₀ ctx p s'.1.1 ∧ n.Carries s'.1.1 s'.2 := by
    rintro s x s' ⟨htend, hcarries⟩ hx hs'
    obtain ⟨s₁, hs₁, heq⟩ := bind_eq_ok.mp hs'
    obtain rfl := Except.ok.inj heq
    have hw := hw₀.steps htend.sends.steps
    obtain ⟨htend', hsent, -⟩ := htend.send hw₀ hl₀ h0 hx hs₁
    refine ⟨htend', hcarries.trans ⟨fun a ha => ?_, fun before _ _ _ _ hsplit => ?_⟩⟩
    · refine hsent.stream (htend.net hw₀) (htend.around hw₀ hl₀ h0) (fun c hc d hd => ?_) hx a
      exact hw.toaddr_inj _ (List.mem_map_of_mem hc) _ (List.mem_map_of_mem hd)
    · -- the call is the only one on record
      obtain ⟨rfl, hhead⟩ : before = [] ∧ _ := by
        cases before with
        | nil => exact ⟨rfl, List.head_eq_of_cons_eq hsplit⟩
        | cons ev before => simp [sendEvents] at hsplit
      obtain ⟨rfl, rfl, rfl⟩ := LoopEvent.sent.inj hhead
      exact ⟨hx, hsent.orderly⟩
  exact (run_of_good ⟨h, Net.carries_of_streams rfl⟩ hstep
    (fun fs x s hfs _ => hto x (hfs.subset (by simp))) hrun).2

/-- So do the calls in the loop over the received bytes. -/
theorem Tending.frameLoop_carries (hw₀ : w₀.WF) (hl₀ : l₀ ∈ w₀.links) (h0 : l₀.toaddr = 0)
    (h : Tending w₀ l₀ ctx p n) (fd : ℕ) {fuel : ℕ} {envs : List MsgEnv}
    {readEof readEof' : Bool}
    (hloop : trackerFrameLoop ctx fuel envs readEof p n = .ok (p', n', readEof')) :
    Tending w₀ l₀ ctx p' n' ∧ n.Carries n' (frameLoopEvents fd ctx fuel envs p n) := by
  have hstart : n.Carries n [] := Net.carries_of_streams rfl
  refine h.frameLoop hw₀ hl₀ h0 ?_ ?_ hstart hloop
  · intro p₁ n₁ buf msglen evs htend hcarries
    have hput := hcarries.trans (htend.putReadbuf_carries buf msglen)
    rwa [List.append_nil] at hput
  · intro p₁ n₁ n₂ calls calls' sends message trace evs htend hto hrun hcarries
    have hsends := htend.sends_carries hw₀ hl₀ h0 hto hrun
    exact hcarries.trans (hsends.cons _ fun _ _ _ => LoopEvent.noConfusion)

/-- Closing the connection at the end of the branch leaves the streams and the other blocks. -/
theorem Tending.closed_carries (hw₀ : w₀.WF) (hl₀ : l₀ ∈ w₀.links) (h0 : l₀.toaddr = 0)
    (h : Tending w₀ l₀ ctx p n) (hclosed : n.Closed n' l₀.fd) :
    n'.memory.Apart n'.contexts ∧ n.Carries n' [] := by
  have hw := hw₀.steps h.sends.steps
  constructor
  · rcases hclosed.buffers with hnil | ⟨-, hpos⟩
    · rw [hnil]
      exact n'.memory.apart_nil
    · refine h.apart.mono hpos.ge fun d hd => ?_
      rw [hclosed.contexts] at hd
      exact List.mem_cons_of_mem _ (List.mem_of_mem_filter hd)
  · refine hclosed.carries fun c hc hfd => ?_
    have hsame := hw.link_inj (List.mem_map_of_mem hc) (h.sends.incoming _ hl₀ h0) hfd
    exact (congrArg Link.toaddr hsame).trans h0

end Reading

/-! ## The steps of the loop -/

section Steps

variable {t t' : Tracker} {a : Answers} {goOn : Bool}

/-- Receiving shows in the streams through the calls that `handle_msg` makes. -/
theorem readBranch_carries (ht : t.WF) (hapart : t.net.memory.Apart t.contexts)
    (hi : t.i ∈ t.readfds) (hne : t.i ≠ t.listenfd) (h : readBranch t a = .ok (t', goOn)) :
    t'.net.memory.Apart t'.contexts ∧ t.net.Carries t'.net (readEvents t a) := by
  obtain ⟨c, ctx, readbuf, p, n, readEof, hreading⟩ := readBranch_reading ht hapart hi hne h
  have hl₀ : c.link ∈ t.watch.links := List.mem_map_of_mem hreading.mem
  have hput := hreading.tending.putReadbuf_carries readbuf c.msglen
  obtain ⟨htending', hloopCarries⟩ := (hreading.tending.putReadbuf _ _).frameLoop_carries
    ht.watch hl₀ hreading.toaddr t.i hreading.loop
  have hcarries := hput.trans hloopCarries
  rw [List.nil_append] at hcarries
  have hevents := hcarries.cons (.received t.i (received a.recvs))
    fun _ _ _ => LoopEvent.noConfusion
  rw [← hreading.events] at hevents
  cases hreadEof : readEof with
  | true =>
    obtain ⟨hapart', hend⟩ :=
      htending'.closed_carries ht.watch hl₀ hreading.toaddr (hreading.closed hreadEof)
    have htrans := hevents.trans hend
    rw [List.append_nil] at htrans
    exact ⟨hapart', htrans⟩
  | false =>
    rw [Tracker.contexts, hreading.goesOn hreadEof]
    exact ⟨htending'.apart.mono le_rfl fun d hd => List.mem_cons_of_mem _ hd, hevents⟩

/-- A new connection does not show in the streams. -/
theorem acceptBranch_carries (ht : t.WF) (hapart : t.net.memory.Apart t.contexts)
    (h : acceptBranch t a = .ok (t', goOn)) :
    t'.net.memory.Apart t'.contexts ∧ t.net.Carries t'.net (acceptEvents a) := by
  have hother : ∀ fd ∉ t.net.fds, ∀ c ∈ t.contexts,
      Function.update t.net.accepted fd [] c.fd = t.net.accepted c.fd := by
    intro fd hnew c hc
    have hne : c.fd ≠ fd := fun heq => hnew (heq ▸ ht.net.fds_open c hc)
    exact Function.update_of_ne hne _ _
  unfold acceptBranch at h
  unfold acceptEvents
  cases haccept : a.accept with
  | failed =>
    simp only [haccept] at h
    obtain ⟨rfl, -⟩ := Prod.mk.inj (Except.ok.inj h)
    exact ⟨hapart, Net.carries_of_streams rfl⟩
  | other fd =>
    simp only [haccept] at h
    obtain ⟨n, hopen, heq⟩ := bind_eq_ok.mp h
    obtain ⟨hnew, rfl⟩ := (openFd_meets _ _).of_ok hopen
    obtain ⟨rfl, -⟩ := Prod.mk.inj (Except.ok.inj heq)
    refine ⟨hapart, Net.carries_of_streams (Net.streams_congr rfl fun c hc => ?_)⟩
    exact Net.carried_congr (hother fd hnew c hc) rfl
  | ipv4 fd sa =>
    simp only [haccept] at h
    obtain ⟨n, hopen, h⟩ := bind_eq_ok.mp h
    obtain ⟨hnew, rfl⟩ := (openFd_meets _ _).of_ok hopen
    split at h
    · cases h
    obtain ⟨⟨m, ctxs, p⟩, hnewctx, h⟩ := bind_eq_ok.mp h
    obtain ⟨readfds, -, heq⟩ := bind_eq_ok.mp h
    obtain ⟨rfl, -⟩ := Prod.mk.inj (Except.ok.inj heq)
    obtain ⟨hlist, hbytes, hpos, -, -⟩ := socketCtxNew_ok hnewctx
    obtain ⟨c, hc⟩ : ∃ c, c = ctxNew fd (hostAddrFromSockAddr sa) 0 (t.net.memory.bufferNew 64).2
      ((t.net.memory.bufferNew 64).1.bufferNew 1).2 := ⟨_, rfl⟩
    replace hlist : m.list ctxs = t.contexts ++ [c] := hc ▸ hlist
    have hapart' : m.Apart (c :: t.contexts) :=
      hapart.bufferNew (by rw [hc]; rfl) (by rw [hc]; rfl) hpos
    constructor
    · refine hapart'.mono le_rfl fun d hd => ?_
      have hd' : d ∈ t.contexts ++ [c] := hlist ▸ hd
      rcases List.mem_append.mp hd' with hd | hd
      · exact List.mem_cons_of_mem _ hd
      · exact List.mem_cons.mpr (Or.inl (List.mem_singleton.mp hd))
    · refine (Net.carries_nil fun a ha => ?_).cons _ fun _ _ _ => LoopEvent.noConfusion
      refine Net.stream_congr ?_ fun d hd => ?_
      · have hne : ¬ c.toaddr = a := by
          rw [hc]
          exact fun heq => ha heq.symm
        have hfound : lookup SocketCtx.toaddr (t.contexts ++ [c]) a =
            lookup SocketCtx.toaddr t.contexts a := by
          rw [lookup_append_cons, if_neg hne, lookup_nil, Option.or_none]
        rw [← hlist] at hfound
        exact hfound
      · exact Net.carried_congr (hother fd hnew d hd) (hapart.buffer_bufferNew hbytes hd .write)

/-- Without an error the write branch only stores the `writebuf`. -/
theorem Net.afterWrite_stored (n : Net) (fd : ℕ) (ctx : CtxPtr) {ret : ℤ} (rest : Buffer)
    (hret : ret = 0 ∨ ret = 1) :
    (n.afterWrite fd ctx ret rest).memory = n.memory.putWritebuf ctx rest ∧
      (n.afterWrite fd ctx ret rest).socketctxs = n.socketctxs ∧
      (n.afterWrite fd ctx ret rest).accepted = n.accepted := by
  unfold Net.afterWrite
  rcases hret with rfl | rfl
  · exact ⟨rfl, rfl, rfl⟩
  · exact ⟨rfl, rfl, rfl⟩

/-- Sending without an error moves bytes of a stream from the `writebuf` to the kernel. -/
theorem writeBranch_carries (ht : t.WF) (hapart : t.net.memory.Apart t.contexts)
    (hi : t.i ∈ t.net.writefds) (hsends : .error ∉ a.sends) (h : writeBranch t a = .ok t') :
    t'.net.memory.Apart t'.contexts ∧ t.net.Carries t'.net [] := by
  obtain ⟨i, hlt, n₁, buf, hfd, -, hbuf, hsent, hrun⟩ := writeBranch_eq (a := a) ht hi
  obtain rfl := Except.ok.inj (hrun.symm.trans h)
  obtain ⟨hbytes, -, hret⟩ := netSend_spec a.sends buf
  have hone := (or_assoc.mpr hret).resolve_right (netSend_ne_error hsends buf)
  obtain ⟨hmemory, hctxs, haccepted⟩ := n₁.afterWrite_stored t.i ⟨t.net.socketctxs.items, i⟩
    (netSend a.sends buf).buf hone
  obtain ⟨c, hcfd, hcto, hput, hlist⟩ := ht.net.writebuf_stored hlt (netSend a.sends buf).buf
  rw [hsent.memory] at hmemory
  rw [hsent.socketctxs] at hctxs
  rw [hsent.accepted] at haccepted
  rw [← hmemory] at hput hlist
  obtain ⟨n', hn'⟩ : ∃ n', n' = n₁.afterWrite t.i ⟨t.net.socketctxs.items, i⟩
    (netSend a.sends buf).ret (netSend a.sends buf).buf := ⟨_, rfl⟩
  rw [← hn'] at hmemory hctxs haccepted hput hlist
  rw [← hctxs] at hlist
  change (Net.memory _).Apart (Net.contexts _) ∧ t.net.Carries _ []
  rw [← hn']
  constructor
  · refine hapart.putBack (List.getElem_mem hlt) hput fun d hd => ?_
    have hd' : d ∈ t.contexts.set i c := hlist ▸ hd
    exact (List.mem_or_eq_of_mem_set hd').symm
  · refine Net.carries_of_streams ?_
    rw [← List.map_id t.net.streams]
    refine Net.streams_of_set hlt hlist ?_ fun j hj hne => ?_
    · have hself : n'.memory.buffer c.writebuf = (netSend a.sends buf).buf := hput.buffer_self
      have hcfd' : c.fd = t.i := hcfd.trans hfd
      have hfd' : t.net.contexts[i].fd = t.i := hfd
      rw [id_eq, hcto, Net.carried, Net.carried, haccepted, hcfd', Function.update_self, hself,
        List.append_assoc, hbytes, hbuf, hfd']
      rfl
    · have hne' := ht.net.fd_ne hlt hj hne
      have hbuffer : n'.memory.buffer (t.net.contexts[j].buf .write) =
          t.net.memory.buffer (t.net.contexts[j].buf .write) :=
        hput.buffer_ne hapart (List.getElem_mem hlt) (List.getElem_mem hj)
          fun heq => hne' (Prod.mk.inj heq).1
      refine congrArg _ (Net.carried_congr ?_ hbuffer)
      have hfd' : t.net.contexts[i].fd = t.i := hfd
      rw [haccepted, Function.update_of_ne (hfd' ▸ hne')]

/-- A step of the loop. -/
theorem loopStep_carries (ht : t.WF) (hapart : t.net.memory.Apart t.contexts)
    (hsends : .error ∉ a.sends) (h : loopStep t a = .ok t') :
    t'.net.memory.Apart t'.contexts ∧ t.net.Carries t'.net (loopEvents t a) := by
  have hstepped := loopStep_stepped ht h
  generalize loopEvents t a = evs at hstepped
  cases hstepped with
  | idle hnet =>
    rw [Tracker.contexts, hnet]
    exact ⟨hapart, Net.carries_of_streams rfl⟩
  | accept hbranch =>
    have hkept := acceptBranch_carries ht hapart hbranch
    exact hkept
  | read _ _ hread hne hbranch =>
    have hkept := readBranch_carries ht hapart hread hne hbranch
    exact hkept
  | write hwrite hbranch =>
    have hkept := writeBranch_carries ht hapart hwrite hsends hbranch
    exact hkept

/-- Where no call is for an address, none opens a connection to it. -/
theorem streamTo_eq_none {toaddr : HostAddr} {trace : List LoopEvent}
    (h : ∀ msgbytes out, .sent toaddr msgbytes out ∉ trace) :
    streamTo toaddr trace = none := by
  induction trace using List.reverseRecOn with
  | nil => rfl
  | append_singleton trace ev ih =>
    have hbefore := ih fun msgbytes out hmem => h _ _ (List.mem_append_left _ hmem)
    have hlast : ∀ msgbytes out, ev ≠ .sent toaddr msgbytes out := fun _ _ heq =>
      h _ _ (List.mem_append_right _ (List.mem_singleton.mpr heq.symm))
    rw [streamTo] at hbefore
    rw [streamTo, List.foldl_append, hbefore]
    cases ev with
    | sent toaddr' msgbytes out =>
      have hne : toaddr' ≠ toaddr := fun heq => hlast msgbytes out (heq ▸ rfl)
      rw [List.foldl_cons, streamStep, if_neg hne]
      rfl
    | accepted fd => rfl
    | received fd bytes => rfl
    | dispatched fd message => rfl

/-- The stream of a context that sends is the one for its address. -/
theorem Tracker.WF.stream_of_mem (ht : t.WF) {c : SocketCtx} (hc : c ∈ t.contexts)
    (h0 : c.toaddr ≠ 0) : t.net.stream c.toaddr = some (t.net.carried c) := by
  rw [Net.stream_eq]
  cases hfound : lookup SocketCtx.toaddr t.net.contexts c.toaddr with
  | none => exact absurd rfl (lookup_eq_none_iff.mp hfound c hc)
  | some d =>
    obtain ⟨hd, hto⟩ := lookup_some hfound
    have hfd : d.fd = c.fd := ht.watch.toaddr_inj _ (List.mem_map_of_mem hd) _
      (List.mem_map_of_mem hc) hto (fun hzero => h0 (hto.symm.trans hzero))
    obtain rfl : d = c := List.inj_on_of_nodup_map ht.net.fds_nodup hd hc hfd
    rfl

/-! ## Whole runs -/

/-- What the calls on record have handed over is carried after a run in which `send()` does not fail
in the write branch. -/
theorem loopRun_carries {listenfd : Fin fdSetSize} {fds : Finset ℕ} {es : List Answers}
    (hsends : ∀ a ∈ es, .error ∉ a.sends) {trace : List LoopEvent}
    (hrun : run (traced loopStep loopEvents) (trackerInit listenfd fds, []) es = .ok (t, trace)) :
    t.WF ∧ (trackerInit listenfd fds).net.Carries t.net trace := by
  have hstep : ∀ (s : Tracker × List LoopEvent) (a : Answers) s',
      s.1.WF ∧ s.1.net.memory.Apart s.1.contexts ∧
        (trackerInit listenfd fds).net.Carries s.1.net s.2 →
      .error ∉ a.sends → traced loopStep loopEvents s a = .ok s' →
      s'.1.WF ∧ s'.1.net.memory.Apart s'.1.contexts ∧
        (trackerInit listenfd fds).net.Carries s'.1.net s'.2 := by
    rintro s a s' ⟨ht, hapart, hcarries⟩ ha hs'
    obtain ⟨t₁, ht₁, heq⟩ := bind_eq_ok.mp hs'
    obtain rfl := Except.ok.inj heq
    obtain ⟨hapart', hevents⟩ := loopStep_carries ht hapart ha ht₁
    exact ⟨loopStep_wf ht ht₁, hapart', hcarries.trans hevents⟩
  have hinit : (trackerInit listenfd fds).net.memory.Apart (trackerInit listenfd fds).contexts :=
    Memory.apart_nil _
  obtain ⟨ht, -, hcarries⟩ := run_of_good
    ⟨trackerInit_wf listenfd fds, hinit, Net.carries_of_streams rfl⟩ hstep
    (fun fs a s hfs _ => hsends a (hfs.subset (by simp))) hrun
  exact ⟨ht, hcarries⟩

/-- In every run in which `send()` does not fail in the write branch, a connection that was opened
for an address has a context for it, and every context that sends has handed to the kernel and
still holds, in this order, exactly the bytes handed over for its address since its connection was
opened. -/
theorem streams_kept (listenfd : Fin fdSetSize) (fds : Finset ℕ) (es : List Answers)
    (hsends : ∀ a ∈ es, .error ∉ a.sends) {trace : List LoopEvent}
    (hrun : run (traced loopStep loopEvents) (trackerInit listenfd fds, []) es = .ok (t, trace)) :
    (∀ toaddr stream, streamTo toaddr trace = some stream →
      toaddr ≠ 0 ∧ ∃ c ∈ t.contexts, c.toaddr = toaddr) ∧
      ∀ c ∈ t.contexts, c.toaddr ≠ 0 → streamTo c.toaddr trace =
        some (t.net.accepted c.fd ++ (t.net.memory.buffer c.writebuf).contents) := by
  obtain ⟨ht, hcarries⟩ := loopRun_carries hsends hrun
  have hstream : ∀ toaddr : HostAddr, toaddr ≠ 0 →
      t.net.stream toaddr = streamTo toaddr trace := hcarries.stream
  constructor
  · intro toaddr stream hsome
    have h0 : toaddr ≠ 0 := by
      rintro rfl
      rw [streamTo_eq_none fun _ _ hmem => hcarries.toaddr_ne_zero hmem rfl] at hsome
      cases hsome
    rw [← hstream toaddr h0, Net.stream_eq] at hsome
    obtain ⟨c, hfound, -⟩ := Option.map_eq_some_iff.mp hsome
    exact ⟨h0, c, lookup_some hfound⟩
  · intro c hc h0
    rw [← hstream c.toaddr h0, ht.stream_of_mem hc h0]
    rfl

/-- A peer is announced to itself over a slow socket, and knocks again. -/
theorem streams_kept_announcing : ∃ t trace,
    run (traced loopStep loopEvents) (trackerInit ⟨3, by decide⟩ {0, 1, 2}, []) abandoningRun =
      .ok (t, trace) ∧
    (t.contexts.map fun c => (c.fd, c.writebuf.len)) = [(4, 0), (5, 50)] ∧
    ∀ c ∈ t.contexts, c.toaddr ≠ 0 → streamTo c.toaddr trace =
      some (t.net.accepted c.fd ++ (t.net.memory.buffer c.writebuf).contents) := by
  have hview : (run loopStep (trackerInit ⟨3, by decide⟩ {0, 1, 2}) abandoningRun).toOption.map
      (fun t => t.contexts.map fun c => (c.fd, c.writebuf.len)) = some [(4, 0), (5, 50)] := by
    decide +kernel
  obtain ⟨t, ht, hctxs⟩ := Option.map_eq_some_iff.mp hview
  obtain ⟨trace, htrace⟩ := traced_of_run loopEvents (toOption_eq_some.mp ht)
  exact ⟨t, trace, htrace, hctxs, (streams_kept _ _ abandoningRun (by decide) htrace).2⟩

end Steps

end TinyMsg
