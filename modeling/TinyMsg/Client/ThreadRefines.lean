import TinyMsg.Client.ThreadFrames

/-!
# The client as its receiving thread makes it

A run of both threads is a run of `clientInputStep` over the messages handled and what the GUI
thread does, in the order in which this is seen (`thread_refines`).  So what holds of every such
run holds of the client with its thread, and there every message is a frame in the bytes of a
connection: a text that is stored was one from an address with a record (`thread_texts_framed`), and
before the tracker's host has connected nothing that arrives changes the client
(`thread_strangers`).
-/

namespace TinyMsg

/-- What an event is for the client. -/
def ThreadEvent.input : ThreadEvent → Option ClientInput
  | .handled _ r => some (.recv r)
  | .gui e => some e.input
  | _ => none

/-- What a record is for the client. -/
def clientInputs (trace : List ThreadEvent) : List ClientInput := trace.filterMap ThreadEvent.input

section Refines

variable {gTrackerAddr : HostAddr} {p p' : ClientProc} {a : ThreadAnswers} {e : ProcInput}
  {evs trace : List ThreadEvent} {client : Client} {start : StartAnswers} {es : List ProcInput}
  {p₀ : ClientProc} {fd : ℕ} {r : Received}

/-- A step of the receiving thread is none for the client, or handles a message. -/
theorem ThreadStepped.inputs (h : ThreadStepped gTrackerAddr p a p' evs) :
    run (clientInputStep gTrackerAddr) p.client (clientInputs evs) = .ok p'.client := by
  cases h with
  | again | failed | ready | scanned | skip | lost | unblocked | accept | receive | length | leave
  | close | ended => rfl
  | @body i index readEof d conn client hpoint hindex hround hmsg =>
    obtain ⟨rfl, -, hle, -⟩ := frameRound_body hround
    have hlen : (p.contexts[index].conn.readbuf.contents.take
        p.contexts[index].conn.msglen).length = p.contexts[index].conn.msglen := by
      rw [List.length_take, Buffer.length_contents, Nat.min_eq_left hle]
    change (clientReceive gTrackerAddr p.client p.contexts[index].fromaddr
      (msgMemory p.contexts[index].conn.readbuf a.behind)
      (p.contexts[index].conn.readbuf.contents.take p.contexts[index].conn.msglen).length
      a.uninit >>= fun c => run (clientInputStep gTrackerAddr) c []) = .ok client
    rw [hlen, hmsg]
    rfl

/-- A step is one of the client, or none. -/
theorem procStep_client (h : procStep gTrackerAddr p e = .ok p') :
    run (clientInputStep gTrackerAddr) p.client (clientInputs (procEvents p e)) =
      .ok p'.client := by
  cases e with
  | net a => exact (threadStep_stepped h).inputs
  | gui e =>
    obtain ⟨client, hclient, heq⟩ := bind_eq_ok.mp h
    obtain rfl := Except.ok.inj heq
    change (clientInputStep gTrackerAddr p.client e.input >>= fun c =>
      run (clientInputStep gTrackerAddr) c []) = .ok client
    rw [hclient]
    rfl

/-- A run of both threads is a run of the client. -/
theorem procRun_client (hrun : run (traced (procStep gTrackerAddr) procEvents) (p₀, []) es =
    .ok (p, trace)) :
    run (clientInputStep gTrackerAddr) p₀.client (clientInputs trace) = .ok p.client := by
  refine run_history (I := fun _ s =>
    run (clientInputStep gTrackerAddr) p₀.client (clientInputs s.2) = .ok s.1.client) rfl ?_ hrun
  rintro es ⟨q, before⟩ e s' hq hstep
  obtain ⟨q', hone, heq⟩ := bind_eq_ok.mp hstep
  obtain rfl := Except.ok.inj heq
  dsimp only at hq ⊢
  rw [clientInputs, List.filterMap_append, run_append]
  change (run (clientInputStep gTrackerAddr) p₀.client (clientInputs before) >>= fun c =>
    run (clientInputStep gTrackerAddr) c (clientInputs (procEvents q e))) = .ok q'.client
  rw [hq, ok_bind]
  exact procStep_client hone

/-- At most one thing is seen of a step. -/
theorem procEvents_length (p : ClientProc) (e : ProcInput) : (procEvents p e).length ≤ 1 := by
  cases e with
  | gui e => exact le_rfl
  | net a =>
    simp only [procEvents, threadEvents]
    split
    · split
      · split
        · split <;> simp
        · split <;> simp
      · simp
    · split
      · split
        · split <;> simp
        · simp
        · simp
      · simp
    · simp

/-- A message that is handled is a frame in the bytes received on a connection until then, and it
has the address of the connection. -/
theorem handled_framed (hstart : threadStart client start = .ok p₀)
    (hrun : run (traced (procStep gTrackerAddr) procEvents) (p₀, []) es = .ok (p, trace))
    {before after : List ThreadEvent} (hsplit : trace = before ++ .handled fd r :: after) :
    r.fromaddr = (wireOf fd before).fromaddr ∧
      r.body ∈ (parse 2 (wireOf fd before).received).bodies := by
  induction es using List.reverseRecOn generalizing p trace after with
  | nil =>
    obtain ⟨-, rfl⟩ := Prod.mk.inj (Except.ok.inj hrun)
    have hlen := congrArg List.length hsplit
    rw [List.length_append, List.length_cons, List.length_nil] at hlen
    omega
  | append_singleton es e ih =>
    have hfollows := procRun_follows hstart hrun fd
    rw [run_concat] at hrun
    obtain ⟨⟨q, seen⟩, hbefore, hlast⟩ := bind_eq_ok.mp hrun
    obtain ⟨q', hone, heq⟩ := bind_eq_ok.mp hlast
    obtain ⟨rfl, rfl⟩ := Prod.mk.inj (Except.ok.inj heq)
    have hone_event := procEvents_length q e
    cases hevents : procEvents q e with
    | nil =>
      rw [hevents, List.append_nil] at hsplit
      exact ih hbefore hsplit
    | cons ev evs =>
      rw [hevents, List.length_cons] at hone_event
      obtain rfl : evs = [] := List.length_eq_zero_iff.mp (by omega)
      rw [hevents] at hsplit hfollows
      rcases concat_eq_append_cons hsplit with ⟨rfl, rfl, rfl⟩ | ⟨after', -, hsplit⟩
      · have hwire : wireOf fd (seen ++ [.handled fd r]) =
            { wireOf fd seen with handled := (wireOf fd seen).handled ++ [r] } := by
          rw [wireOf, List.foldl_append, List.foldl_cons, List.foldl_nil]
          exact if_pos rfl
        rw [hwire] at hfollows
        have hmem : r ∈ (wireOf fd seen).handled ++ [r] :=
          List.mem_append_right _ (List.mem_singleton_self r)
        exact ⟨hfollows.fromaddr_eq r hmem,
          hfollows.bodies_prefix.1.subset (List.mem_map_of_mem hmem)⟩
      · exact ih hbefore hsplit

/-- The contexts after a step come from addresses of contexts before it, or of an accepted
connection. -/
theorem ThreadStepped.fromaddrs (h : ThreadStepped gTrackerAddr p a p' evs) :
    ∀ c ∈ p'.contexts, c.fromaddr ∈ p.contexts.map ClientSocketCtx.fromaddr ∨
      .accepted c.fd c.fromaddr ∈ evs := by
  have hset : ∀ {index : ℕ} (hindex : index < p.contexts.length) (conn : Conn),
      ∀ c ∈ (p.setCtx index (p.contexts[index].withConn conn)).contexts,
        c.fromaddr ∈ p.contexts.map ClientSocketCtx.fromaddr := by
    intro index hindex conn c hc
    rw [ClientProc.setCtx_contexts] at hc
    rcases List.mem_or_eq_of_mem_set hc with hc | rfl
    · exact List.mem_map_of_mem hc
    · exact List.mem_map.mpr ⟨_, List.getElem_mem hindex, rfl⟩
  cases h with
  | again | failed | ready | scanned | skip | lost | unblocked | leave | ended =>
    exact fun c hc => Or.inl (List.mem_map_of_mem hc)
  | accept _ _ _ _ _ _ _ hlist =>
    intro c hc
    rw [ClientProc.contexts, hlist] at hc
    rcases List.mem_append.mp hc with hc | hc
    · exact Or.inl (List.mem_map_of_mem hc)
    · obtain rfl := List.mem_singleton.mp hc
      exact Or.inr (List.mem_singleton_self _)
  | receive _ _ _ _ _ hindex => exact fun c hc => Or.inl (hset hindex _ c hc)
  | length _ hindex => exact fun c hc => Or.inl (hset hindex _ c hc)
  | body _ hindex => exact fun c hc => Or.inl (hset hindex _ c hc)
  | close _ _ _ _ hlist =>
    intro c hc
    rw [ClientProc.contexts, hlist] at hc
    exact Or.inl (List.mem_map_of_mem (List.mem_of_mem_eraseP hc))

/-- A message that is handled comes from the address of a context. -/
theorem ThreadStepped.handled (h : ThreadStepped gTrackerAddr p a p' evs)
    (hmem : .handled fd r ∈ evs) : r.fromaddr ∈ p.contexts.map ClientSocketCtx.fromaddr := by
  cases h with
  | again | failed | ready | scanned | skip | lost | unblocked | length | leave | ended =>
    exact absurd hmem List.not_mem_nil
  | accept | receive | close => exact absurd (List.mem_singleton.mp hmem) (by rintro ⟨⟩)
  | body _ hindex =>
    obtain ⟨-, rfl⟩ := ThreadEvent.handled.inj (List.mem_singleton.mp hmem)
    exact List.mem_map_of_mem (f := ClientSocketCtx.fromaddr) (List.getElem_mem hindex)

/-- The messages that are handled come from addresses that connections were accepted from. -/
theorem handled_accepted (hstart : threadStart client start = .ok p₀)
    (hrun : run (traced (procStep gTrackerAddr) procEvents) (p₀, []) es = .ok (p, trace))
    (hmem : .handled fd r ∈ trace) : ∃ fd', .accepted fd' r.fromaddr ∈ trace := by
  refine (run_history (I := fun _ s =>
    (∀ c ∈ s.1.contexts, ∃ fd', .accepted fd' c.fromaddr ∈ s.2) ∧
      ∀ fd r, .handled fd r ∈ s.2 → ∃ fd', .accepted fd' r.fromaddr ∈ s.2) ?_ ?_ hrun).2 fd r hmem
  · rw [(threadStart_contexts hstart).1]
    exact ⟨fun c hc => absurd hc List.not_mem_nil, fun _ _ h => absurd h List.not_mem_nil⟩
  rintro es ⟨q, before⟩ e s' ⟨hctxs, hhandled⟩ hstep
  obtain ⟨q', hone, heq⟩ := bind_eq_ok.mp hstep
  obtain rfl := Except.ok.inj heq
  have hold : ∀ fromaddr ∈ q.contexts.map ClientSocketCtx.fromaddr,
      ∃ fd', .accepted fd' fromaddr ∈ before ++ procEvents q e := by
    intro fromaddr hfrom
    obtain ⟨c, hc, rfl⟩ := List.mem_map.mp hfrom
    obtain ⟨fd', hacc⟩ := hctxs c hc
    exact ⟨fd', List.mem_append_left _ hacc⟩
  cases e with
  | net a =>
    have hstepped := threadStep_stepped hone
    refine ⟨fun c hc => ?_, fun fd r hr => ?_⟩
    · rcases hstepped.fromaddrs c hc with hfrom | hacc
      · exact hold _ hfrom
      · exact ⟨c.fd, List.mem_append_right _ hacc⟩
    · rcases List.mem_append.mp hr with hr | hr
      · obtain ⟨fd', hacc⟩ := hhandled fd r hr
        exact ⟨fd', List.mem_append_left _ hacc⟩
      · exact hold _ (hstepped.handled hr)
  | gui e =>
    obtain ⟨client, -, heq⟩ := bind_eq_ok.mp hone
    obtain rfl := Except.ok.inj heq
    refine ⟨fun c hc => hold _ (List.mem_map_of_mem hc), fun fd r hr => ?_⟩
    rcases List.mem_append.mp hr with hr | hr
    · obtain ⟨fd', hacc⟩ := hhandled fd r hr
      exact ⟨fd', List.mem_append_left _ hacc⟩
    · exact absurd (List.mem_singleton.mp hr) (by rintro ⟨⟩)

/-- What the GUI thread or a host that is not the tracker's does leaves a client without peers as it
is. -/
theorem clientInputStep_strange {e : ClientInput}
    (h : ∀ r, e = .recv r → hostAddrIpaddrEquals r.fromaddr gTrackerAddr = false) :
    clientInputStep gTrackerAddr clientInit e = .ok clientInit := by
  cases e with
  | recv r =>
    have hstrange := h r rfl
    rw [clientInputStep, clientReceive]
    cases hmsg : unpackClientMsg r.mem r.body.length r.uninit with
    | none => rfl
    | some m =>
      cases m with
      | peer pm =>
        cases pm with
        | online =>
          change clientHandleMsg _ _ _ _ = _
          rw [clientHandleMsg, hstrange]
          rfl
        | offline =>
          change clientHandleMsg _ _ _ _ = _
          rw [clientHandleMsg, hstrange]
          rfl
      | chattext text => rfl
  | idle => rfl
  | select hpeer => rfl
  | send hpeer text z => rfl

end Refines

/-- A run of both threads is, for the client, the run over the messages that are handled and what
the GUI thread does, in the order in which this happens. -/
theorem thread_refines (client : Client) (start : StartAnswers) (gTrackerAddr : HostAddr)
    (es : List ProcInput) {p₀ p : ClientProc} {trace : List ThreadEvent}
    (hstart : threadStart client start = .ok p₀)
    (hrun : run (traced (procStep gTrackerAddr) procEvents) (p₀, []) es = .ok (p, trace)) :
    run (clientInputStep gTrackerAddr) client (clientInputs trace) = .ok p.client := by
  rw [← (threadStart_contexts hstart).2]
  exact procRun_client hrun

/-- A peer is announced, and sends a text. -/
theorem thread_refines_introduced : ∃ p₀ p trace, threadStart clientInit startAnswers = .ok p₀ ∧
    run (traced (procStep 4294984073343) procEvents) (p₀, []) introducingRun = .ok (p, trace) ∧
    run (clientInputStep 4294984073343) clientInit (clientInputs trace) = .ok p.client := by
  obtain ⟨p₀, p, trace, hstart, hrun, -⟩ := introducingRun_ok
  exact ⟨p₀, p, trace, hstart, hrun, thread_refines _ _ _ _ hstart hrun⟩

/-- The text is a frame in the bytes received on a connection, from an address that had a record
when the frame was handled. -/
def TextFramed (gTrackerAddr : HostAddr) (trace : List ThreadEvent) (ct : ChatText) : Prop :=
  ∃ before fd r after c text, trace = before ++ .handled fd r :: after ∧
    run (clientInputStep gTrackerAddr) clientInit (clientInputs before) = .ok c ∧
    (c.peers.at ct.fromaddr).isSome ∧ ct.fromaddr = (wireOf fd before).fromaddr ∧
    r.body ∈ (parse 2 (wireOf fd before).received).bodies ∧
    unpackClientMsg r.mem r.body.length r.uninit = some (.chattext text) ∧
    ct.text = stringDup text

/-- Every text that was received and stored is a frame in the bytes of a connection, it is stored
with the address that the connection was accepted from, and the peer with this address had a record
then. -/
theorem thread_texts_framed (start : StartAnswers) (gTrackerAddr : HostAddr)
    (es : List ProcInput) {p₀ p : ClientProc} {trace : List ThreadEvent}
    (hstart : threadStart clientInit start = .ok p₀)
    (hrun : run (traced (procStep gTrackerAddr) procEvents) (p₀, []) es = .ok (p, trace)) :
    ∀ ct ∈ p.client.texts, ct.fromaddr ≠ 0 → TextFramed gTrackerAddr trace ct := by
  intro ct hct hne
  have hclient := procRun_client hrun
  rw [(threadStart_contexts hstart).2] at hclient
  obtain ⟨inputs, r, inputs', c, text, hinputs, hbefore, hpeer, hfrom, hmsg, htext⟩ :=
    texts_arrived hclient ct hct hne
  obtain ⟨before, rest, htrace, rfl, hrest⟩ := List.filterMap_eq_append_iff.mp hinputs
  obtain ⟨silent, ev, after, rfl, hsilent, hev, -⟩ := List.filterMap_eq_cons_iff.mp hrest
  -- what is seen between is nothing for the client
  have hsame : clientInputs (before ++ silent) = clientInputs before := by
    rw [clientInputs, List.filterMap_append, List.filterMap_eq_nil_iff.mpr hsilent,
      List.append_nil, clientInputs]
  cases ev with
  | accepted | received | closed => cases hev
  | gui e => cases e <;> cases hev
  | handled fd r' =>
    obtain rfl := ClientInput.recv.inj (Option.some.inj hev)
    rw [← List.append_assoc] at htrace
    obtain ⟨hwire, hbody⟩ := handled_framed hstart hrun htrace
    refine ⟨before ++ silent, fd, r', after, c, text, htrace, ?_, ?_, hfrom.trans hwire, hbody,
      hmsg, htext⟩
    · rw [hsame]
      exact hbefore
    · rw [hfrom]
      exact hpeer

/-- The text of the peer that was announced. -/
theorem thread_texts_framed_introduced : ∃ p₀ p trace ct,
    threadStart clientInit startAnswers = .ok p₀ ∧
    run (traced (procStep 4294984073343) procEvents) (p₀, []) introducingRun = .ok (p, trace) ∧
    ct ∈ p.client.texts ∧ ct.fromaddr = 30098325631 ∧ TextFramed 4294984073343 trace ct := by
  obtain ⟨p₀, p, trace, hstart, hrun, -, htexts⟩ := introducingRun_ok
  have hmem : 30098325631 ∈ p.client.texts.map ChatText.fromaddr := by
    rw [htexts]
    exact List.mem_singleton_self _
  obtain ⟨ct, hct, hfrom⟩ := List.mem_map.mp hmem
  exact ⟨p₀, p, trace, ct, hstart, hrun, hct, hfrom,
    thread_texts_framed _ _ _ hstart hrun ct hct (by rw [hfrom]; decide)⟩

/-- Before a connection from the tracker's host is accepted, nothing that arrives and nothing that
the user does changes the client. -/
theorem thread_strangers (start : StartAnswers) (gTrackerAddr : HostAddr) (es : List ProcInput)
    {p₀ p : ClientProc} {trace : List ThreadEvent}
    (hstart : threadStart clientInit start = .ok p₀)
    (hrun : run (traced (procStep gTrackerAddr) procEvents) (p₀, []) es = .ok (p, trace))
    (hstrange : ∀ fd fromaddr, .accepted fd fromaddr ∈ trace →
      hostAddrIpaddrEquals fromaddr gTrackerAddr = false) : p.client = clientInit := by
  have hclient := procRun_client hrun
  rw [(threadStart_contexts hstart).2] at hclient
  have hsame : run (clientInputStep gTrackerAddr) clientInit (clientInputs trace) =
      .ok clientInit := by
    refine run_fixed fun e he => clientInputStep_strange ?_
    rintro r rfl
    obtain ⟨ev, hev, hinput⟩ := List.mem_filterMap.mp he
    cases ev with
    | accepted | received | closed => cases hinput
    | gui e => cases e <;> cases hinput
    | handled fd r' =>
      obtain rfl := ClientInput.recv.inj (Option.some.inj hinput)
      obtain ⟨fd', hacc⟩ := handled_accepted hstart hrun hev
      exact hstrange fd' _ hacc
  exact Except.ok.inj (hclient.symm.trans hsame)

/-- A message of a stranger has no effect. -/
theorem thread_strangers_message : ∃ p₀ p trace, threadStart clientInit startAnswers = .ok p₀ ∧
    run (traced (procStep 0) procEvents) (p₀, []) (pipeRun ++ leavingRun) = .ok (p, trace) ∧
    p.client = clientInit := by
  obtain ⟨p₀, p₁, p, before, trace, hstart, hbefore, hrun, -, -, -, -, -, -, horigin⟩ :=
    leavingRun_ok
  have hall : run (traced (procStep 0) procEvents) (p₀, []) (pipeRun ++ leavingRun) =
      .ok (p, trace) := by
    rw [run_append, hbefore, ok_bind, hrun]
  refine ⟨p₀, p, trace, hstart, hall, thread_strangers _ _ _ hstart hall fun fd fromaddr hacc => ?_⟩
  have hmem : fromaddr ∈ trace.filterMap ThreadEvent.origin :=
    List.mem_filterMap.mpr ⟨_, hacc, rfl⟩
  rw [horigin] at hmem
  obtain rfl := List.mem_singleton.mp hmem
  decide

end TinyMsg
