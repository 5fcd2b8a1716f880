import TinyMsg.Client.ChatText
import TinyMsg.Tracker.Handled

/-!
# From the client's KNOCK to the tracker's table

At every moment the tracker's table says about an address what the last message handled from it
said: the names and the port of a KNOCK, or nothing after a BYE (`Tracker.Handles.table_last`).  A
client sends its KNOCK as one frame or gets an error, and a connection on which this frame is all
that has arrived has led to one call of `handle_msg`, with the names and the port that were sent.
So the peer is registered, until another message from its address is handled (`knock_registers`).
-/

namespace TinyMsg

/-! ## The table -/

section Table

variable {es : List (HostAddr × TrackerMsg)} {log : TrackerLog} {t : Tracker}
  {seen : List LoopSeen} {fd : ℕ} {a : HostAddr} {m : PeerMsg} {msgs msgs' : List PeerMsg}

/-- What the messages announce. -/
def announcements (es : List (HostAddr × TrackerMsg)) : List PeerMsg :=
  es.map fun e => e.2.announces e.1

/-- A message announces the address it came from. -/
theorem announces_fromaddr (m : TrackerMsg) : (m.announces a).fromaddr = a := by
  cases m <;> rfl

/-- The table of a tracker that handles one message after the other is the map of what they
announce. -/
theorem trackerRun_table (hrun : run trackerStep trackerLogInit es = .ok log) :
    log.peers.activeAt = mapOf (announcements es) := by
  refine (run_history (I := fun es (t : TrackerLog) =>
    t.peers.WF ∧ t.peers.activeAt = mapOf (announcements es)) ?_ ?_ hrun).2
  · refine ⟨peersInit_wf, ?_⟩
    funext a
    simp [trackerLogInit, announcements, mapOf, replay]
  · rintro es t ⟨fromaddr, m⟩ t' ⟨hwf, htable⟩ hstep
    obtain ⟨sends, -, hhandle, -⟩ := trackerStep_cases hwf hstep
    refine ⟨handleMsg_wf hwf hhandle, ?_⟩
    have hlast : announcements (es ++ [(fromaddr, m)]) =
        announcements es ++ [m.announces fromaddr] := List.map_append
    rw [handleMsg_activeAt hwf hhandle, htable, hlast, mapOf_concat]

/-- The last message about an address decides. -/
theorem mapOf_last (hm : m.fromaddr = a) (hrest : ∀ m' ∈ msgs', m'.fromaddr ≠ a) :
    mapOf (msgs ++ m :: msgs') a = m.write.value := by
  induction msgs' using List.reverseRecOn with
  | nil =>
    rw [mapOf_concat, m.write_key, hm, Function.update_self]
  | append_singleton msgs' m' ih =>
    have hne : a ≠ m'.write.key := by
      rw [m'.write_key]
      exact (hrest m' (List.mem_append_right _ (List.mem_singleton_self m'))).symm
    have hassoc : msgs ++ m :: (msgs' ++ [m']) = (msgs ++ m :: msgs') ++ [m'] := by simp
    rw [hassoc, mapOf_concat, Function.update_of_ne hne]
    exact ih fun m'' hm'' => hrest m'' (List.mem_append_left _ hm'')

/-- The table that the loop leaves is the map of what was announced by the messages handled. -/
theorem Tracker.Handles.table (h : t.Handles seen) :
    t.peers.activeAt = mapOf (announcements (trackerInputs seen)) := by
  obtain ⟨log, hrun, hpeers, -⟩ := h.refines
  rw [← hpeers]
  exact trackerRun_table hrun

/-- A call for a message adds an input. -/
theorem trackerInputs_handled {h : Handled} {m : TrackerMsg} (hmsg : h.msg = some m) :
    trackerInputs (.handled fd h :: seen) = (h.fromaddr, m) :: trackerInputs seen := by
  have hinput : h.input = some (h.fromaddr, m) := by
    rw [Handled.input, hmsg, Option.map_some]
  exact List.filterMap_cons_some hinput

/-- The table has what the last message handled from an address announced. -/
theorem Tracker.Handles.table_last (h : t.Handles seen) {before after : List LoopSeen}
    {handled : Handled} (hsplit : seen = before ++ .handled fd handled :: after) {m : TrackerMsg}
    (hmsg : handled.msg = some m)
    (hlast : ∀ e ∈ trackerInputs after, e.1 ≠ handled.fromaddr) :
    t.peers.activeAt handled.fromaddr = (m.announces handled.fromaddr).write.value := by
  have hannounced : announcements (trackerInputs seen) =
      announcements (trackerInputs before) ++ m.announces handled.fromaddr ::
        announcements (trackerInputs after) := by
    rw [hsplit, trackerInputs_append, trackerInputs_handled hmsg, announcements, List.map_append,
      List.map_cons]
    rfl
  have hrest : ∀ m' ∈ announcements (trackerInputs after), m'.fromaddr ≠ handled.fromaddr := by
    intro m' hm'
    obtain ⟨e, he, rfl⟩ := List.mem_map.mp hm'
    rw [announces_fromaddr]
    exact hlast e he
  rw [h.table, hannounced]
  exact mapOf_last (announces_fromaddr m) hrest

end Table

/-! ## The frame of the KNOCK -/

section Frame

variable {env : SendEnv} {fds : Finset ℕ} {fmt : List UInt8} {args : List Arg} {x : Transfer}

/-- A message that fits its length is sent as a frame, unless there is an error. -/
theorem connectAndSendMsg_frame (hargs : List.Forall₂ ArgTyped (fmtSpecs .none fmt) args)
    (hlt : (packedBytes .none fmt args).length < 2 ^ 16)
    (h : connectAndSendMsg env fds fmt args = .ok x) (hret : x.ret = 0) :
    x.sent = frame 2 (packedBytes .none fmt args) := by
  obtain ⟨sendbuf, hpack, hbuf⟩ := netPackLenV_of_lt hargs hlt (bufferNew 256)
  rw [bufferNew_contents, List.nil_append] at hbuf
  rcases hconn : openTcpConnectSocket env.connect fds with ⟨_ | destfd, fds'⟩
  · obtain rfl := Except.ok.inj (h.symm.trans (connectAndSendMsg_failed hconn))
    cases hret
  · obtain rfl := Except.ok.inj (h.symm.trans (connectAndSendMsg_connected hconn hpack))
    obtain ⟨hbytes, hdone, -⟩ := netSendWait_sendsAll env.sends env.waits sendbuf
    rw [hdone hret, List.append_nil, hbuf] at hbytes
    exact hbytes

/-- The arguments that `main` passes for a KNOCK. -/
def knockArgs (aliasStr hostname : CStr) (listenport : UInt16) : List Arg :=
  [.num MsgNo.knock, .str aliasStr, .str hostname, .num listenport.toNat]

/-- The length of the body, when the names fit it. -/
theorem length_of_names {aliasStr hostname : CStr}
    (hnames : strlen aliasStr + strlen hostname + 7 < 2 ^ 16) (listenport : UInt16) :
    (knockBody aliasStr hostname listenport).length = strlen aliasStr + strlen hostname + 7 :=
  length_knockBody (by omega) (by omega) listenport

/-- The frame of a KNOCK is the only one in it. -/
theorem parse_knock {aliasStr hostname : CStr} {listenport : UInt16}
    (hnames : strlen aliasStr + strlen hostname + 7 < 2 ^ 16) :
    (parse 2 (frame 2 (knockBody aliasStr hostname listenport))).bodies =
      [knockBody aliasStr hostname listenport] := by
  have hlen := length_of_names hnames listenport
  have hframes : ∀ body ∈ [knockBody aliasStr hostname listenport],
      body ≠ [] ∧ body.length < 256 ^ 2 := by
    intro body hbody
    obtain rfl := List.mem_singleton.mp hbody
    refine ⟨fun hnil => ?_, by omega⟩
    rw [hnil, List.length_nil] at hlen
    omega
  have hone := parse_frames hframes
  rwa [List.map_singleton, List.flatten_singleton] at hone

/-- A call of `handle_msg` for the body of a KNOCK is for the KNOCK. -/
theorem Handled.Unpacked.knock {h : Handled} (hunpacked : h.Unpacked) {aliasStr hostname : CStr}
    {listenport : UInt16} (hnames : strlen aliasStr + strlen hostname + 7 < 2 ^ 16)
    (hbody : h.message.1 = knockBody aliasStr hostname listenport) :
    h.msg = some (.knock aliasStr hostname listenport) := by
  obtain ⟨-, mem, listenport₀, hmem, hmsg⟩ := hunpacked
  rw [hbody] at hmem hmsg
  have halias : strlen aliasStr < 2 ^ 16 := by omega
  have hhostname : strlen hostname < 2 ^ 16 := by omega
  have hdec := decode_knockBody halias hhostname listenport
  rw [hmsg, unpackTrackerMsg_knock hmem hdec, CStr.ofBytes_bytes, CStr.ofBytes_bytes,
    UInt16.ofNat_toNat]

end Frame

/-! ## The frame at the tracker -/

section Line

variable {t : Tracker} {seen : List LoopSeen} {fd : ℕ} {message : List UInt8 × ℕ}

/-- What was dispatched on a connection since it was accepted was handled, with its address. -/
theorem handled_of_line (hevents : ∀ ev, .event ev ∈ seen → ev.Moves)
    (h : message ∈ (lineOn fd (seen.map LoopSeen.loopEvent)).dispatched) :
    ∃ before handled after, seen = before ++ .handled fd handled :: after ∧
      handled.message = message ∧ originOf fd before = originOf fd seen := by
  induction seen using List.reverseRecOn with
  | nil => exact absurd h List.not_mem_nil
  | append_singleton seen ev ih =>
    have hbefore : ∀ ev', .event ev' ∈ seen → ev'.Moves := fun ev' hmem =>
      hevents ev' (List.mem_append_left _ hmem)
    have hold : message ∈ (lineOn fd (seen.map LoopSeen.loopEvent)).dispatched →
        originOf fd (seen ++ [ev]) = originOf fd seen →
        ∃ before handled after, seen ++ [ev] = before ++ .handled fd handled :: after ∧
          handled.message = message ∧ originOf fd before = originOf fd (seen ++ [ev]) := by
      intro hmem hsame
      obtain ⟨before, handled, after, heq, hmessage, horigin⟩ := ih hbefore hmem
      refine ⟨before, handled, after ++ [ev], ?_, hmessage, horigin.trans hsame.symm⟩
      rw [heq, List.append_assoc, List.cons_append]
    rw [List.map_append, lineOn_append] at h
    change message ∈ (Line.step fd _ ev.loopEvent).dispatched at h
    cases ev with
    | accepted fd' fromaddr =>
      by_cases hfd : fd' = fd
      · rw [LoopSeen.loopEvent, Line.step, if_pos hfd] at h
        exact absurd h List.not_mem_nil
      · rw [LoopSeen.loopEvent, Line.step, if_neg hfd] at h
        refine hold h (originOf_append fun fromaddr' hmem => hfd ?_)
        exact (LoopSeen.accepted.inj (List.mem_singleton.mp hmem)).1.symm
    | handled fd' handled =>
      have hsame : originOf fd (seen ++ [.handled fd' handled]) = originOf fd seen :=
        originOf_append fun _ hmem => LoopSeen.noConfusion (List.mem_singleton.mp hmem)
      by_cases hfd : fd' = fd
      · rw [LoopSeen.loopEvent, Line.step, if_pos hfd] at h
        rcases List.mem_append.mp h with h | h
        · exact hold h hsame
        · exact ⟨seen, handled, [], by rw [hfd], (List.mem_singleton.mp h).symm, hsame.symm⟩
      · rw [LoopSeen.loopEvent, Line.step, if_neg hfd] at h
        exact hold h hsame
    | event ev =>
      have hsame : originOf fd (seen ++ [.event ev]) = originOf fd seen :=
        originOf_append fun _ hmem => LoopSeen.noConfusion (List.mem_singleton.mp hmem)
      have hmoves := hevents ev (List.mem_append_right _ (List.mem_singleton_self _))
      cases ev with
      | accepted | dispatched => exact absurd hmoves not_false
      | sent => exact hold h hsame
      | received fd' bytes =>
        rw [LoopSeen.loopEvent, Line.step] at h
        split at h <;> exact hold h hsame

end Line

/-! ## From one program to the other -/

/-- When `ConnectAndSendMsg` returns `0` for a KNOCK, and what it sent is all that the tracker has
received on a connection since it was accepted, the tracker has called `handle_msg` for the KNOCK,
once, and has the peer with its names and its port at the address of the connection until it handles
another message from there. -/
theorem knock_registers (env : SendEnv) (cfds : Finset ℕ) {aliasStr hostname : CStr}
    {listenport : UInt16} (hnames : strlen aliasStr + strlen hostname + 7 < 2 ^ 16) {x : Transfer}
    (hsend : connectAndSendMsg env cfds Fmt.knock (knockArgs aliasStr hostname listenport) = .ok x)
    (hret : x.ret = 0) (listenfd : Fin fdSetSize) (fds : Finset ℕ) (es : List Answers)
    (hroom : ∀ fs a t, fs ++ [a] <+: es → run loopStep (trackerInit listenfd fds) fs = .ok t →
      t.RoomToOpen a) {t : Tracker} {seen : List LoopSeen}
    (hrun : run (traced loopStep loopSeen) (trackerInit listenfd fds, []) es = .ok (t, seen))
    (fd : ℕ) (hreceived : (lineOn fd (seen.map LoopSeen.loopEvent)).received = x.sent) :
    (lineOn fd (seen.map LoopSeen.loopEvent)).dispatched =
        [withLength (knockBody aliasStr hostname listenport)] ∧
      ∃ before h after, seen = before ++ .handled fd h :: after ∧
        h.fromaddr = originOf fd seen ∧ h.msg = some (.knock aliasStr hostname listenport) ∧
        ((∀ e ∈ trackerInputs after, e.1 ≠ originOf fd seen) →
          t.peers.activeAt (originOf fd seen) = some (storedInfo aliasStr hostname
            (knockToaddr (originOf fd seen) listenport))) := by
  have hargs : List.Forall₂ ArgTyped (fmtSpecs .none Fmt.knock)
      (knockArgs aliasStr hostname listenport) := by
    rw [fmtSpecs_knock]
    exact .cons trivial (.cons trivial (.cons trivial (.cons trivial .nil)))
  have hlen := length_of_names hnames listenport
  have hsent : x.sent = frame 2 (knockBody aliasStr hostname listenport) :=
    connectAndSendMsg_frame hargs (hlen.trans_lt hnames) hsend hret
  have honce : (lineOn fd (seen.map LoopSeen.loopEvent)).dispatched = _ :=
    (loopRun_dispatches hroom (run_traced_map loopSeen_event hrun)).once fd
  rw [hreceived, hsent, parse_knock hnames, List.map_singleton] at honce
  refine ⟨honce, ?_⟩
  have hh := loopRun_handles hrun
  obtain ⟨before, h, after, hsplit, hmessage, horigin⟩ := handled_of_line hh.events
    (honce ▸ List.mem_singleton_self (withLength (knockBody aliasStr hostname listenport)))
  obtain ⟨hfrom, hunpacked⟩ := hh.handled before fd h after hsplit
  rw [horigin] at hfrom
  have hmsg := hunpacked.knock hnames (congrArg Prod.fst hmessage)
  refine ⟨before, h, after, hsplit, hfrom, hmsg, fun hlast => ?_⟩
  rw [← hfrom] at hlast ⊢
  exact hh.table_last hsplit hmsg hlast

/-- A peer connects, and its KNOCK arrives in two pieces. -/
def knockingRun : List Answers := connectingRun ++
  [{ quietAnswers with readable := {4} }, quietAnswers, quietAnswers, quietAnswers, quietAnswers,
    { quietAnswers with
      recvs := [.data ⟨knockFrame.take 5, by decide, by decide⟩,
        .data ⟨knockFrame.drop 5, by decide, by decide⟩] }]

/-- The KNOCK of "a" at "h", with port 1234. -/
theorem knock_registers_knocking : ∃ x t seen before h after,
    connectAndSendMsg (sendEnvOk 11) ∅ Fmt.knock
      (knockArgs (CStr.ofBytes [97]) (CStr.ofBytes [104]) 1234) = .ok x ∧
    run (traced loopStep loopSeen) (trackerInit ⟨3, by decide⟩ {0, 1, 2}, []) knockingRun =
      .ok (t, seen) ∧
    seen = before ++ .handled 4 h :: after ∧
    t.peers.activeAt (originOf 4 seen) = some (storedInfo (CStr.ofBytes [97]) (CStr.ofBytes [104])
      (knockToaddr (originOf 4 seen) 1234)) := by
  have hknock : (connectAndSendMsg (sendEnvOk 11) ∅ Fmt.knock
      (knockArgs (CStr.ofBytes [97]) (CStr.ofBytes [104]) 1234)).toOption.map
      (fun x => (x.ret, x.sent)) = some (0, knockFrame) := by decide +kernel
  have hrooms : ∀ k : Fin knockingRun.length,
      ((run loopStep (trackerInit ⟨3, by decide⟩ {0, 1, 2}) (knockingRun.take k)).toOption.all
        fun t => decide (t.RoomToOpen (knockingRun.get k))) = true := by decide +kernel
  have hview : (run (traced loopStep loopSeen) (trackerInit ⟨3, by decide⟩ {0, 1, 2}, [])
      knockingRun).toOption.map
      (fun s => ((lineOn 4 (s.2.map LoopSeen.loopEvent)).received, (trackerInputs s.2).length)) =
      some (knockFrame, 1) := by decide +kernel
  obtain ⟨x, hx, hsent⟩ := Option.map_eq_some_iff.mp hknock
  obtain ⟨hret, hsent⟩ := Prod.mk.inj hsent
  obtain ⟨⟨t, seen⟩, hrun, hline⟩ := Option.map_eq_some_iff.mp hview
  obtain ⟨hreceived, hinputs⟩ := Prod.mk.inj hline
  have hsend := toOption_eq_some.mp hx
  have hrun := toOption_eq_some.mp hrun
  obtain ⟨-, before, h, after, hsplit, hfrom, hmsg, hpeer⟩ := knock_registers (sendEnvOk 11) ∅
    (by decide) hsend hret ⟨3, by decide⟩ {0, 1, 2} knockingRun (fun _ _ _ => good_of_takes hrooms)
    hrun 4 (hreceived.trans hsent.symm)
  have hlast : trackerInputs after = [] := by
    rw [hsplit, trackerInputs_append, trackerInputs_handled hmsg, List.length_append,
      List.length_cons] at hinputs
    exact List.eq_nil_of_length_eq_zero (by omega)
  refine ⟨x, t, seen, before, h, after, hsend, hrun, hsplit, hpeer fun e he => ?_⟩
  rw [hlast] at he
  exact absurd he List.not_mem_nil

end TinyMsg
