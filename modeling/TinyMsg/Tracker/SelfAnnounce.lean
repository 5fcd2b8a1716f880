import TinyMsg.Tracker.Replication

/-!
# Peers that are announced to themselves

A record belongs to the address that a peer sends from, while messages go to the address that it
listens at.  When a KNOCK comes in, `handle_msg` first sends to and about all active records and
calls `create_peer` last, so that the new peer is not among them.  A record that is still active
for the same listening address, left by an earlier KNOCK from the same or another port, is among
them, and the peer is announced to itself.

Where the peers listen is told by the messages handled so far (`listensAt`), so
`self_announcement_iff` says in terms of the messages alone when this happens.
-/

namespace TinyMsg

/-- The message announces a peer that listens at the address that it is sent to. -/
def Send.AnnouncesReceiver (x : Send) : Prop :=
  ∃ aliasStr hostname fromaddr, x.msg = .online aliasStr hostname fromaddr x.toaddr

/-- Where the sender of a message listens from then on. -/
def TrackerMsg.listens (fromaddr : HostAddr) : TrackerMsg → Option HostAddr
  | .knock _ _ listenport => some (knockToaddr fromaddr listenport)
  | .bye => none

/-- Where a peer listens after some messages, if the last one from its address was a KNOCK. -/
def listensAt (es : List (HostAddr × TrackerMsg)) (a : HostAddr) : Option HostAddr :=
  (es.filter fun e => e.1 = a).getLast?.bind fun e => e.2.listens a

/-- No KNOCK names a listening address that is in use. -/
def NoSharedListener (es : List (HostAddr × TrackerMsg)) : Prop :=
  ∀ before fromaddr aliasStr hostname listenport after,
    es = before ++ (fromaddr, .knock aliasStr hostname listenport) :: after →
    ∀ a, listensAt before a ≠ some (knockToaddr fromaddr listenport)

theorem listensAt_concat (es : List (HostAddr × TrackerMsg)) (fromaddr : HostAddr) (m : TrackerMsg)
    (a : HostAddr) :
    listensAt (es ++ [(fromaddr, m)]) a =
      if fromaddr = a then m.listens fromaddr else listensAt es a := by
  rw [listensAt, List.filter_append]
  by_cases ha : fromaddr = a
  · subst ha
    simp
  · simp [ha, listensAt]

/-- One more message that is a KNOCK must not name a listening address in use. -/
theorem noSharedListener_concat (es : List (HostAddr × TrackerMsg)) (fromaddr : HostAddr)
    (m : TrackerMsg) :
    NoSharedListener (es ++ [(fromaddr, m)]) ↔
      NoSharedListener es ∧ ∀ toaddr, m.listens fromaddr = some toaddr →
        ∀ a, listensAt es a ≠ some toaddr := by
  constructor
  · intro h
    refine ⟨fun before f aliasStr hostname listenport after heq a => ?_, fun toaddr hto a => ?_⟩
    · exact h before f aliasStr hostname listenport (after ++ [(fromaddr, m)]) (by simp [heq]) a
    · cases m with
      | knock aliasStr hostname listenport =>
        rw [← Option.some.inj hto]
        exact h es fromaddr aliasStr hostname listenport [] rfl a
      | bye => cases hto
  · rintro ⟨hold, hnew⟩ before f aliasStr hostname listenport after heq a
    rcases concat_eq_append_cons heq with ⟨-, rfl, hmsg⟩ | ⟨after', -, hes⟩
    · obtain ⟨rfl, rfl⟩ := Prod.mk.inj hmsg
      exact hnew _ rfl a
    · exact hold before f aliasStr hostname listenport after' hes a

section Sends

variable {t t' : TrackerLog} {fromaddr : HostAddr} {m : TrackerMsg}

/-- The sends of a step announce the receiver exactly when an active record has the listening
address of the peer that knocks. -/
theorem announcesReceiver_iff {sends : List Send}
    (hsends : (∃ aliasStr hostname listenport, m = .knock aliasStr hostname listenport ∧
        sends = broadcasts t.peers (m.announces fromaddr) ++
          catchUps t.peers fromaddr (knockToaddr fromaddr listenport)) ∨
        (m = .bye ∧ sends = broadcasts t'.peers (m.announces fromaddr))) :
    (∃ x ∈ sends, x.AnnouncesReceiver) ↔
      ∃ q ∈ t.peers.active, m.listens fromaddr = some q.toaddr := by
  rcases hsends with ⟨aliasStr, hostname, listenport, rfl, rfl⟩ | ⟨rfl, rfl⟩
  · constructor
    · rintro ⟨x, hx, al, ho, f, hmsg⟩
      rcases List.mem_append.mp hx with hx | hx
      · obtain ⟨q, hq, rfl⟩ := List.mem_map.mp hx
        obtain ⟨-, -, -, hto⟩ := PeerMsg.online.inj hmsg
        exact ⟨q, hq, congrArg some hto⟩
      · obtain ⟨q, hq, rfl⟩ := List.mem_map.mp hx
        obtain ⟨-, -, -, hto⟩ := PeerMsg.online.inj hmsg
        exact ⟨q, hq, congrArg some hto.symm⟩
    · rintro ⟨q, hq, hto⟩
      have hto' : knockToaddr fromaddr listenport = q.toaddr := Option.some.inj hto
      refine ⟨broadcastTo _ q, List.mem_append_left _ (List.mem_map_of_mem hq), aliasStr, hostname,
        fromaddr, ?_⟩
      rw [broadcastTo, ← hto']
      rfl
  · constructor
    · rintro ⟨x, hx, al, ho, f, hmsg⟩
      obtain ⟨q, -, rfl⟩ := List.mem_map.mp hx
      cases hmsg
    · rintro ⟨q, -, hto⟩
      cases hto

/-- An active record has a listening address exactly when some peer listens there. -/
theorem exists_active_toaddr {p : Peers} (hp : p.WF) {toaddr : HostAddr} :
    (∃ q ∈ p.active, toaddr = q.toaddr) ↔
      ∃ a, (p.activeAt a).map PeerInfo.toaddr = some toaddr := by
  constructor
  · rintro ⟨q, hq, rfl⟩
    obtain ⟨hmem, hactive⟩ := List.mem_filter.mp hq
    refine ⟨q.fromaddr, ?_⟩
    rw [(activeAt_eq_some_iff hp).mpr ⟨q, hmem, hactive, rfl, rfl⟩]
    rfl
  · rintro ⟨a, ha⟩
    obtain ⟨info, hinfo, rfl⟩ := Option.map_eq_some_iff.mp ha
    obtain ⟨q, hmem, hactive, -, rfl⟩ := (activeAt_eq_some_iff hp).mp hinfo
    exact ⟨q, List.mem_filter.mpr ⟨hmem, hactive⟩, rfl⟩

/-- What links the tracker to the messages it has handled. -/
structure Listening (es : List (HostAddr × TrackerMsg)) (t : TrackerLog) : Prop where
  /-- The table is well formed. -/
  wf : t.peers.WF
  /-- The active records have the listening addresses of the peers. -/
  listens : ∀ a, (t.peers.activeAt a).map PeerInfo.toaddr = listensAt es a
  /-- A message announced its receiver exactly when a listening address was in use. -/
  announces : (∀ s ∈ t.processed, ∀ x ∈ s.sends, ¬ x.AnnouncesReceiver) ↔ NoSharedListener es

/-- Handling a message keeps the link. -/
theorem Listening.step {es : List (HostAddr × TrackerMsg)} (ht : Listening es t)
    (h : trackerStep t (fromaddr, m) = .ok t') : Listening (es ++ [(fromaddr, m)]) t' := by
  obtain ⟨sends, hlog, hhandle, hsends⟩ := trackerStep_cases ht.wf h
  have hmap := handleMsg_activeAt ht.wf hhandle
  have hkey : (m.announces fromaddr).write.key = fromaddr := by cases m <;> rfl
  have hvalue : (m.announces fromaddr).write.value.map PeerInfo.toaddr = m.listens fromaddr := by
    cases m <;> rfl
  refine ⟨handleMsg_wf ht.wf hhandle, fun a => ?_, ?_⟩
  · rw [hmap, hkey, listensAt_concat, Function.update_apply]
    by_cases ha : fromaddr = a
    · rw [if_pos ha, if_pos ha.symm, hvalue]
    · rw [if_neg ha, if_neg (Ne.symm ha), ht.listens a]
  · have hnew : (∀ x ∈ sends, ¬ x.AnnouncesReceiver) ↔ ∀ toaddr, m.listens fromaddr = some toaddr →
        ∀ a, listensAt es a ≠ some toaddr := by
      have hiff : (∃ x ∈ sends, x.AnnouncesReceiver) ↔
          ∃ q ∈ t.peers.active, m.listens fromaddr = some q.toaddr :=
        announcesReceiver_iff hsends
      constructor
      · intro hnone toaddr hto a ha
        obtain ⟨q, hq, rfl⟩ := (exists_active_toaddr ht.wf).mpr ⟨a, (ht.listens a).trans ha⟩
        obtain ⟨x, hx, hself⟩ := hiff.mpr ⟨q, hq, hto⟩
        exact hnone x hx hself
      · intro hfree x hx hself
        obtain ⟨q, hq, hto⟩ := hiff.mp ⟨x, hx, hself⟩
        obtain ⟨a, ha⟩ := (exists_active_toaddr ht.wf).mp ⟨q, hq, rfl⟩
        exact hfree _ hto a ((ht.listens a).symm.trans ha)
    rw [noSharedListener_concat, ← ht.announces, ← hnew, hlog]
    simp only [List.mem_append, List.mem_singleton, or_imp, forall_and, forall_eq]

/-- In a run of the tracker no peer is announced to itself exactly when no KNOCK names a listening
address that is in use. -/
theorem self_announcement_iff (es : List (HostAddr × TrackerMsg)) (t : TrackerLog)
    (hrun : run trackerStep trackerLogInit es = .ok t) :
    (∀ s ∈ t.processed, ∀ x ∈ s.sends, ¬ x.AnnouncesReceiver) ↔ NoSharedListener es := by
  refine (run_history (I := Listening) ⟨peersInit_wf, fun a => rfl, ?_⟩
    (fun _ _ _ _ ht hstep => ht.step hstep) hrun).announces
  refine iff_of_true (fun s hs => absurd hs List.not_mem_nil)
    fun before f al ho port after heq => ?_
  cases before <;> cases heq

/-- Two peers of different hosts knock, and one of them leaves. -/
theorem self_announcement_of_leave : ∃ t,
    run trackerStep trackerLogInit
      [(1, .knock CStr.empty CStr.empty 8001), (2, .knock CStr.empty CStr.empty 8001), (1, .bye)] =
      .ok t ∧
    ((∀ s ∈ t.processed, ∀ x ∈ s.sends, ¬ x.AnnouncesReceiver) ↔
      NoSharedListener
        [(1, .knock CStr.empty CStr.empty 8001), (2, .knock CStr.empty CStr.empty 8001),
          (1, .bye)]) :=
  ⟨_, rfl, self_announcement_iff _ _ rfl⟩

/-- A peer that knocks again without a BYE is announced to itself. -/
theorem repeated_knock_announces_receiver : ∃ t,
    run trackerStep trackerLogInit
      [(1, .knock CStr.empty CStr.empty 8001), (1, .knock CStr.empty CStr.empty 8001)] = .ok t ∧
    ∃ s ∈ t.processed, ∃ x ∈ s.sends, x.AnnouncesReceiver := by
  refine ⟨_, rfl, _, List.mem_cons_of_mem _ List.mem_cons_self, _, List.mem_cons_self, ?_⟩
  exact ⟨CStr.empty, CStr.empty, 1, rfl⟩

end Sends

end TinyMsg
