import TinyMsg.Client.State

/-!
# What each event does to the client

`Client.WF` is the invariant of the client: its peer table is well formed, a peer has at most one
window, and every window and every callback is about a peer with a record.  Under it the results
of a step are listed once: `ClientHandled` and `ClientStopped` for `handle_msg`, `IdleDone` for an
idle callback, `WinOpened` for `open_chatwin`, and `ClientStepped` for an event.  What is proved
of the runs of the client is proved by cases on these, without the code.
-/

namespace TinyMsg

/-- The chat texts, in order. -/
def Client.texts (c : Client) : List ChatText := c.gChatTexts.toList

/-- The chat windows, in order. -/
def Client.wins (c : Client) : List ChatWin := c.gChatWins.toList

/-- The invariant of the client. -/
structure Client.WF (c : Client) : Prop where
  /-- The peer table is well formed. -/
  peers : c.peers.WF
  /-- A peer has at most one window. -/
  wins_nodup : (c.wins.map ChatWin.hpeer).Nodup
  /-- A window belongs to a peer with a record. -/
  wins_known : ∀ w ∈ c.wins, (c.peers.atHandle w.hpeer).isSome
  /-- There is room for windows. -/
  wins_cap : c.gChatWins.cap ≠ 0
  /-- A callback is about a peer with a record. -/
  queue_known : ∀ i ∈ c.queue, (c.peers.atHandle i.hpeer).isSome

theorem clientInit_wf : clientInit.WF where
  peers := peersInit_wf
  wins_nodup := List.nodup_nil
  wins_known := fun _ hw => absurd hw List.not_mem_nil
  wins_cap := by decide
  queue_known := fun _ hi => absurd hi List.not_mem_nil

/-- What `handle_msg` can do when it comes back. -/
inductive ClientHandled (gTrackerAddr : HostAddr) (c : Client) (fromaddr : HostAddr) :
    ClientMsg → Client → Prop
  /-- A message of the tracker's from elsewhere is ignored. -/
  | foreign (m : PeerMsg) (hfrom : hostAddrIpaddrEquals fromaddr gTrackerAddr = false) :
    ClientHandled gTrackerAddr c fromaddr (.peer m) c
  /-- A PEER_ONLINE is entered into the table and posted. -/
  | online {aliasStr hostname : CStr} {peerFromaddr peerToaddr : HostAddr} {peers : Peers}
    {hpeer : TMHandle} (hfrom : hostAddrIpaddrEquals fromaddr gTrackerAddr = true)
    (hcreate : createPeer c.peers aliasStr hostname peerFromaddr peerToaddr = .ok (peers, hpeer)) :
    ClientHandled gTrackerAddr c fromaddr
      (.peer (.online aliasStr hostname peerFromaddr peerToaddr))
      (gIdleAdd { c with peers := peers } (.peerOnline hpeer))
  /-- A PEER_OFFLINE of a peer with a record is posted. -/
  | offline {peerFromaddr : HostAddr} {q : Peer}
    (hfrom : hostAddrIpaddrEquals fromaddr gTrackerAddr = true)
    (hcap : c.peers.gPeers.cap ≠ 0) (hq : c.peers.at peerFromaddr = some q) :
    ClientHandled gTrackerAddr c fromaddr (.peer (.offline peerFromaddr))
      (gIdleAdd c (.peerOffline q.hpeer))
  /-- A PEER_OFFLINE of an address without a record changes nothing. -/
  | offlineUnknown {peerFromaddr : HostAddr}
    (hfrom : hostAddrIpaddrEquals fromaddr gTrackerAddr = true)
    (hcap : c.peers.gPeers.cap ≠ 0) (hq : c.peers.at peerFromaddr = none) :
    ClientHandled gTrackerAddr c fromaddr (.peer (.offline peerFromaddr)) c
  /-- A CHATTEXT of a peer is stored and posted. -/
  | chattext {text : String} {q : Peer} {gChatTexts : Array ChatText}
    (hq : c.peers.at fromaddr = some q)
    (happend : arrayAppend c.gChatTexts ⟨fromaddr, 0, stringDup text⟩ = .ok gChatTexts) :
    ClientHandled gTrackerAddr c fromaddr (.chattext text)
      (gIdleAdd { c with gChatTexts := gChatTexts }
        (.openChatwin q.hpeer ⟨fromaddr, 0, stringDup text⟩))
  /-- A CHATTEXT from an unknown address changes nothing. -/
  | chattextUnknown {text : String} (hq : c.peers.at fromaddr = none) :
    ClientHandled gTrackerAddr c fromaddr (.chattext text) c

/-- Why `handle_msg` may not come back. -/
inductive ClientStopped (gTrackerAddr : HostAddr) (c : Client) (fromaddr : HostAddr) :
    ClientMsg → Prop
  /-- `create_peer` of a new address when the table is full. -/
  | online {aliasStr hostname : CStr} {peerFromaddr peerToaddr : HostAddr}
    (hfrom : hostAddrIpaddrEquals fromaddr gTrackerAddr = true)
    (hnew : c.peers.at peerFromaddr = none) (hfull : c.peers.records.length = maxPeers) :
    ClientStopped gTrackerAddr c fromaddr
      (.peer (.online aliasStr hostname peerFromaddr peerToaddr))
  /-- `print_peers` without a table. -/
  | offline {peerFromaddr : HostAddr}
    (hfrom : hostAddrIpaddrEquals fromaddr gTrackerAddr = true)
    (hcap : c.peers.gPeers.cap = 0) :
    ClientStopped gTrackerAddr c fromaddr (.peer (.offline peerFromaddr))
  /-- `ArrayAppend` to a full list of chat texts that cannot be doubled. -/
  | chattext {text : String} {q : Peer} (hq : c.peers.at fromaddr = some q)
    (hfull : c.gChatTexts.len = c.gChatTexts.cap ∧
      (c.gChatTexts.cap = 0 ∨ 2 ^ 15 ≤ c.gChatTexts.cap)) :
    ClientStopped gTrackerAddr c fromaddr (.chattext text)

/-- The item just appended is the last one. -/
theorem arrayItem_last {α : Type} [Inhabited α] {a a' : Array α} {x : α}
    (h : arrayAppend a x = .ok a') : arrayItem a' (a'.len - 1) = .ok x := by
  obtain ⟨hlist, hlen, -⟩ := arrayAppend_ok h
  have hlast : a'.len - 1 < a'.toList.length := by
    rw [Array.length_toList]
    omega
  rw [arrayItem_eq hlast]
  congr 1
  have hidx : a'.len - 1 = a.toList.length := by
    rw [Array.length_toList]
    omega
  simp only [hidx, hlist, List.getElem_concat_length]

section Handle

variable {gTrackerAddr fromaddr : HostAddr} {c c' : Client} {m : ClientMsg}

/-- The outcomes of `handle_msg`. -/
theorem clientHandleMsg_cases (hp : c.peers.WF) (gTrackerAddr fromaddr : HostAddr)
    (m : ClientMsg) :
    (∃ c', clientHandleMsg gTrackerAddr c fromaddr m = .ok c' ∧
      ClientHandled gTrackerAddr c fromaddr m c') ∨
    (clientHandleMsg gTrackerAddr c fromaddr m = .error .assertion ∧
      ClientStopped gTrackerAddr c fromaddr m) := by
  cases m with
  | peer m =>
    cases hfrom : hostAddrIpaddrEquals fromaddr gTrackerAddr with
    | false =>
      refine Or.inl ⟨c, ?_, .foreign m hfrom⟩
      cases m <;> simp [clientHandleMsg, hfrom]
    | true =>
      cases m with
      | online aliasStr hostname peerFromaddr peerToaddr =>
        cases hcreate : createPeer c.peers aliasStr hostname peerFromaddr peerToaddr with
        | ok res =>
          obtain ⟨peers, hpeer⟩ := res
          refine Or.inl ⟨_, ?_, .online hfrom hcreate⟩
          have hprint : printPeers peers = .ok () := by
            rw [printPeers_eq, if_neg (createPeer_cap hp hcreate)]
          simp [clientHandleMsg, hfrom, hcreate, gIdleAdd, hprint]
        | error e =>
          obtain ⟨rfl, hnew, hfull⟩ := (createPeer_error_iff hp).mp hcreate
          refine Or.inr ⟨?_, .online hfrom hnew hfull⟩
          simp [clientHandleMsg, hfrom, hcreate]
      | offline peerFromaddr =>
        by_cases hcap : c.peers.gPeers.cap = 0
        · refine Or.inr ⟨?_, .offline hfrom hcap⟩
          have hrec := Peers.records_of_cap hcap
          simp [clientHandleMsg, hfrom, findPeerFromaddr_eq, Peers.at, hrec, printPeers_eq, hcap]
        · cases hq : c.peers.at peerFromaddr with
          | none =>
            refine Or.inl ⟨c, ?_, .offlineUnknown hfrom hcap hq⟩
            simp [clientHandleMsg, hfrom, findPeerFromaddr_eq, hq, printPeers_eq, hcap]
          | some q =>
            refine Or.inl ⟨_, ?_, .offline hfrom hcap hq⟩
            simp [clientHandleMsg, hfrom, findPeerFromaddr_eq, hq, printPeers_eq, hcap, gIdleAdd]
  | chattext text =>
    cases hq : c.peers.at fromaddr with
    | none =>
      refine Or.inl ⟨c, ?_, .chattextUnknown hq⟩
      simp [clientHandleMsg, findPeerFromaddr_eq, hq]
    | some q =>
      rcases arrayAppend_cases c.gChatTexts ⟨fromaddr, 0, stringDup text⟩ with
        ⟨gChatTexts, happend⟩ | herr
      · refine Or.inl ⟨_, ?_, .chattext hq happend⟩
        simp [clientHandleMsg, findPeerFromaddr_eq, hq, getPeerData_eq, happend,
          arrayItem_last happend]
      · refine Or.inr ⟨?_, .chattext hq ((arrayAppend_error_iff _ _).mp herr)⟩
        simp [clientHandleMsg, findPeerFromaddr_eq, hq, getPeerData_eq, herr]

/-- What `handle_msg` did when it came back. -/
theorem clientHandleMsg_ok (hp : c.peers.WF)
    (h : clientHandleMsg gTrackerAddr c fromaddr m = .ok c') :
    ClientHandled gTrackerAddr c fromaddr m c' := by
  rcases clientHandleMsg_cases hp gTrackerAddr fromaddr m with ⟨c₁, hok, hhandled⟩ | ⟨herr, -⟩
  · rw [h] at hok
    exact Except.ok.inj hok ▸ hhandled
  · rw [h] at herr
    cases herr

end Handle

/-- The windows after rows were appended to the history of a peer. -/
def addRows (wins : List ChatWin) (hpeer : TMHandle) (rows : List HistoryRow) : List ChatWin :=
  wins.map fun w => if w.hpeer = hpeer then { w with rows := w.rows ++ rows } else w

theorem addRows_hpeer (wins : List ChatWin) (hpeer : TMHandle) (rows : List HistoryRow) :
    (addRows wins hpeer rows).map ChatWin.hpeer = wins.map ChatWin.hpeer := by
  refine map_key_map (fun w => ?_) wins
  split <;> rfl

/-- Appending to the history of a peer. -/
theorem appendHistory_eq {gChatWins : Array ChatWin}
    (hnodup : (gChatWins.toList.map ChatWin.hpeer).Nodup) (hpeer : TMHandle)
    (rows : List HistoryRow) :
    ∃ wins, appendHistory gChatWins hpeer rows = .ok wins ∧
      wins.toList = addRows gChatWins.toList hpeer rows ∧ wins.cap = gChatWins.cap := by
  unfold appendHistory
  rcases findChatwinFromPeer_cases gChatWins hpeer with ⟨hfind, hlook⟩ |
    ⟨i, h, hfind, -, hkey⟩
  · refine ⟨gChatWins, by rw [hfind]; rfl, ?_, rfl⟩
    have hid : ∀ w ∈ gChatWins.toList,
        (if w.hpeer = hpeer then { w with rows := w.rows ++ rows } else w) = w := fun w hw =>
      if_neg (lookup_eq_none_iff.mp hlook w hw)
    rw [addRows, List.map_congr_left hid, List.map_id']
  · have hset := set_eq_map hnodup h hkey fun w => { w with rows := w.rows ++ rows }
    rw [hfind, ok_bind]
    exact ⟨_, rfl, (arrayStore_toList _ _ _).trans hset, arrayStore_cap _ _ _⟩

/-- A window is opened for a peer, with all its chat texts. -/
structure WinOpened (c : Client) (hpeer : TMHandle) (c' : Client) : Prop where
  /-- There was no window. -/
  fresh : lookup ChatWin.hpeer c.wins hpeer = none
  /-- The window is the last one, and nothing else changes. -/
  opened : ∃ q gChatWins, c.peers.atHandle hpeer = some q ∧
    gChatWins.toList = c.wins ++ [⟨hpeer, c.texts.flatMap (addChattext q)⟩] ∧
    gChatWins.cap ≠ 0 ∧ c' = { c with gChatWins := gChatWins }

/-- What an idle callback does. -/
inductive IdleDone (c : Client) : Idle → Client → Prop
  /-- `IDLE_peer_online` -/
  | peerOnline {hpeer : TMHandle} {q : Peer} {gChatWins : Array ChatWin}
    (hq : c.peers.atHandle hpeer = some q)
    (hwins : gChatWins.toList = addRows c.wins hpeer [.online q.aliasStr])
    (hcap : gChatWins.cap = c.gChatWins.cap) :
    IdleDone c (.peerOnline hpeer)
      { c with peerslb := showPeerRow c.peerslb hpeer q.aliasStr, gChatWins := gChatWins }
  /-- `IDLE_peer_offline` -/
  | peerOffline {hpeer : TMHandle} {q : Peer} {gChatWins : Array ChatWin} {peers : Peers}
    (hq : c.peers.atHandle hpeer = some q)
    (hwins : gChatWins.toList = addRows c.wins hpeer [.offline q.aliasStr])
    (hcap : gChatWins.cap = c.gChatWins.cap)
    (hdestroy : destroyPeer c.peers hpeer = .ok peers) :
    IdleDone c (.peerOffline hpeer)
      { c with peerslb := hidePeerRow c.peerslb hpeer, gChatWins := gChatWins, peers := peers }
  /-- `IDLE_open_chatwin` for a peer that has a window. -/
  | addText {hpeer : TMHandle} {ct : ChatText} {q : Peer} {gChatWins : Array ChatWin}
    (hw : (lookup ChatWin.hpeer c.wins hpeer).isSome) (hq : c.peers.atHandle hpeer = some q)
    (hwins : gChatWins.toList = addRows c.wins hpeer (addChattext q ct))
    (hcap : gChatWins.cap = c.gChatWins.cap) :
    IdleDone c (.openChatwin hpeer ct) { c with gChatWins := gChatWins }
  /-- `IDLE_open_chatwin` for a peer that has none. -/
  | openWin {hpeer : TMHandle} {ct : ChatText} {c' : Client} (hopen : WinOpened c hpeer c') :
    IdleDone c (.openChatwin hpeer ct) c'

section Gui

variable {c c' : Client} {hpeer : TMHandle}

/-- There are no more windows than records. -/
theorem Client.WF.wins_length_lt (hc : c.WF) (hknown : (c.peers.atHandle hpeer).isSome)
    (hfresh : lookup ChatWin.hpeer c.wins hpeer = none) : c.wins.length < maxPeers := by
  have hnodup : (hpeer :: c.wins.map ChatWin.hpeer).Nodup := by
    refine List.nodup_cons.mpr ⟨fun hmem => ?_, hc.wins_nodup⟩
    obtain ⟨w, hw, hwh⟩ := List.mem_map.mp hmem
    exact lookup_eq_none_iff.mp hfresh w hw hwh
  have hmem : ∀ k, (c.peers.atHandle k).isSome → k ∈ c.peers.records.map Peer.hpeer := by
    intro k hk
    obtain ⟨q, hq⟩ := Option.isSome_iff_exists.mp hk
    obtain ⟨hmem, rfl⟩ := lookup_some hq
    exact List.mem_map_of_mem hmem
  have hsub : hpeer :: c.wins.map ChatWin.hpeer ⊆ c.peers.records.map Peer.hpeer := by
    intro k hk
    rcases List.mem_cons.mp hk with rfl | hk
    · exact hmem _ hknown
    · obtain ⟨w, hw, rfl⟩ := List.mem_map.mp hk
      exact hmem _ (hc.wins_known w hw)
  have hlen := (hnodup.subperm hsub).length_le
  have hle := hc.peers.length_le
  rw [List.length_cons, List.length_map, List.length_map] at hlen
  omega

/-- A message history has the rows of all the texts, in order. -/
theorem refreshMsghistory_eq (chattexts : Array ChatText) (q : Peer) :
    refreshMsghistory chattexts q = .ok (chattexts.toList.flatMap (addChattext q)) := by
  rw [refreshMsghistory, arrayFold_eq, run_total (fun _ _ => rfl), List.flatMap_eq_foldl]

/-- `open_chatwin` opens a window for a peer with a record and without a window, and otherwise
changes nothing. -/
theorem openChatwin_cases (hc : c.WF) (hpeer : TMHandle) :
    ∃ c', openChatwin c hpeer = .ok c' ∧
      (WinOpened c hpeer c' ∨
        (c' = c ∧ (c.peers.atHandle hpeer = none ∨
          (lookup ChatWin.hpeer c.wins hpeer).isSome))) := by
  unfold openChatwin
  rw [getPeerData_eq, ok_bind]
  cases hq : c.peers.atHandle hpeer with
  | none => exact ⟨c, rfl, Or.inr ⟨rfl, Or.inl rfl⟩⟩
  | some q =>
    rcases findChatwinFromPeer_cases c.gChatWins hpeer with ⟨hfind, hlook⟩ |
      ⟨i, h, hfind, hlook, -⟩
    · have hfold : refreshMsghistory c.gChatTexts q = .ok (c.texts.flatMap (addChattext q)) :=
        refreshMsghistory_eq c.gChatTexts q
      have hlt := hc.wins_length_lt (by rw [hq]; rfl) hlook
      have hroom : ∃ wins, arrayAppend c.gChatWins
          ⟨hpeer, c.texts.flatMap (addChattext q)⟩ = .ok wins := by
        rcases arrayAppend_cases c.gChatWins ⟨hpeer, c.texts.flatMap (addChattext q)⟩ with
          hok | herr
        · exact hok
        · obtain ⟨hfull, hzero | hbig⟩ := (arrayAppend_error_iff _ _).mp herr
          · exact absurd hzero hc.wins_cap
          · rw [Client.wins, Array.length_toList, maxPeers] at hlt
            omega
      obtain ⟨wins, hwins⟩ := hroom
      obtain ⟨hlist, -, hcap⟩ := arrayAppend_ok hwins
      have hcap' : wins.cap ≠ 0 := by
        have := hc.wins_cap
        omega
      refine ⟨{ c with gChatWins := wins }, ?_, Or.inl ⟨hlook, q, wins, hq, hlist, hcap', rfl⟩⟩
      simp only [hfind, ok_bind, hfold, hwins]
    · refine ⟨c, ?_, Or.inr ⟨rfl, Or.inr ?_⟩⟩
      · simp only [hfind, ok_bind]
      · rw [Client.wins, hlook]
        rfl

/-- An idle callback about a peer with a record comes back. -/
theorem runIdle_cases (hc : c.WF) {i : Idle} (hknown : (c.peers.atHandle i.hpeer).isSome) :
    ∃ c', runIdle c i = .ok c' ∧ IdleDone c i c' := by
  obtain ⟨q, hq⟩ := Option.isSome_iff_exists.mp hknown
  have hdata : getPeerData c.peers i.hpeer = .ok (some q) := by rw [getPeerData_eq, hq]
  cases i with
  | peerOnline hpeer =>
    rw [Idle.hpeer] at hdata
    obtain ⟨wins, hwins, hlist, hcap⟩ :=
      appendHistory_eq hc.wins_nodup hpeer [.online q.aliasStr]
    refine ⟨_, ?_, .peerOnline hq hlist hcap⟩
    simp only [runIdle, idlePeerOnline, assertPeerData, hdata, ok_bind, hwins]
  | peerOffline hpeer =>
    rw [Idle.hpeer] at hdata
    obtain ⟨wins, hwins, hlist, hcap⟩ :=
      appendHistory_eq hc.wins_nodup hpeer [.offline q.aliasStr]
    obtain ⟨peers, hdestroy, -⟩ := destroyPeer_eq hc.peers hpeer
    refine ⟨_, ?_, .peerOffline hq hlist hcap hdestroy⟩
    simp only [runIdle, idlePeerOffline, assertPeerData, hdata, ok_bind, hwins, hdestroy]
  | openChatwin hpeer ct =>
    rw [Idle.hpeer] at hdata
    rcases findChatwinFromPeer_cases c.gChatWins hpeer with ⟨hfind, hlook⟩ |
      ⟨i, h, hfind, hlook, -⟩
    · obtain ⟨c', hopen, hcases⟩ := openChatwin_cases hc hpeer
      refine ⟨c', by simp only [runIdle, idleOpenChatwin, hfind, ok_bind, hopen], ?_⟩
      rcases hcases with hopened | ⟨-, hnone | hsome⟩
      · exact .openWin hopened
      · exact absurd (hnone.symm.trans hq) (by simp)
      · rw [Client.wins, hlook] at hsome
        cases hsome
    · obtain ⟨wins, hwins, hlist, hcap⟩ :=
        appendHistory_eq hc.wins_nodup hpeer (addChattext q ct)
      refine ⟨_, ?_, .addText (by rw [Client.wins, hlook]; rfl) hq hlist hcap⟩
      simp only [runIdle, idleOpenChatwin, hfind, ok_bind, hdata, hwins]

end Gui

/-! ## One step -/

/-- What an event does when the program comes back from it. -/
inductive ClientStepped (gTrackerAddr : HostAddr) (c : Client) : ClientEvent → Client → Prop
  /-- A message is handled. -/
  | recv {fromaddr : HostAddr} {m : ClientMsg} {c' : Client}
    (h : ClientHandled gTrackerAddr c fromaddr m c') :
    ClientStepped gTrackerAddr c (.recv fromaddr m) c'
  /-- The next idle callback runs. -/
  | idle {i : Idle} {queue : List Idle} {c' : Client} (hqueue : c.queue = i :: queue)
    (h : IdleDone { c with queue := queue } i c') : ClientStepped gTrackerAddr c .idle c'
  /-- There is no idle callback. -/
  | noIdle (hqueue : c.queue = []) : ClientStepped gTrackerAddr c .idle c
  /-- The user opens the window of a peer. -/
  | select {hpeer : TMHandle} {c' : Client} (hrow : c.rowShown hpeer) (h : WinOpened c hpeer c') :
    ClientStepped gTrackerAddr c (.select hpeer) c'
  /-- The user selects a peer whose window is open, or no peer. -/
  | selectNothing {hpeer : TMHandle}
    (h : c.rowShown hpeer → c.peers.atHandle hpeer = none ∨
      (lookup ChatWin.hpeer c.wins hpeer).isSome) :
    ClientStepped gTrackerAddr c (.select hpeer) c

section Step

variable {gTrackerAddr fromaddr : HostAddr} {c c' : Client} {e : ClientEvent} {i : Idle}
  {m : ClientMsg} {hpeer : TMHandle}

/-- The invariant does not depend on the callbacks that wait, as long as there are no new ones. -/
theorem Client.WF.dequeue {queue : List Idle} (hc : c.WF) (hqueue : c.queue = i :: queue) :
    Client.WF { c with queue := queue } where
  peers := hc.peers
  wins_nodup := hc.wins_nodup
  wins_known := hc.wins_known
  wins_cap := hc.wins_cap
  queue_known := fun j hj => hc.queue_known j (by rw [hqueue]; exact List.mem_cons_of_mem _ hj)

/-- An event is handled to the end, unless it is a message that stops the program: the GUI thread
trips no assertion. -/
theorem clientStep_cases (hc : c.WF) (gTrackerAddr : HostAddr) (e : ClientEvent) :
    (∃ c', clientStep gTrackerAddr c e = .ok c' ∧ ClientStepped gTrackerAddr c e c') ∨
    (clientStep gTrackerAddr c e = .error .assertion ∧
      ∃ fromaddr m, e = .recv fromaddr m ∧ ClientStopped gTrackerAddr c fromaddr m) := by
  cases e with
  | recv fromaddr m =>
    rcases clientHandleMsg_cases hc.peers gTrackerAddr fromaddr m with ⟨c', hok, h⟩ | ⟨herr, h⟩
    · exact Or.inl ⟨c', hok, .recv h⟩
    · exact Or.inr ⟨herr, fromaddr, m, rfl, h⟩
  | idle =>
    cases hqueue : c.queue with
    | nil => exact Or.inl ⟨c, by simp only [clientStep, hqueue], .noIdle hqueue⟩
    | cons i queue =>
      have hknown : (c.peers.atHandle i.hpeer).isSome :=
        hc.queue_known i (by rw [hqueue]; exact List.mem_cons_self)
      obtain ⟨c', hok, h⟩ := runIdle_cases (hc.dequeue hqueue) hknown
      exact Or.inl ⟨c', by simp only [clientStep, hqueue, hok], .idle hqueue h⟩
  | select hpeer =>
    obtain ⟨c', hok, hcases⟩ := openChatwin_cases hc hpeer
    by_cases hrow : c.rowShown hpeer
    · refine Or.inl ⟨c', by simp only [clientStep, if_pos hrow, hok], ?_⟩
      rcases hcases with hopened | ⟨rfl, hnothing⟩
      · exact .select hrow hopened
      · exact .selectNothing fun _ => hnothing
    · exact Or.inl ⟨c, by simp only [clientStep, if_neg hrow],
        .selectNothing fun h => absurd h hrow⟩

/-- What an event did when the program came back from it. -/
theorem clientStep_ok (hc : c.WF) (h : clientStep gTrackerAddr c e = .ok c') :
    ClientStepped gTrackerAddr c e c' := by
  rcases clientStep_cases hc gTrackerAddr e with ⟨c₁, hok, hstepped⟩ | ⟨herr, -⟩
  · rw [h] at hok
    exact Except.ok.inj hok ▸ hstepped
  · rw [h] at herr
    cases herr

/-- Handling a message keeps every record findable under its handle. -/
theorem ClientHandled.atHandle (hc : c.WF) (h : ClientHandled gTrackerAddr c fromaddr m c')
    {k : TMHandle} (hk : (c.peers.atHandle k).isSome) : (c'.peers.atHandle k).isSome := by
  cases h with
  | online hfrom hcreate =>
    obtain ⟨q, hq⟩ := Option.isSome_iff_exists.mp hk
    obtain ⟨q', hq', -⟩ := createPeer_atHandle hc.peers hcreate hq
    exact Option.isSome_iff_exists.mpr ⟨q', hq'⟩
  | foreign | offline | offlineUnknown | chattext | chattextUnknown => exact hk

/-- Posting a callback about a peer with a record keeps the invariant. -/
theorem Client.WF.post (hc : c.WF) (hknown : (c.peers.atHandle i.hpeer).isSome) :
    (gIdleAdd c i).WF where
  peers := hc.peers
  wins_nodup := hc.wins_nodup
  wins_known := hc.wins_known
  wins_cap := hc.wins_cap
  queue_known := by
    intro j hj
    rcases List.mem_append.mp hj with hj | hj
    · exact hc.queue_known j hj
    · obtain rfl := List.mem_singleton.mp hj
      exact hknown

/-- Handling a message keeps the invariant. -/
theorem ClientHandled.wf (hc : c.WF) (h : ClientHandled gTrackerAddr c fromaddr m c') :
    c'.WF := by
  have hkeep := fun k => h.atHandle hc (k := k)
  cases h with
  | foreign | offlineUnknown | chattextUnknown => exact hc
  | online hfrom hcreate =>
    obtain ⟨r, hr, -⟩ := createPeer_handle hc.peers hcreate
    refine Client.WF.post ⟨createPeer_wf hc.peers hcreate, hc.wins_nodup, fun w hw => ?_,
      hc.wins_cap, fun i hi => ?_⟩ (Option.isSome_iff_exists.mpr ⟨r, hr⟩)
    · exact hkeep _ (hc.wins_known w hw)
    · exact hkeep _ (hc.queue_known i hi)
  | offline hfrom hcap hq =>
    exact hc.post (Option.isSome_iff_exists.mpr ⟨_, hc.peers.atHandle_of_at hq⟩)
  | chattext hq happend =>
    refine Client.WF.post ⟨hc.peers, hc.wins_nodup, hc.wins_known, hc.wins_cap, hc.queue_known⟩ ?_
    exact Option.isSome_iff_exists.mpr ⟨_, hc.peers.atHandle_of_at hq⟩

/-- Rows appended to the histories keep the invariant. -/
theorem Client.WF.rows {rows : List HistoryRow} {gChatWins : Array ChatWin} (hc : c.WF)
    (hwins : gChatWins.toList = addRows c.wins hpeer rows)
    (hcap : gChatWins.cap = c.gChatWins.cap) : Client.WF { c with gChatWins := gChatWins } where
  peers := hc.peers
  wins_nodup := by
    rw [Client.wins, hwins, addRows_hpeer]
    exact hc.wins_nodup
  wins_known := by
    intro w hw
    have hmem : w.hpeer ∈ c.wins.map ChatWin.hpeer := by
      rw [← addRows_hpeer c.wins hpeer rows, ← hwins]
      exact List.mem_map_of_mem hw
    obtain ⟨w', hw', hsame⟩ := List.mem_map.mp hmem
    rw [← hsame]
    exact hc.wins_known w' hw'
  wins_cap := by
    rw [hcap]
    exact hc.wins_cap
  queue_known := hc.queue_known

/-- Marking a peer inactive keeps the invariant. -/
theorem Client.WF.destroy {peers : Peers} (hc : c.WF)
    (hdestroy : destroyPeer c.peers hpeer = .ok peers) : Client.WF { c with peers := peers } := by
  have hkeep : ∀ k, (c.peers.atHandle k).isSome → (peers.atHandle k).isSome := by
    intro k hk
    rw [destroyPeer_atHandle hc.peers hdestroy, Option.isSome_map]
    exact hk
  exact ⟨destroyPeer_wf hc.peers hdestroy, hc.wins_nodup,
    fun w hw => hkeep _ (hc.wins_known w hw), hc.wins_cap,
    fun i hi => hkeep _ (hc.queue_known i hi)⟩

/-- Opening a window keeps the invariant. -/
theorem WinOpened.wf (hc : c.WF) (h : WinOpened c hpeer c') : c'.WF := by
  obtain ⟨q, gChatWins, hq, hlist, hcap, rfl⟩ := h.opened
  refine ⟨hc.peers, ?_, fun w hw => ?_, hcap, hc.queue_known⟩
  · rw [Client.wins, hlist]
    exact nodup_append_key hc.wins_nodup h.fresh
  · rw [Client.wins, hlist] at hw
    rcases List.mem_append.mp hw with hw | hw
    · exact hc.wins_known w hw
    · obtain rfl := List.mem_singleton.mp hw
      exact Option.isSome_iff_exists.mpr ⟨q, hq⟩

/-- An idle callback keeps the invariant. -/
theorem IdleDone.wf (hc : c.WF) (h : IdleDone c i c') : c'.WF := by
  cases h with
  | peerOnline hq hwins hcap =>
    obtain ⟨hpeers, hnodup, hknown, hpos, hqueue⟩ := hc.rows hwins hcap
    exact ⟨hpeers, hnodup, hknown, hpos, hqueue⟩
  | peerOffline hq hwins hcap hdestroy =>
    obtain ⟨hpeers, hnodup, hknown, hpos, hqueue⟩ := (hc.rows hwins hcap).destroy hdestroy
    exact ⟨hpeers, hnodup, hknown, hpos, hqueue⟩
  | addText hw hq hwins hcap => exact hc.rows hwins hcap
  | openWin hopen => exact hopen.wf hc

/-- Every event keeps the invariant. -/
theorem ClientStepped.wf (hc : c.WF) (h : ClientStepped gTrackerAddr c e c') : c'.WF := by
  cases h with
  | recv h => exact h.wf hc
  | idle hqueue h => exact h.wf (hc.dequeue hqueue)
  | noIdle | selectNothing => exact hc
  | select _ h => exact h.wf hc

/-- The invariant holds after every run. -/
theorem clientRun_wf {es : List ClientEvent} (hc : c.WF)
    (h : run (clientStep gTrackerAddr) c es = .ok c') : c'.WF :=
  run_invariant (I := Client.WF) (fun _ _ _ hs hstep => (clientStep_ok hs hstep).wf hs) hc h

end Step

end TinyMsg
