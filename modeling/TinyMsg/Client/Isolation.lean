import TinyMsg.Client.Unpack

/-!
# What messages from elsewhere do to a client

A client receives bytes from anyone.  Its peer table follows a machine of its own, `tableStep`,
which sees only the messages of the tracker that announce peers and the callbacks that these post;
every event of the client is a step of that machine or leaves the table alone.  So two runs that
look the same to it have the same table, whatever else the client received.

The other part of the state that a stranger might change are the chat texts.  A text that was
received is stored only if its sender has a record at that moment.
-/

namespace TinyMsg

/-! ## The events -/

/-- A message as it arrives. -/
structure Received where
  /-- The address it comes from. -/
  fromaddr : HostAddr
  /-- Its bytes. -/
  body : List UInt8
  /-- The memory from the message on. -/
  mem : ℕ → UInt8
  /-- The memory holds the message. -/
  holds : Holds mem 0 body
  /-- The variables of `handle_msg`. -/
  uninit : Uninit

/-- A message as it arrives, with the memory zero behind it. -/
def Received.ofBytes (fromaddr : HostAddr) (body : List UInt8) (u : Uninit) : Received :=
  ⟨fromaddr, body, fun i => body.getD i 0, holds_getD body, u⟩

/-- What happens to a client. -/
inductive ClientInput
  /-- The network thread handles a message. -/
  | recv (r : Received)
  /-- The GUI thread runs the next idle callback, if there is one. -/
  | idle
  /-- The user activates the row of a peer in the list box. -/
  | select (hpeer : TMHandle)
  /-- The user sends a text from the window of a peer, and `ConnectAndSendMsg` returns `z`. -/
  | send (hpeer : TMHandle) (text : CStr) (z : ℤ)

/-- `CB_chatwin_send`, when `ConnectAndSendMsg` returns `z`. -/
def chatwinSend (c : Client) (hpeer : TMHandle) (text : CStr) (z : ℤ) : Exec Client := do
  match ← getPeerData c.peers hpeer with
  | none => .ok c
  | some q =>
    match ← findChatwinFromPeer c.gChatWins hpeer with
    | none => .ok c
    | some _ =>
      if z = -1 then .ok c
      else do
        let ct : ChatText := ⟨0, q.toaddr, stringNew text⟩
        let gChatTexts ← arrayAppend c.gChatTexts ct
        let gChatWins ← appendHistory c.gChatWins hpeer (addChattext q ct)
        .ok { c with gChatTexts := gChatTexts, gChatWins := gChatWins }

/-- One event. -/
def clientInputStep (gTrackerAddr : HostAddr) (c : Client) : ClientInput → Exec Client
  | .recv r => clientReceive gTrackerAddr c r.fromaddr r.mem r.body.length r.uninit
  | .idle => clientStep gTrackerAddr c .idle
  | .select hpeer => clientStep gTrackerAddr c (.select hpeer)
  | .send hpeer text z => chatwinSend c hpeer text z

/-! ## The machine of the peer table -/

/-- What matters to the peer table. -/
inductive TableEvent
  /-- A message of the tracker that announces a peer. -/
  | recv (m : PeerMsg)
  /-- A callback that such a message has posted runs. -/
  | idle

/-- The peer table and the callbacks that wait to work on it. -/
structure TableState where
  /-- The peer table. -/
  peers : Peers
  /-- The callbacks. -/
  queue : List Idle

/-- One step of the peer table. -/
def tableStep (t : TableState) : TableEvent → Exec TableState
  | .recv (.online aliasStr hostname fromaddr toaddr) => do
    let (peers, hpeer) ← createPeer t.peers aliasStr hostname fromaddr toaddr
    .ok ⟨peers, t.queue ++ [.peerOnline hpeer]⟩
  | .recv (.offline fromaddr) =>
    .ok ⟨t.peers, t.queue ++ (t.peers.at fromaddr).toList.map fun q => .peerOffline q.hpeer⟩
  | .idle =>
    match t.queue with
    | .peerOffline hpeer :: queue => do
      let peers ← destroyPeer t.peers hpeer
      .ok ⟨peers, queue⟩
    | _ :: queue => .ok ⟨t.peers, queue⟩
    | [] => .ok t

/-- The callback was posted by a message that announces a peer. -/
def Idle.announces : Idle → Bool
  | .peerOnline _ => true
  | .peerOffline _ => true
  | .openChatwin .. => false

/-- What is seen of an event. -/
def tableEvents (gTrackerAddr : HostAddr) (c : Client) : ClientInput → List TableEvent
  | .recv r =>
    if hostAddrIpaddrEquals r.fromaddr gTrackerAddr then
      (decodePeerMsg r.body).toList.map TableEvent.recv
    else []
  | .idle => if c.queue.head?.any Idle.announces then [.idle] else []
  | .select _ => []
  | .send .. => []

/-- What the machine sees of the state. -/
def Client.table (c : Client) : TableState := ⟨c.peers, c.queue.filter Idle.announces⟩

/-- The message is not one of the tracker's that is cut off. -/
def WellFormedFrom (gTrackerAddr : HostAddr) : ClientInput → Prop
  | .recv r =>
    hostAddrIpaddrEquals r.fromaddr gTrackerAddr →
      (r.mem 0).toNat = MsgNo.peerOnline ∨ (r.mem 0).toNat = MsgNo.peerOffline →
        (decodePeerMsg r.body).isSome
  | _ => True

/-! ## Every event is a step of the table, or leaves it alone -/

section Step

variable {gTrackerAddr fromaddr : HostAddr} {c c' : Client} {m : ClientMsg} {i : Idle}
  {e : ClientInput}

/-- What `CB_chatwin_send` does when it comes back. -/
inductive ChatSent (c : Client) (hpeer : TMHandle) (text : CStr) (z : ℤ) : Client → Prop
  /-- There is no such peer or no window, or `ConnectAndSendMsg` fails. -/
  | nothing
    (h : c.peers.atHandle hpeer = none ∨ lookup ChatWin.hpeer c.wins hpeer = none ∨ z = -1) :
    ChatSent c hpeer text z c
  /-- The text is stored with the present listening address of the peer, and added to the window. -/
  | sent {q : Peer} {gChatTexts : Array ChatText} {gChatWins : Array ChatWin}
    (hq : c.peers.atHandle hpeer = some q) (hw : (lookup ChatWin.hpeer c.wins hpeer).isSome)
    (hz : z ≠ -1)
    (happend : arrayAppend c.gChatTexts ⟨0, q.toaddr, stringNew text⟩ = .ok gChatTexts)
    (hwins : gChatWins.toList =
      addRows c.wins hpeer (addChattext q ⟨0, q.toaddr, stringNew text⟩))
    (hcap : gChatWins.cap = c.gChatWins.cap) :
    ChatSent c hpeer text z { c with gChatTexts := gChatTexts, gChatWins := gChatWins }

/-- What `CB_chatwin_send` did when it came back. -/
theorem chatwinSend_ok (hc : c.WF) {hpeer : TMHandle} {text : CStr} {z : ℤ}
    (h : chatwinSend c hpeer text z = .ok c') : ChatSent c hpeer text z c' := by
  rw [chatwinSend, getPeerData_eq, ok_bind] at h
  cases hq : c.peers.atHandle hpeer with
  | none =>
    rw [hq] at h
    exact Except.ok.inj h ▸ .nothing (Or.inl hq)
  | some q =>
    rw [hq] at h
    rcases findChatwinFromPeer_cases c.gChatWins hpeer with ⟨hfind, hnone⟩ |
      ⟨k, hk, hfind, hsome, -⟩
    · simp only [hfind, ok_bind] at h
      exact Except.ok.inj h ▸ .nothing (Or.inr (Or.inl hnone))
    · simp only [hfind, ok_bind] at h
      by_cases hz : z = -1
      · rw [if_pos hz] at h
        exact Except.ok.inj h ▸ .nothing (Or.inr (Or.inr hz))
      · rw [if_neg hz, bind_eq_ok] at h
        obtain ⟨gChatTexts, happend, h⟩ := h
        obtain ⟨wins, hwins, hlist, hcap⟩ := appendHistory_eq hc.wins_nodup hpeer
          (addChattext q ⟨0, q.toaddr, stringNew text⟩)
        rw [hwins, ok_bind] at h
        obtain rfl := Except.ok.inj h
        have hwin : (lookup ChatWin.hpeer c.wins hpeer).isSome := by
          rw [Client.wins, hsome]
          rfl
        exact .sent hq hwin hz happend hlist hcap

/-- Sending a text keeps the invariant. -/
theorem ChatSent.wf {hpeer : TMHandle} {text : CStr} {z : ℤ} (hc : c.WF)
    (h : ChatSent c hpeer text z c') : c'.WF := by
  cases h with
  | nothing => exact hc
  | sent _ _ _ _ hwins hcap =>
    have hrows := hc.rows hwins hcap
    exact ⟨hrows.peers, hrows.wins_nodup, hrows.wins_known, hrows.wins_cap, hrows.queue_known⟩

/-- Sending a text leaves the peer table alone. -/
theorem ChatSent.table {hpeer : TMHandle} {text : CStr} {z : ℤ} (h : ChatSent c hpeer text z c') :
    c'.table = c.table := by
  cases h with
  | nothing | sent => rfl

/-- A text that was sent is stored without an address that it comes from. -/
theorem ChatSent.texts {hpeer : TMHandle} {text : CStr} {z : ℤ} (h : ChatSent c hpeer text z c')
    {ct : ChatText} (hct : ct ∈ c'.texts) : ct ∈ c.texts ∨ ct.fromaddr = 0 := by
  cases h with
  | nothing => exact Or.inl hct
  | sent _ _ _ happend =>
    rw [Client.texts, (arrayAppend_ok happend).1] at hct
    rcases List.mem_append.mp hct with hct | hct
    · exact Or.inl hct
    · obtain rfl := List.mem_singleton.mp hct
      exact Or.inr rfl

/-- Handling a message that is not a message of the tracker's leaves the table alone. -/
theorem ClientHandled.table_eq (h : ClientHandled gTrackerAddr c fromaddr m c')
    (hm : ∀ pm, m = .peer pm → hostAddrIpaddrEquals fromaddr gTrackerAddr = false) :
    c'.table = c.table := by
  cases h with
  | foreign | offlineUnknown | chattextUnknown => rfl
  | online hfrom | offline hfrom =>
    rw [hm _ rfl] at hfrom
    cases hfrom
  | chattext =>
    simp [Client.table, gIdleAdd, Idle.announces]

/-- Handling a message of the tracker's is a step of the table. -/
theorem ClientHandled.tableStep {pm : PeerMsg}
    (h : ClientHandled gTrackerAddr c fromaddr (.peer pm) c')
    (hfrom : hostAddrIpaddrEquals fromaddr gTrackerAddr = true) :
    tableStep c.table (.recv pm) = .ok c'.table := by
  cases h with
  | foreign _ hforeign =>
    rw [hfrom] at hforeign
    cases hforeign
  | online _ hcreate =>
    simp [TinyMsg.tableStep, Client.table, hcreate, gIdleAdd, List.filter_cons, Idle.announces]
  | offline _ _ hq =>
    simp [TinyMsg.tableStep, Client.table, hq, gIdleAdd, List.filter_cons, Idle.announces]
  | offlineUnknown _ _ hq => simp [TinyMsg.tableStep, Client.table, hq]

/-- Running a callback is a step of the table, or leaves it alone. -/
theorem IdleDone.table {queue : List Idle} (hqueue : c.queue = i :: queue)
    (h : IdleDone { c with queue := queue } i c') :
    run tableStep c.table (if i.announces then [.idle] else []) = .ok c'.table := by
  cases h with
  | peerOnline => simp [tableStep, Client.table, hqueue, List.filter_cons, Idle.announces]
  | peerOffline hq hwins hcap hdestroy =>
    have hdestroy' : destroyPeer c.peers _ = .ok _ := hdestroy
    simp [tableStep, Client.table, hqueue, List.filter_cons, Idle.announces, hdestroy']
  | addText => simp [Client.table, hqueue, Idle.announces]
  | openWin hopen =>
    obtain ⟨q, gChatWins, -, -, -, rfl⟩ := hopen.opened
    simp [Client.table, hqueue, Idle.announces]

/-- Bytes that are not unpacked as a message of the tracker's leave the table alone. -/
theorem clientReceive_table_eq (hc : c.WF) {mem : ℕ → UInt8} {msglen : ℕ} {u : Uninit}
    (h : clientReceive gTrackerAddr c fromaddr mem msglen u = .ok c')
    (hm : ∀ pm, unpackClientMsg mem msglen u = some (.peer pm) →
      hostAddrIpaddrEquals fromaddr gTrackerAddr = false) : c'.table = c.table := by
  rw [clientReceive] at h
  cases hmsg : unpackClientMsg mem msglen u with
  | none =>
    rw [hmsg] at h
    exact Except.ok.inj h ▸ rfl
  | some m =>
    rw [hmsg] at h
    refine (clientHandleMsg_ok hc.peers h).table_eq fun pm hpm => hm pm ?_
    rw [hmsg, hpm]

/-- Every event is a step of the table, or leaves it alone. -/
theorem clientInputStep_table (hc : c.WF) (he : WellFormedFrom gTrackerAddr e)
    (h : clientInputStep gTrackerAddr c e = .ok c') :
    run tableStep c.table (tableEvents gTrackerAddr c e) = .ok c'.table := by
  cases e with
  | recv r =>
    rw [clientInputStep] at h
    rw [tableEvents]
    by_cases hfrom : hostAddrIpaddrEquals r.fromaddr gTrackerAddr = true
    · rw [if_pos hfrom]
      cases hdec : decodePeerMsg r.body with
      | some pm =>
        rw [clientReceive, unpackClientMsg_peer r.holds hdec] at h
        change run tableStep c.table [.recv pm] = _
        rw [run_cons, (clientHandleMsg_ok hc.peers h).tableStep hfrom]
        rfl
      | none =>
        -- the message has another number
        have hother : ∀ pm, unpackClientMsg r.mem r.body.length r.uninit ≠ some (.peer pm) := by
          intro pm hpm
          have hsome := he hfrom (msgno_of_unpackClientMsg hpm)
          rw [hdec] at hsome
          cases hsome
        rw [clientReceive_table_eq hc h fun pm hpm => absurd hpm (hother pm)]
        rfl
    · rw [if_neg hfrom, clientReceive_table_eq hc h fun _ _ => Bool.eq_false_iff.mpr hfrom]
      rfl
  | idle =>
    rw [clientInputStep] at h
    cases clientStep_ok hc h with
    | idle hqueue hdone =>
      rw [tableEvents, hqueue]
      exact hdone.table hqueue
    | noIdle hqueue =>
      rw [tableEvents, hqueue]
      rfl
  | select hpeer =>
    rw [clientInputStep] at h
    cases clientStep_ok hc h with
    | select _ hopen =>
      obtain ⟨q, gChatWins, -, -, -, rfl⟩ := hopen.opened
      rfl
    | selectNothing => rfl
  | send hpeer text z =>
    rw [(chatwinSend_ok hc h).table]
    rfl

/-- Every event keeps the invariant. -/
theorem clientInputStep_wf (hc : c.WF) (h : clientInputStep gTrackerAddr c e = .ok c') :
    c'.WF := by
  cases e with
  | recv r =>
    rw [clientInputStep, clientReceive] at h
    split at h
    · exact Except.ok.inj h ▸ hc
    · exact (clientHandleMsg_ok hc.peers h).wf hc
  | idle | select =>
    rw [clientInputStep] at h
    exact (clientStep_ok hc h).wf hc
  | send hpeer text z => exact (chatwinSend_ok hc h).wf hc

/-- A text that is new is one that the user has sent, or that was received just now from a peer
with a record. -/
theorem clientInputStep_texts (hc : c.WF) (h : clientInputStep gTrackerAddr c e = .ok c')
    {ct : ChatText} (hct : ct ∈ c'.texts) : ct ∈ c.texts ∨ ct.fromaddr = 0 ∨
      ∃ r text, e = .recv r ∧ ct.fromaddr = r.fromaddr ∧ (c.peers.at r.fromaddr).isSome ∧
        unpackClientMsg r.mem r.body.length r.uninit = some (.chattext text) ∧
        ct.text = stringDup text := by
  cases e with
  | recv r =>
    rw [clientInputStep, clientReceive] at h
    cases hmsg : unpackClientMsg r.mem r.body.length r.uninit with
    | none =>
      rw [hmsg] at h
      obtain rfl := Except.ok.inj h
      exact Or.inl hct
    | some m =>
      rw [hmsg] at h
      cases clientHandleMsg_ok hc.peers h with
      | foreign | online | offline | offlineUnknown | chattextUnknown => exact Or.inl hct
      | chattext hq happend =>
        change ct ∈ Array.toList _ at hct
        rw [gIdleAdd, (arrayAppend_ok happend).1] at hct
        rcases List.mem_append.mp hct with hct | hct
        · exact Or.inl hct
        · obtain rfl := List.mem_singleton.mp hct
          refine Or.inr (Or.inr ⟨r, _, rfl, rfl, ?_, hmsg, rfl⟩)
          rw [hq]
          rfl
  | idle =>
    rw [clientInputStep] at h
    left
    cases clientStep_ok hc h with
    | noIdle => exact hct
    | idle _ hdone =>
      cases hdone with
      | peerOnline | peerOffline | addText => exact hct
      | openWin hopen =>
        obtain ⟨q, gChatWins, -, -, -, rfl⟩ := hopen.opened
        exact hct
  | select hpeer =>
    rw [clientInputStep] at h
    left
    cases clientStep_ok hc h with
    | selectNothing => exact hct
    | select _ hopen =>
      obtain ⟨q, gChatWins, -, -, -, rfl⟩ := hopen.opened
      exact hct
  | send hpeer text z => exact ((chatwinSend_ok hc h).texts hct).imp_right Or.inl

end Step

/-! ## Runs -/

section Runs

variable {gTrackerAddr : HostAddr} {es es₁ es₂ : List ClientInput} {c c₁ c₂ : Client}
  {trace : List TableEvent}

/-- The text was received, in one of the events, from an address that had a record then. -/
def ArrivedFromPeer (gTrackerAddr : HostAddr) (es : List ClientInput) (ct : ChatText) : Prop :=
  ∃ before r after c text, es = before ++ .recv r :: after ∧
    run (clientInputStep gTrackerAddr) clientInit before = .ok c ∧
    (c.peers.at r.fromaddr).isSome ∧ ct.fromaddr = r.fromaddr ∧
    unpackClientMsg r.mem r.body.length r.uninit = some (.chattext text) ∧
    ct.text = stringDup text

theorem ArrivedFromPeer.concat {ct : ChatText} (h : ArrivedFromPeer gTrackerAddr es ct)
    (e : ClientInput) : ArrivedFromPeer gTrackerAddr (es ++ [e]) ct := by
  obtain ⟨before, r, after, c, text, rfl, h⟩ := h
  exact ⟨before, r, after ++ [e], c, text, by simp, h⟩

/-- The texts that were received have come from addresses with a record. -/
theorem texts_arrived (hrun : run (clientInputStep gTrackerAddr) clientInit es = .ok c) :
    ∀ ct ∈ c.texts, ct.fromaddr ≠ 0 → ArrivedFromPeer gTrackerAddr es ct := by
  refine (run_history (I := fun es c => run (clientInputStep gTrackerAddr) clientInit es = .ok c ∧
    c.WF ∧ ∀ ct ∈ c.texts, ct.fromaddr ≠ 0 → ArrivedFromPeer gTrackerAddr es ct)
    ⟨rfl, clientInit_wf, fun _ hct => absurd hct List.not_mem_nil⟩ ?_ hrun).2.2
  rintro es c e c' ⟨hrun, hc, htexts⟩ hstep
  refine ⟨by rw [run_concat, hrun, ok_bind, hstep], clientInputStep_wf hc hstep,
    fun ct hct hne => ?_⟩
  rcases clientInputStep_texts hc hstep hct with hold | hzero | ⟨r, text, rfl, hfrom, hknown, h⟩
  · exact (htexts ct hold hne).concat e
  · exact absurd hzero hne
  · exact ⟨es, r, [], c, text, rfl, hrun, hknown, hfrom, h⟩

/-- What the peer table is after a run depends only on the messages with which the tracker
announces peers, and on when the callbacks that they post run: two runs in which these are the
same have the same table, whatever else was received and done in them.  And a text that was
received is stored only if its sender had a record. -/
theorem tracker_alone_changes_table (hes₁ : ∀ e ∈ es₁, WellFormedFrom gTrackerAddr e)
    (hes₂ : ∀ e ∈ es₂, WellFormedFrom gTrackerAddr e)
    (hrun₁ : run (traced (clientInputStep gTrackerAddr) (tableEvents gTrackerAddr))
      (clientInit, []) es₁ = .ok (c₁, trace))
    (hrun₂ : run (traced (clientInputStep gTrackerAddr) (tableEvents gTrackerAddr))
      (clientInit, []) es₂ = .ok (c₂, trace)) :
    c₁.peers = c₂.peers ∧
      ∀ ct ∈ c₁.texts, ct.fromaddr ≠ 0 → ArrivedFromPeer gTrackerAddr es₁ ct := by
  have hwf : ∀ c e c', Client.WF c → WellFormedFrom gTrackerAddr e →
      clientInputStep gTrackerAddr c e = .ok c' → Client.WF c' :=
    fun _ _ _ hc _ h => clientInputStep_wf hc h
  have hview : ∀ c e c', Client.WF c → WellFormedFrom gTrackerAddr e →
      clientInputStep gTrackerAddr c e = .ok c' →
      run tableStep c.table (tableEvents gTrackerAddr c e) = .ok c'.table :=
    fun _ _ _ hc he h => clientInputStep_table hc he h
  obtain ⟨-, htable₁⟩ := run_traced clientInit_wf hwf hview hes₁ hrun₁
  obtain ⟨-, htable₂⟩ := run_traced clientInit_wf hwf hview hes₂ hrun₂
  have hsame : c₁.table = c₂.table := Except.ok.inj (htable₁.symm.trans htable₂)
  exact ⟨congrArg TableState.peers hsame, texts_arrived (run_of_traced hrun₁)⟩

/-- A client is told by the tracker of a peer.  In another run a stranger first claims that the
peer has gone and then that it is another peer, and the peer sends a text: the table is the
same. -/
theorem table_same_with_stranger :
    ∃ c₁ c₂ : Client, (c₁.peers.at 5).isSome ∧ c₂.texts.map ChatText.fromaddr = [5] ∧
      c₁.peers = c₂.peers ∧ ∀ ct ∈ c₁.texts, ct.fromaddr ≠ 0 →
        ArrivedFromPeer 1 [.recv (.ofBytes 1
          [1, 0, 0, 0, 0, 0, 0, 0, 0, 0, 0, 0, 5, 0, 0, 0, 0, 0, 0, 0, 6] ⟨0, 0⟩), .idle] ct := by
  obtain ⟨c₁, trace₁, hrun₁, htrace₁, hpeer⟩ : ∃ c₁ trace₁,
      run (traced (clientInputStep 1) (tableEvents 1)) (clientInit, [])
        [.recv (.ofBytes 1
          [1, 0, 0, 0, 0, 0, 0, 0, 0, 0, 0, 0, 5, 0, 0, 0, 0, 0, 0, 0, 6] ⟨0, 0⟩), .idle] =
          .ok (c₁, trace₁) ∧
      trace₁ = [.recv (.online CStr.empty CStr.empty 5 6), .idle] ∧
      (c₁.peers.at 5).isSome :=
    ⟨_, _, rfl, rfl, rfl⟩
  obtain ⟨c₂, trace₂, hrun₂, htrace₂, htexts⟩ : ∃ c₂ trace₂,
      run (traced (clientInputStep 1) (tableEvents 1)) (clientInit, [])
        [.recv (.ofBytes 9 [2, 0, 0, 0, 0, 0, 0, 0, 5] ⟨0, 0⟩),
         .recv (.ofBytes 1
          [1, 0, 0, 0, 0, 0, 0, 0, 0, 0, 0, 0, 5, 0, 0, 0, 0, 0, 0, 0, 6] ⟨0, 0⟩),
         .recv (.ofBytes 9 [1] ⟨5, 7⟩),
         .recv (.ofBytes 5 [5, 0, 1, 104] ⟨0, 0⟩), .idle, .idle] = .ok (c₂, trace₂) ∧
      trace₂ = [.recv (.online CStr.empty CStr.empty 5 6), .idle] ∧
      c₂.texts.map ChatText.fromaddr = [5] :=
    ⟨_, _, rfl, rfl, rfl⟩
  rw [htrace₁] at hrun₁
  rw [htrace₂] at hrun₂
  refine ⟨c₁, c₂, hpeer, htexts, tracker_alone_changes_table ?_ ?_ hrun₁ hrun₂⟩
  · intro e he
    fin_cases he
    · exact fun _ _ => rfl
    · trivial
  · intro e he
    fin_cases he
    · exact fun hfrom => absurd hfrom (by decide)
    · exact fun _ _ => rfl
    · exact fun hfrom => absurd hfrom (by decide)
    · exact fun hfrom => absurd hfrom (by decide)
    · trivial
    · trivial

end Runs

end TinyMsg
