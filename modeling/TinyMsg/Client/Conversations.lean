import TinyMsg.Client.Isolation
import TinyMsg.Client.PeerState

/-!
# Does a message history show its own conversation?

`GChatTexts` holds the texts of all conversations, with addresses instead of handles: a text that
was received has the address of its sender, and a text that was sent has the listening address that
the peer had then.  `refresh_msghistory` picks the texts of a peer by its present addresses.  The
address of a peer never changes, so those that were received are found; its listening address may
change, and another peer may have the same one.

The conversation that a text belongs to is put on record as it happens (`logged`), and the history
of a peer is compared with that record.
-/

namespace TinyMsg

/-! ## The conversations -/

/-- What happens to a client, messages being unpacked. -/
inductive ChatEvent
  /-- A message, a callback or a selection. -/
  | client (e : ClientEvent)
  /-- The user sends a text from the window of a peer, and `ConnectAndSendMsg` returns `z`. -/
  | send (hpeer : TMHandle) (text : CStr) (z : ℤ)

/-- One event. -/
def chatStep (gTrackerAddr : HostAddr) (c : Client) : ChatEvent → Exec Client
  | .client e => clientStep gTrackerAddr c e
  | .send hpeer text z => chatwinSend c hpeer text z

/-- A text of a conversation. -/
inductive Spoken
  /-- It was received from the peer, whose address is `fromaddr`. -/
  | received (hpeer : TMHandle) (fromaddr : HostAddr) (text : String)
  /-- It was sent to the peer, whose listening address was `toaddr`. -/
  | sent (hpeer : TMHandle) (toaddr : HostAddr) (text : CStr)

/-- The peer that the conversation is with. -/
def Spoken.hpeer : Spoken → TMHandle
  | .received hpeer _ _ => hpeer
  | .sent hpeer _ _ => hpeer

/-- What is kept of the text. -/
def Spoken.chatText : Spoken → ChatText
  | .received _ fromaddr text => ⟨fromaddr, 0, stringDup text⟩
  | .sent _ toaddr text => ⟨0, toaddr, stringNew text⟩

/-- What an event adds to the conversations: a text that comes from a peer with a record, or a text
that was sent with success from the window of a peer. -/
def logged (c : Client) : ChatEvent → List Spoken
  | .client (.recv fromaddr (.chattext text)) =>
    (c.peers.at fromaddr).toList.map fun q => .received q.hpeer fromaddr text
  | .client _ => []
  | .send hpeer text z =>
    if z ≠ -1 ∧ (lookup ChatWin.hpeer c.wins hpeer).isSome then
      (c.peers.atHandle hpeer).toList.map fun q => .sent hpeer q.toaddr text
    else []

/-- The message history of a peer is its conversation. -/
structure ShowsOwn (c : Client) (log : List Spoken) (q : Peer) : Prop where
  /-- It consists of the texts received from the peer and sent to it, in order. -/
  rows : refreshMsghistory c.gChatTexts q =
    .ok ((log.filter fun t => t.hpeer = q.hpeer).flatMap fun t => addChattext q t.chatText)
  /-- Each of them has a row in it, and no text of another conversation has one. -/
  selects : ∀ t ∈ log, addChattext q t.chatText ≠ [] ↔ t.hpeer = q.hpeer

/-- The listening addresses keep the conversation of a peer apart from the others.  (The address
zero is what stands for no address in a chat text.) -/
structure KeptApart (log : List Spoken) (q : Peer) : Prop where
  /-- What was sent to the peer went to the listening address that it has now. -/
  sent_own : ∀ toaddr text, .sent q.hpeer toaddr text ∈ log →
    toaddr = q.toaddr ∨ q.fromaddr = 0
  /-- What was sent to others went elsewhere. -/
  sent_other : ∀ hpeer toaddr text, .sent hpeer toaddr text ∈ log → hpeer ≠ q.hpeer →
    toaddr ≠ q.toaddr ∧ q.fromaddr ≠ 0
  /-- If others have sent something, the listening address is not zero. -/
  received_other : ∀ hpeer fromaddr text, .received hpeer fromaddr text ∈ log →
    hpeer ≠ q.hpeer → q.toaddr ≠ 0

/-! ## The invariant -/

/-- What links the client to the conversations. -/
structure Chronicled (c : Client) (log : List Spoken) : Prop where
  /-- The client is well formed. -/
  wf : c.WF
  /-- The texts kept are those of the conversations. -/
  kept : c.texts = log.map Spoken.chatText
  /-- A text that was received belongs to the peer at the address that it came from. -/
  sender : ∀ hpeer fromaddr text, .received hpeer fromaddr text ∈ log →
    ∃ q, c.peers.at fromaddr = some q ∧ q.hpeer = hpeer

section Step

variable {gTrackerAddr fromaddr : HostAddr} {c c' : Client} {m : ClientMsg} {e : ClientEvent}
  {log : List Spoken} {i : Idle}

/-- Handling a message keeps the handle of every address. -/
theorem ClientHandled.handle (hc : c.WF) (h : ClientHandled gTrackerAddr c fromaddr m c')
    {a : HostAddr} {q : Peer} (hq : c.peers.at a = some q) :
    ∃ q', c'.peers.at a = some q' ∧ q'.hpeer = q.hpeer := by
  have hwf' := h.wf hc
  cases h with
  | foreign | offline | offlineUnknown | chattext | chattextUnknown => exact ⟨q, hq, rfl⟩
  | online hfrom hcreate =>
    obtain ⟨q', hq', haddr⟩ := createPeer_atHandle hc.peers hcreate (hc.peers.atHandle_of_at hq)
    have hat := hwf'.peers.at_of_atHandle hq'
    rw [haddr, (lookup_some hq).2] at hat
    exact ⟨q', hat, (lookup_some hq').2⟩

/-- Running a callback keeps the handle of every address. -/
theorem IdleDone.handle (hc : c.WF) (h : IdleDone c i c') {a : HostAddr} {q : Peer}
    (hq : c.peers.at a = some q) : ∃ q', c'.peers.at a = some q' ∧ q'.hpeer = q.hpeer := by
  rw [h.peers_at hc, hq, Option.map_some]
  refine ⟨_, rfl, ?_⟩
  split <;> rfl

/-- Every event keeps the handle of every address. -/
theorem ClientStepped.handle (hc : c.WF) (h : ClientStepped gTrackerAddr c e c') {a : HostAddr}
    {q : Peer} (hq : c.peers.at a = some q) :
    ∃ q', c'.peers.at a = some q' ∧ q'.hpeer = q.hpeer := by
  cases h with
  | recv h => exact h.handle hc hq
  | idle hqueue h => exact h.handle (hc.dequeue hqueue) hq
  | noIdle | selectNothing => exact ⟨q, hq, rfl⟩
  | select _ h =>
    obtain ⟨r, gChatWins, -, -, -, rfl⟩ := h.opened
    exact ⟨q, hq, rfl⟩

/-- A callback stores no text. -/
theorem IdleDone.texts (h : IdleDone c i c') : c'.texts = c.texts := by
  cases h with
  | peerOnline | peerOffline | addText => rfl
  | openWin hopen =>
    obtain ⟨r, gChatWins, -, -, -, rfl⟩ := hopen.opened
    rfl

/-- The texts stored by a message are those that it adds to the conversations. -/
theorem ClientHandled.texts (h : ClientHandled gTrackerAddr c fromaddr m c') :
    c'.texts = c.texts ++ (logged c (.client (.recv fromaddr m))).map Spoken.chatText := by
  cases h with
  | foreign | offlineUnknown | online | offline => exact (List.append_nil _).symm
  | chattextUnknown hq =>
    rw [logged, hq]
    exact (List.append_nil _).symm
  | chattext hq happend =>
    rw [logged, hq]
    exact (arrayAppend_ok happend).1

/-- The texts stored by an event are those that it adds to the conversations. -/
theorem ClientStepped.texts (h : ClientStepped gTrackerAddr c e c') :
    c'.texts = c.texts ++ (logged c (.client e)).map Spoken.chatText := by
  cases h with
  | recv h => exact h.texts
  | idle hqueue h =>
    rw [h.texts]
    exact (List.append_nil _).symm
  | noIdle | selectNothing => exact (List.append_nil _).symm
  | select _ h =>
    obtain ⟨r, gChatWins, -, -, -, rfl⟩ := h.opened
    exact (List.append_nil _).symm

/-- The text stored by sending is the one that it adds to the conversation. -/
theorem ChatSent.texts_eq {hpeer : TMHandle} {text : CStr} {z : ℤ}
    (h : ChatSent c hpeer text z c') :
    c'.texts = c.texts ++ (logged c (.send hpeer text z)).map Spoken.chatText := by
  cases h with
  | nothing h =>
    have hnil : logged c (.send hpeer text z) = [] := by
      rcases h with hq | hw | rfl
      · rw [logged, hq]
        exact ite_self _
      · rw [logged, hw]
        exact if_neg fun h => Bool.false_ne_true h.2
      · rw [logged]
        exact if_neg fun h => h.1 rfl
    rw [hnil, List.map_nil, List.append_nil]
  | sent hq hw hz happend =>
    rw [logged, if_pos ⟨hz, hw⟩, hq]
    exact (arrayAppend_ok happend).1

/-- A text that is received belongs to the peer that the address has a record of. -/
theorem logged_received {e : ChatEvent} {hpeer : TMHandle} {text : String}
    (h : .received hpeer fromaddr text ∈ logged c e) :
    ∃ q, c.peers.at fromaddr = some q ∧ q.hpeer = hpeer := by
  unfold logged at h
  split at h
  case h_1 a text' =>
    obtain ⟨q, hq, heq⟩ := List.mem_map.mp h
    obtain ⟨hhandle, rfl, -⟩ := Spoken.received.inj heq
    exact ⟨q, Option.mem_toList.mp hq, hhandle⟩
  case h_2 => exact absurd h List.not_mem_nil
  case h_3 =>
    split at h
    · obtain ⟨q, -, heq⟩ := List.mem_map.mp h
      cases heq
    · exact absurd h List.not_mem_nil

/-- A step keeps the link if it stores what it adds to the conversations, and keeps the handle of
every address. -/
theorem Chronicled.extend (hlog : Chronicled c log) {e : ChatEvent} (hwf' : c'.WF)
    (htexts : c'.texts = c.texts ++ (logged c e).map Spoken.chatText)
    (hhandle : ∀ a q, c.peers.at a = some q → ∃ q', c'.peers.at a = some q' ∧ q'.hpeer = q.hpeer) :
    Chronicled c' (log ++ logged c e) where
  wf := hwf'
  kept := by rw [htexts, hlog.kept, List.map_append]
  sender := by
    intro hpeer fromaddr text hmem
    have hbefore : ∃ q, c.peers.at fromaddr = some q ∧ q.hpeer = hpeer := by
      rcases List.mem_append.mp hmem with hold | hnew
      · exact hlog.sender hpeer fromaddr text hold
      · exact logged_received hnew
    obtain ⟨q, hq, rfl⟩ := hbefore
    exact hhandle fromaddr q hq

/-- Every event keeps the link. -/
theorem Chronicled.step (hlog : Chronicled c log) {e : ChatEvent}
    (hstep : chatStep gTrackerAddr c e = .ok c') : Chronicled c' (log ++ logged c e) := by
  cases e with
  | client e =>
    have hstepped := clientStep_ok hlog.wf hstep
    exact hlog.extend (hstepped.wf hlog.wf) hstepped.texts fun a q => hstepped.handle hlog.wf
  | send hpeer text z =>
    have hsent := chatwinSend_ok hlog.wf hstep
    have htable := congrArg TableState.peers hsent.table
    refine hlog.extend (hsent.wf hlog.wf) hsent.texts_eq fun a q hq => ⟨q, ?_, rfl⟩
    change c'.peers = c.peers at htable
    rw [htable]
    exact hq

/-- The link holds after every run. -/
theorem chronicled_run {es : List ChatEvent}
    (hrun : run (traced (chatStep gTrackerAddr) logged) (clientInit, []) es = .ok (c, log)) :
    Chronicled c log := by
  have hkeep : ∀ (s : Client × List Spoken) e s', Chronicled s.1 s.2 →
      traced (chatStep gTrackerAddr) logged s e = .ok s' → Chronicled s'.1 s'.2 := by
    intro s e s' hs hstep
    obtain ⟨c', hc', heq⟩ := bind_eq_ok.mp hstep
    obtain rfl := Except.ok.inj heq
    exact hs.step hc'
  have hinit : Chronicled clientInit [] :=
    ⟨clientInit_wf, rfl, fun _ _ _ h => absurd h List.not_mem_nil⟩
  exact run_invariant (I := fun s => Chronicled s.1 s.2) hkeep hinit hrun

end Step

/-! ## The histories -/

section Histories

variable {c : Client} {log : List Spoken} {q : Peer} {t : Spoken}

/-- A text is picked by the address that it came from or by the one that it went to. -/
theorem addChattext_ne_nil (q : Peer) (ct : ChatText) :
    addChattext q ct ≠ [] ↔ ct.fromaddr = q.fromaddr ∨ ct.toaddr = q.toaddr := by
  unfold addChattext
  split
  case isTrue h => exact iff_of_true (List.cons_ne_nil _ _) (Or.inl h)
  case isFalse h =>
    split
    case isTrue h' => exact iff_of_true (List.cons_ne_nil _ _) (Or.inr h')
    case isFalse h' => exact iff_of_false (fun hne => hne rfl) (not_or.mpr ⟨h, h'⟩)

/-- A text was received from the peer exactly when it came from its address. -/
theorem Chronicled.received_own (hlog : Chronicled c log) (hq : c.peers.at q.fromaddr = some q)
    {hpeer : TMHandle} {fromaddr : HostAddr} {text : String}
    (ht : .received hpeer fromaddr text ∈ log) : hpeer = q.hpeer ↔ fromaddr = q.fromaddr := by
  obtain ⟨r, hr, rfl⟩ := hlog.sender hpeer fromaddr text ht
  constructor
  · intro heq
    exact hlog.wf.peers.at_inj hr hq heq
  · rintro rfl
    rw [Option.some.inj (hr.symm.trans hq)]

/-- The texts that have rows are those of the conversation exactly when it is kept apart. -/
theorem Chronicled.selects_iff (hlog : Chronicled c log) (hq : c.peers.at q.fromaddr = some q) :
    (∀ t ∈ log, addChattext q t.chatText ≠ [] ↔ t.hpeer = q.hpeer) ↔ KeptApart log q := by
  simp only [addChattext_ne_nil]
  constructor
  · intro h
    refine ⟨fun toaddr text ht => ?_, fun hpeer toaddr text ht hne => ?_,
      fun hpeer fromaddr text ht hne hzero => ?_⟩
    · rcases (h _ ht).mpr rfl with hfrom | hto
      · exact Or.inr hfrom.symm
      · exact Or.inl hto
    · have hnot := mt (h _ ht).mp hne
      exact ⟨fun hto => hnot (Or.inr hto), fun hfrom => hnot (Or.inl hfrom.symm)⟩
    · exact hne ((h _ ht).mp (Or.inr hzero.symm))
  · intro h t ht
    cases t with
    | received hpeer fromaddr text =>
      have hown := hlog.received_own hq ht
      change fromaddr = q.fromaddr ∨ 0 = q.toaddr ↔ hpeer = q.hpeer
      constructor
      · rintro (hfrom | hzero)
        · exact hown.mpr hfrom
        · by_contra hne
          exact h.received_other hpeer fromaddr text ht hne hzero.symm
      · intro heq
        exact Or.inl (hown.mp heq)
    | sent hpeer toaddr text =>
      change 0 = q.fromaddr ∨ toaddr = q.toaddr ↔ hpeer = q.hpeer
      constructor
      · intro hsel
        by_contra hne
        obtain ⟨hto, hfrom⟩ := h.sent_other hpeer toaddr text ht hne
        exact hsel.elim (fun hzero => hfrom hzero.symm) hto
      · rintro rfl
        rcases h.sent_own toaddr text ht with hto | hfrom
        · exact Or.inr hto
        · exact Or.inl hfrom.symm

/-- Items without rows may be left out before the rows are put together. -/
theorem flatMap_filter_of_nil {α β : Type*} {f : α → List β} {P : α → Prop} [DecidablePred P]
    {l : List α} (h : ∀ x ∈ l, ¬ P x → f x = []) : (l.filter P).flatMap f = l.flatMap f := by
  induction l with
  | nil => rfl
  | cons x l ih =>
    have ih := ih fun y hy => h y (List.mem_cons_of_mem x hy)
    by_cases hx : P x
    · rw [List.filter_cons_of_pos (by simpa using hx), List.flatMap_cons, List.flatMap_cons, ih]
    · rw [List.filter_cons_of_neg (by simpa using hx), List.flatMap_cons,
        h x List.mem_cons_self hx, List.nil_append, ih]

end Histories

/-- After every run of messages, callbacks, selections and texts sent, and for every peer with a
record, `refresh_msghistory` shows the texts received from the peer and sent to it, in order and no
others, if and only if the listening addresses keep its conversation apart. -/
theorem shows_own_iff (gTrackerAddr : HostAddr) (es : List ChatEvent) (c : Client)
    (log : List Spoken)
    (hrun : run (traced (chatStep gTrackerAddr) logged) (clientInit, []) es = .ok (c, log))
    (hpeer : TMHandle) (q : Peer) (hq : getPeerData c.peers hpeer = .ok (some q)) :
    ShowsOwn c log q ↔ KeptApart log q := by
  have hlog := chronicled_run hrun
  rw [getPeerData_eq] at hq
  have hat := hlog.wf.peers.at_of_atHandle (Except.ok.inj hq)
  rw [← hlog.selects_iff hat]
  constructor
  · intro h
    exact h.selects
  · intro h
    refine ⟨?_, h⟩
    have hskip : ∀ t ∈ log, ¬ t.hpeer = q.hpeer → addChattext q t.chatText = [] := by
      intro t ht hne
      by_contra hrow
      exact hne ((h t ht).mp hrow)
    have htexts : c.gChatTexts.toList = log.map Spoken.chatText := hlog.kept
    rw [refreshMsghistory_eq, htexts, List.flatMap_map, flatMap_filter_of_nil hskip]

/-- A peer with the address 2 that listens at 3 joins, and its window is opened. -/
def windowOpened : List ChatEvent :=
  [.client (.recv 1 (.peer (.online CStr.empty CStr.empty 2 3))), .client .idle,
    .client (.select 1)]

/-- One text each way. -/
def exchange : List ChatEvent :=
  windowOpened ++ [.client (.recv 2 (.chattext stringNew0)), .send 1 CStr.empty 0]

/-- After one text each way the history is that of the conversation exactly when it is kept
apart. -/
theorem shows_own_of_exchange :
    ∃ c log, run (traced (chatStep 1) logged) (clientInit, []) exchange = .ok (c, log) ∧
      log.length = 2 ∧ (ShowsOwn c log (peerNew 1 CStr.empty CStr.empty 2 3) ↔
        KeptApart log (peerNew 1 CStr.empty CStr.empty 2 3)) :=
  ⟨_, _, rfl, rfl, shows_own_iff 1 exchange _ _ rfl 1 _ rfl⟩

/-- A text is sent to a peer; another peer joins that listens at the same address, and the first one
comes back with another listening port.  The history of the first has lost the text, and that of the
other shows it. -/
theorem moved_peer_loses_text :
    ∃ c, run (traced (chatStep 1) logged) (clientInit, [])
        (windowOpened ++ [.send 1 CStr.empty 0,
          .client (.recv 1 (.peer (.online CStr.empty CStr.empty 5 3))),
          .client (.recv 1 (.peer (.online CStr.empty CStr.empty 2 4)))]) =
        .ok (c, [.sent 1 3 CStr.empty]) ∧
      refreshMsghistory c.gChatTexts (peerNew 1 CStr.empty CStr.empty 2 4) = .ok [] ∧
      refreshMsghistory c.gChatTexts (peerNew 2 CStr.empty CStr.empty 5 3) =
        .ok [.sent (stringNew CStr.empty)] ∧
      getPeerData c.peers 1 = .ok (some (peerNew 1 CStr.empty CStr.empty 2 4)) ∧
      getPeerData c.peers 2 = .ok (some (peerNew 2 CStr.empty CStr.empty 5 3)) ∧
      ¬ ShowsOwn c [.sent 1 3 CStr.empty] (peerNew 1 CStr.empty CStr.empty 2 4) ∧
      ¬ ShowsOwn c [.sent 1 3 CStr.empty] (peerNew 2 CStr.empty CStr.empty 5 3) := by
  refine ⟨_, rfl, rfl, rfl, rfl, rfl, fun h => ?_, fun h => ?_⟩
  · exact absurd ((h.selects _ List.mem_cons_self).mpr rfl) (fun hne => hne rfl)
  · exact absurd ((h.selects _ List.mem_cons_self).mp (List.cons_ne_nil _ _)) (by decide)

end TinyMsg
