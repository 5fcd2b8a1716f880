import TinyMsg.Client.Step

/-!
# Is every chat text shown exactly once?

A CHATTEXT is appended to `GChatTexts` and posted with `IDLE_open_chatwin`.  The callback adds the
text to the window of its peer if there is one, and otherwise opens a window with all of
`GChatTexts`.  A window that is opened, by the callback or by the user, thus shows the texts of
callbacks that still wait, and these show them again.

For one peer three lists are compared: the texts that its window shows, those of the callbacks that
wait, and those received (`Balanced`).  Without a window all that was received waits.  With a window
the first two lists together are the third one, unless the window was opened while other callbacks
of the peer were waiting (`OpenedEarly`); then they are longer, and stay so.
-/

namespace TinyMsg

/-! ## What is shown, what waits and what was received -/

/-- The text of a row, if it was received. -/
def HistoryRow.receivedText : HistoryRow → Option String
  | .received _ text => some text
  | _ => none

/-- The texts received that a window shows. -/
def ChatWin.texts (w : ChatWin) : List String := w.rows.filterMap HistoryRow.receivedText

/-- The texts that the window of a peer shows, if it has one. -/
def Client.shown (c : Client) (hpeer : TMHandle) : Option (List String) :=
  (lookup ChatWin.hpeer c.wins hpeer).map ChatWin.texts

/-- The text of an `IDLE_open_chatwin` for a peer. -/
def Idle.chatText (hpeer : TMHandle) : Idle → Option String
  | .openChatwin k ct => if k = hpeer then some ct.text else none
  | _ => none

/-- The texts of a peer in the callbacks that wait. -/
def Client.pending (c : Client) (hpeer : TMHandle) : List String :=
  c.queue.filterMap (Idle.chatText hpeer)

/-- The event is a PEER_ONLINE of the tracker about the address. -/
def announces (gTrackerAddr a : HostAddr) : ClientEvent → Bool
  | .recv fromaddr (.peer m) =>
    hostAddrIpaddrEquals fromaddr gTrackerAddr && m.isOnline && m.fromaddr = a
  | _ => false

/-- The copy that is kept of a text that comes from the address. -/
def textFrom (a : HostAddr) : ClientEvent → Option String
  | .recv fromaddr (.chattext text) => if fromaddr = a then some (stringDup text) else none
  | _ => none

@[simp] theorem textFrom_idle (a : HostAddr) : textFrom a .idle = none := rfl

/-- The texts received from a peer: those that come from its address once it is announced. -/
def textsFrom (gTrackerAddr a : HostAddr) (es : List ClientEvent) : List String :=
  (es.dropWhile fun e => !announces gTrackerAddr a e).filterMap (textFrom a)

/-- The event opens the window of a peer while other callbacks with its texts wait. -/
def Client.opensEarly (c : Client) (hpeer : TMHandle) : ClientEvent → Prop
  | .select k => k = hpeer ∧ c.rowShown hpeer ∧ c.shown hpeer = none ∧ c.pending hpeer ≠ []
  | .idle => c.shown hpeer = none ∧ ∃ ct queue, c.queue = .openChatwin hpeer ct :: queue ∧
      Client.pending { c with queue := queue } hpeer ≠ []
  | .recv .. => False

/-- At some point the window of the peer at an address was opened while other callbacks with its
texts waited. -/
def OpenedEarly (gTrackerAddr : HostAddr) (es : List ClientEvent) (a : HostAddr) : Prop :=
  ∃ es₁ e es₂ c q, es = es₁ ++ e :: es₂ ∧ run (clientStep gTrackerAddr) clientInit es₁ = .ok c ∧
    c.peers.at a = some q ∧ c.opensEarly q.hpeer e

/-- The texts shown and waiting compared with those received. -/
def Balanced (shown : Option (List String)) (pending texts : List String) (early : Prop) : Prop :=
  match shown with
  | none => pending = texts ∧ ¬early
  | some s => (¬early → (s ++ pending).Perm texts) ∧ (early → texts.length < (s ++ pending).length)

section Balanced

variable {shown : Option (List String)} {s pending texts : List String} {early : Prop} {x : String}

/-- A text is received and posted. -/
theorem Balanced.recv (h : Balanced shown pending texts early) :
    Balanced shown (pending ++ [x]) (texts ++ [x]) early := by
  cases shown with
  | none => exact ⟨by rw [h.1], h.2⟩
  | some s =>
    refine ⟨fun hnot => ?_, fun hearly => ?_⟩
    · rw [← List.append_assoc]
      exact (h.1 hnot).append_right [x]
    · have hlt := h.2 hearly
      simp only [List.length_append] at hlt ⊢
      omega

/-- A text that waits is added to the window. -/
theorem Balanced.add (h : Balanced (some s) (x :: pending) texts early) :
    Balanced (some (s ++ [x])) pending texts early := by
  rw [Balanced, List.append_assoc, List.singleton_append]
  exact h

/-- A window is opened with all the texts. -/
theorem Balanced.opened {early' : Prop} (h : Balanced none pending texts early)
    {pending' : List String} (hearly : early' ↔ early ∨ pending' ≠ []) :
    Balanced (some texts) pending' texts early' := by
  rw [or_iff_right h.2] at hearly
  refine ⟨fun hnot => ?_, fun hyes => ?_⟩
  · rw [hearly, not_not] at hnot
    rw [hnot, List.append_nil]
  · have hpos := List.length_pos_of_ne_nil (hearly.mp hyes)
    rw [List.length_append]
    omega

/-- When nothing waits, each text is shown once exactly when the window was not opened early. -/
theorem Balanced.settled (h : Balanced shown [] texts early) :
    (shown.getD []).Perm texts ↔ ¬early := by
  cases shown with
  | none =>
    rw [← h.1]
    exact ⟨fun _ => h.2, fun _ => List.Perm.refl _⟩
  | some s =>
    rw [Balanced, List.append_nil] at h
    refine ⟨fun hperm hearly => ?_, h.1⟩
    have hlt := h.2 hearly
    have heq := hperm.length_eq
    rw [Option.getD_some] at heq
    omega

end Balanced

section Events

variable {gTrackerAddr a : HostAddr} {es : List ClientEvent} {e : ClientEvent} {c : Client}

/-- The texts of a peer that was announced, with one more event. -/
theorem textsFrom_concat_known (h : ∃ x ∈ es, announces gTrackerAddr a x = true) (e : ClientEvent) :
    textsFrom gTrackerAddr a (es ++ [e]) =
      textsFrom gTrackerAddr a es ++ (textFrom a e).toList := by
  obtain ⟨x, hx, hann⟩ := h
  have hne : (es.dropWhile fun e => !announces gTrackerAddr a e) ≠ [] := by
    rw [Ne, List.dropWhile_eq_nil_iff]
    intro hall
    have := hall x hx
    rw [hann] at this
    cases this
  rw [textsFrom, List.dropWhile_append, if_neg (by simpa using hne), List.filterMap_append]
  cases h : textFrom a e <;> simp [h, textsFrom]

/-- Nothing is received from a peer that was not announced, nor by its announcement. -/
theorem textsFrom_unknown (h : ∀ x ∈ es, announces gTrackerAddr a x = false) :
    textsFrom gTrackerAddr a es = [] ∧ textsFrom gTrackerAddr a (es ++ [e]) = [] := by
  have hnil : (es.dropWhile fun e => !announces gTrackerAddr a e) = [] := by
    rw [List.dropWhile_eq_nil_iff]
    intro x hx
    rw [h x hx]
    rfl
  refine ⟨by rw [textsFrom, hnil]; rfl, ?_⟩
  rw [textsFrom, List.dropWhile_append, if_pos (by simp [hnil])]
  cases hann : announces gTrackerAddr a e with
  | false => simp [hann]
  | true =>
    have htext : textFrom a e = none := by
      cases e with
      | recv fromaddr m =>
        cases m with
        | peer m => rfl
        | chattext text => cases hann
      | idle | select => rfl
    simp [hann, htext]

/-- One more event opens a window early, or it was opened early before. -/
theorem openedEarly_concat (hrun : run (clientStep gTrackerAddr) clientInit es = .ok c) :
    OpenedEarly gTrackerAddr (es ++ [e]) a ↔
      OpenedEarly gTrackerAddr es a ∨ ∃ q, c.peers.at a = some q ∧ c.opensEarly q.hpeer e := by
  constructor
  · rintro ⟨es₁, e', es₂, c₁, q, hes, hrun₁, hq, hearly⟩
    rcases concat_eq_append_cons hes with ⟨rfl, rfl, rfl⟩ | ⟨es₃, rfl, rfl⟩
    · obtain rfl := Except.ok.inj (hrun.symm.trans hrun₁)
      exact Or.inr ⟨q, hq, hearly⟩
    · exact Or.inl ⟨es₁, e', es₃, c₁, q, rfl, hrun₁, hq, hearly⟩
  · rintro (⟨es₁, e', es₂, c₁, q, rfl, hrun₁, hq, hearly⟩ | ⟨q, hq, hearly⟩)
    · exact ⟨es₁, e', es₂ ++ [e], c₁, q, by simp, hrun₁, hq, hearly⟩
    · exact ⟨es, e, [], c, q, rfl, hrun, hq, hearly⟩

end Events

/-! ## The windows -/

section Windows

variable {c c' : Client} {hpeer : TMHandle} {i : Idle} {q : Peer}

/-- What the row of a chat text shows as received. -/
theorem addChattext_received (q : Peer) (ct : ChatText) :
    (addChattext q ct).filterMap HistoryRow.receivedText =
      if ct.fromaddr = q.fromaddr then [ct.text] else [] := by
  unfold addChattext
  split
  · rfl
  · split <;> rfl

/-- A new window shows all texts from its peer. -/
theorem refreshed_received (q : Peer) (cts : List ChatText) :
    (cts.flatMap (addChattext q)).filterMap HistoryRow.receivedText =
      (cts.filter fun ct => ct.fromaddr = q.fromaddr).map ChatText.text := by
  induction cts with
  | nil => rfl
  | cons ct cts ih =>
    rw [List.flatMap_cons, List.filterMap_append, ih, addChattext_received, List.filter_cons]
    by_cases h : ct.fromaddr = q.fromaddr <;> simp [h]

/-- What the windows show after rows were appended for one peer. -/
theorem shown_addRows {gChatWins : Array ChatWin} {rows : List HistoryRow}
    (hwins : gChatWins.toList = addRows c.wins hpeer rows) (k : TMHandle) :
    Client.shown { c with gChatWins := gChatWins } k = (c.shown k).map fun texts =>
      if k = hpeer then texts ++ rows.filterMap HistoryRow.receivedText else texts := by
  have hkey : ∀ w : ChatWin,
      (if w.hpeer = hpeer then { w with rows := w.rows ++ rows } else w).hpeer = w.hpeer := by
    intro w
    split <;> rfl
  rw [Client.shown, Client.wins, hwins, addRows, lookup_map hkey, Client.shown]
  cases hw : lookup ChatWin.hpeer c.wins k with
  | none => rfl
  | some w =>
    obtain ⟨-, rfl⟩ := lookup_some hw
    rw [Option.map_some, Option.map_some, Option.map_some, Option.map_some]
    congr 1
    split
    · exact List.filterMap_append
    · rfl

/-- Rows that are not texts received change nothing that is compared. -/
theorem shown_addRows_silent {gChatWins : Array ChatWin} {rows : List HistoryRow}
    (hwins : gChatWins.toList = addRows c.wins hpeer rows)
    (hrows : rows.filterMap HistoryRow.receivedText = []) (k : TMHandle) :
    Client.shown { c with gChatWins := gChatWins } k = c.shown k := by
  rw [shown_addRows hwins, hrows]
  simp

/-- What the windows show after one was opened. -/
theorem WinOpened.shown (h : WinOpened c hpeer c') :
    c.shown hpeer = none ∧ c'.queue = c.queue ∧ c'.peers = c.peers ∧ c'.texts = c.texts ∧
      ∃ q, c.peers.atHandle hpeer = some q ∧ ∀ k, c'.shown k =
        if k = hpeer then
          some ((c.texts.filter fun ct => ct.fromaddr = q.fromaddr).map ChatText.text)
        else c.shown k := by
  obtain ⟨q, gChatWins, hq, hlist, -, rfl⟩ := h.opened
  refine ⟨by rw [Client.shown, h.fresh]; rfl, rfl, rfl, rfl, q, hq, fun k => ?_⟩
  rw [Client.shown, Client.wins, hlist, lookup_append h.fresh]
  split
  · rw [Option.map_some, ChatWin.texts, refreshed_received]
  · rfl

/-- Posting a callback. -/
theorem pending_post (c : Client) (i : Idle) (k : TMHandle) :
    (gIdleAdd c i).pending k = c.pending k ++ (i.chatText k).toList := by
  rw [Client.pending, gIdleAdd, List.filterMap_append]
  cases h : i.chatText k <;> simp [h, Client.pending]

/-- The callback that runs next waits in front. -/
theorem pending_next {queue : List Idle} (hqueue : c.queue = i :: queue) (k : TMHandle) :
    c.pending k = (i.chatText k).toList ++ Client.pending { c with queue := queue } k := by
  rw [Client.pending, hqueue, Client.pending, List.filterMap_cons]
  cases i.chatText k <;> rfl

end Windows

/-! ## The invariant -/

/-- What links the client to the events before. -/
structure Displays (gTrackerAddr : HostAddr) (es : List ClientEvent) (c : Client) : Prop where
  /-- The client is well formed. -/
  wf : c.WF
  /-- The events lead to it. -/
  reached : run (clientStep gTrackerAddr) clientInit es = .ok c
  /-- The peers with a record are those announced. -/
  announced : ∀ a, (c.peers.at a).isSome ↔ ∃ e ∈ es, announces gTrackerAddr a e = true
  /-- The texts kept are those received. -/
  texts : ∀ a, (c.texts.filter fun ct => ct.fromaddr = a).map ChatText.text =
    textsFrom gTrackerAddr a es
  /-- The text of a callback comes from the peer that the callback is about. -/
  sender : ∀ k ct, .openChatwin k ct ∈ c.queue → ∃ q, c.peers.at ct.fromaddr = some q ∧ q.hpeer = k
  /-- A window opened belongs to a peer with a record. -/
  early : ∀ a, OpenedEarly gTrackerAddr es a → (c.peers.at a).isSome
  /-- The texts of a peer balance. -/
  balanced : ∀ a q, c.peers.at a = some q → Balanced (c.shown q.hpeer) (c.pending q.hpeer)
    (textsFrom gTrackerAddr a es) (OpenedEarly gTrackerAddr es a)

section Invariant

variable {gTrackerAddr fromaddr : HostAddr} {es : List ClientEvent} {c c' : Client}
  {e : ClientEvent} {i : Idle}

theorem displays_init (gTrackerAddr : HostAddr) : Displays gTrackerAddr [] clientInit where
  wf := clientInit_wf
  reached := rfl
  announced := by
    intro a
    constructor
    · intro h
      cases h
    · rintro ⟨e, he, -⟩
      cases he
  texts := fun _ => rfl
  sender := fun _ _ h => absurd h List.not_mem_nil
  early := by
    rintro a ⟨es₁, e, es₂, c, q, hes, -⟩
    cases es₁ <;> cases hes
  balanced := fun _ _ hq => by cases hq

/-- Every event keeps the link that keeps the record of each peer and the balance of its texts,
and starts with nothing for a new peer. -/
theorem Displays.extend (ht : Displays gTrackerAddr es c)
    (hstep : clientStep gTrackerAddr c e = .ok c') (hwf' : c'.WF)
    (hann : ∀ a, (c'.peers.at a).isSome ↔ (c.peers.at a).isSome ∨ announces gTrackerAddr a e = true)
    (htexts : ∀ a, (c'.texts.filter fun ct => ct.fromaddr = a).map ChatText.text =
      (c.texts.filter fun ct => ct.fromaddr = a).map ChatText.text ++
        if (c.peers.at a).isSome then (textFrom a e).toList else [])
    (hsender : ∀ k ct, .openChatwin k ct ∈ c'.queue →
      ∃ q, c'.peers.at ct.fromaddr = some q ∧ q.hpeer = k)
    (hold : ∀ a q q', c.peers.at a = some q → c'.peers.at a = some q' →
      Balanced (c.shown q.hpeer) (c.pending q.hpeer) (textsFrom gTrackerAddr a es)
        (OpenedEarly gTrackerAddr es a) →
      Balanced (c'.shown q'.hpeer) (c'.pending q'.hpeer)
        (textsFrom gTrackerAddr a es ++ (textFrom a e).toList)
        (OpenedEarly gTrackerAddr es a ∨ c.opensEarly q.hpeer e))
    (hnew : ∀ a q', c.peers.at a = none → c'.peers.at a = some q' →
      c'.shown q'.hpeer = none ∧ c'.pending q'.hpeer = []) :
    Displays gTrackerAddr (es ++ [e]) c' := by
  have hunknown : ∀ a, c.peers.at a = none → ∀ x ∈ es, announces gTrackerAddr a x = false := by
    intro a ha x hx
    by_contra hne
    have hsome := (ht.announced a).mpr ⟨x, hx, Bool.eq_true_of_not_eq_false hne⟩
    rw [ha] at hsome
    cases hsome
  refine ⟨hwf', ?_, fun a => ?_, fun a => ?_, hsender, fun a hearly => ?_, fun a q' hq' => ?_⟩
  · rw [run_concat, ht.reached, ok_bind, hstep]
  · rw [hann, ht.announced]
    simp [or_and_right, exists_or]
  · rw [htexts, ht.texts]
    cases ha : c.peers.at a with
    | none =>
      obtain ⟨hnil, hnil'⟩ := textsFrom_unknown (e := e) (hunknown a ha)
      rw [hnil, hnil']
      rfl
    | some q =>
      have hknown := (ht.announced a).mp (by rw [ha]; rfl)
      rw [textsFrom_concat_known hknown]
      rfl
  · rw [openedEarly_concat ht.reached] at hearly
    rw [hann]
    rcases hearly with hearly | ⟨q, hq, -⟩
    · exact Or.inl (ht.early a hearly)
    · exact Or.inl (by rw [hq]; rfl)
  · rw [openedEarly_concat ht.reached]
    cases ha : c.peers.at a with
    | none =>
      obtain ⟨hshown, hpending⟩ := hnew a q' ha hq'
      obtain ⟨-, hnil⟩ := textsFrom_unknown (e := e) (hunknown a ha)
      rw [hshown, hpending, hnil]
      refine ⟨rfl, ?_⟩
      rintro (hearly | ⟨q, hq, -⟩)
      · have hsome := ht.early a hearly
        rw [ha] at hsome
        cases hsome
      · cases hq
    | some q =>
      have hknown := (ht.announced a).mp (by rw [ha]; rfl)
      have hbal := hold a q q' ha hq' (ht.balanced a q ha)
      rw [textsFrom_concat_known hknown]
      simpa using hbal

/-- An event that changes no window, no record's handle and no callback with a text keeps the
link. -/
theorem Displays.quiet (ht : Displays gTrackerAddr es c)
    (hstep : clientStep gTrackerAddr c e = .ok c') (hwf' : c'.WF)
    (hat : ∀ a, (c'.peers.at a).map Peer.hpeer = (c.peers.at a).map Peer.hpeer)
    (hann : ∀ a, announces gTrackerAddr a e = true → (c.peers.at a).isSome)
    (htexts : c'.texts = c.texts)
    (htext : ∀ a, (c.peers.at a).isSome → textFrom a e = none)
    (hqueue : ∀ k ct, .openChatwin k ct ∈ c'.queue → .openChatwin k ct ∈ c.queue)
    (hpending : ∀ k, c'.pending k = c.pending k) (hshown : ∀ k, c'.shown k = c.shown k)
    (hearly : ∀ a q, c.peers.at a = some q → ¬c.opensEarly q.hpeer e) :
    Displays gTrackerAddr (es ++ [e]) c' := by
  have hsome : ∀ a, (c'.peers.at a).isSome = (c.peers.at a).isSome := by
    intro a
    rw [← Option.isSome_map, hat, Option.isSome_map]
  refine ht.extend hstep hwf' (fun a => ?_) (fun a => ?_) (fun k ct hmem => ?_)
    (fun a q q' hq hq' hbal => ?_) fun a q' hnone hq' => ?_
  · rw [hsome]
    exact ⟨Or.inl, fun h => h.elim id (hann a)⟩
  · rw [htexts]
    split
    case isTrue h => rw [htext a h, Option.toList_none, List.append_nil]
    case isFalse => rw [List.append_nil]
  · obtain ⟨q, hq, rfl⟩ := ht.sender k ct (hqueue k ct hmem)
    have hsame := hat ct.fromaddr
    rw [hq, Option.map_some] at hsame
    exact Option.map_eq_some_iff.mp hsame
  · have hsame := hat a
    rw [hq, hq', Option.map_some, Option.map_some] at hsame
    rw [Option.some.inj hsame, hshown, hpending, htext a (by rw [hq]; rfl), Option.toList_none,
      List.append_nil, or_iff_left (hearly a q hq)]
    exact hbal
  · have hboth := hsome a
    rw [hq', hnone] at hboth
    cases hboth

/-- The record that an address has keeps its handle in `create_peer`. -/
theorem createPeer_keeps_handle {p p' : Peers} (hp : p.WF) {aliasStr hostname : CStr}
    {peerFromaddr peerToaddr : HostAddr} {hpeer : TMHandle}
    (hcreate : createPeer p aliasStr hostname peerFromaddr peerToaddr = .ok (p', hpeer))
    {a : HostAddr} {q q' : Peer} (hq : p.at a = some q) (hq' : p'.at a = some q') :
    q'.hpeer = q.hpeer := by
  obtain ⟨r, rfl, -, -, -, hat⟩ := createPeer_at hp hcreate
  rw [hat] at hq'
  split at hq'
  case isTrue ha =>
    subst ha
    obtain rfl := Option.some.inj hq'
    rcases createPeer_found hp hcreate with ⟨q₀, hq₀, hhandle⟩ | ⟨hnone, -⟩
    · rw [← hhandle, Option.some.inj (hq.symm.trans hq₀)]
    · cases hnone.symm.trans hq
  case isFalse => rw [Option.some.inj (hq.symm.trans hq')]

/-- A handle that is not given out has no window and no callback. -/
theorem Displays.nothing_of_fresh (ht : Displays gTrackerAddr es c) {hpeer : TMHandle}
    (hfresh : c.peers.atHandle hpeer = none) : c.shown hpeer = none ∧ c.pending hpeer = [] := by
  constructor
  · refine Option.map_eq_none_iff.mpr (lookup_eq_none_iff.mpr fun w hw heq => ?_)
    have hknown := ht.wf.wins_known w hw
    rw [heq, hfresh] at hknown
    cases hknown
  · refine List.filterMap_eq_nil_iff.mpr fun i hi => ?_
    have hknown := ht.wf.queue_known i hi
    cases i with
    | peerOnline | peerOffline => rfl
    | openChatwin k ct =>
      refine if_neg fun heq => ?_
      rw [Idle.hpeer, heq, hfresh] at hknown
      cases hknown

/-- A CHATTEXT of a peer keeps the link. -/
theorem Displays.chattext {text : String} {q : Peer} {gChatTexts : Array ChatText}
    (ht : Displays gTrackerAddr es c) (hq : c.peers.at fromaddr = some q)
    (happend : arrayAppend c.gChatTexts ⟨fromaddr, 0, stringDup text⟩ = .ok gChatTexts)
    (hc' : c' = gIdleAdd { c with gChatTexts := gChatTexts }
      (.openChatwin q.hpeer ⟨fromaddr, 0, stringDup text⟩))
    (hstep : clientStep gTrackerAddr c (.recv fromaddr (.chattext text)) = .ok c')
    (hwf' : c'.WF) : Displays gTrackerAddr (es ++ [.recv fromaddr (.chattext text)]) c' := by
  subst hc'
  have htexts : gChatTexts.toList = c.texts ++ [⟨fromaddr, 0, stringDup text⟩] :=
    (arrayAppend_ok happend).1
  refine ht.extend hstep hwf' (fun a => ?_) (fun a => ?_) (fun k ct hmem => ?_)
    (fun a q₁ q' hq₁ hq' hbal => ?_) fun a q' hnone hq' => ?_
  · exact (or_iff_left (by simp [announces])).symm
  · change (gChatTexts.toList.filter _).map _ = _
    rw [htexts, List.filter_append, List.map_append]
    congr 1
    by_cases ha : fromaddr = a
    · subst ha
      simp [textFrom, hq]
    · simp [textFrom, ha]
  · rcases List.mem_append.mp hmem with hmem | hmem
    · exact ht.sender k ct hmem
    · obtain ⟨rfl, rfl⟩ := Idle.openChatwin.inj (List.mem_singleton.mp hmem)
      exact ⟨q, hq, rfl⟩
  · obtain rfl := Option.some.inj (hq₁.symm.trans hq')
    rw [pending_post, or_iff_left (by exact id)]
    by_cases ha : fromaddr = a
    · subst ha
      obtain rfl := Option.some.inj (hq.symm.trans hq₁)
      rw [Idle.chatText, if_pos rfl, textFrom, if_pos rfl]
      exact hbal.recv
    · have hne : q.hpeer ≠ q₁.hpeer := fun heq => ha (ht.wf.peers.at_inj hq hq₁ heq)
      rw [Idle.chatText, if_neg hne, textFrom, if_neg ha, Option.toList_none, List.append_nil,
        List.append_nil]
      exact hbal
  · cases hnone.symm.trans hq'

/-- A PEER_ONLINE of the tracker keeps the link. -/
theorem Displays.online {aliasStr hostname : CStr} {peerFromaddr peerToaddr : HostAddr}
    {peers : Peers} {hpeer : TMHandle} (ht : Displays gTrackerAddr es c)
    (hfrom : hostAddrIpaddrEquals fromaddr gTrackerAddr = true)
    (hcreate : createPeer c.peers aliasStr hostname peerFromaddr peerToaddr = .ok (peers, hpeer))
    (hc' : c' = gIdleAdd { c with peers := peers } (.peerOnline hpeer))
    (hstep : clientStep gTrackerAddr c
      (.recv fromaddr (.peer (.online aliasStr hostname peerFromaddr peerToaddr))) = .ok c')
    (hwf' : c'.WF) : Displays gTrackerAddr
      (es ++ [.recv fromaddr (.peer (.online aliasStr hostname peerFromaddr peerToaddr))]) c' := by
  subst hc'
  have hkeep : ∀ a q q', c.peers.at a = some q → peers.at a = some q' → q'.hpeer = q.hpeer :=
    fun a q q' => createPeer_keeps_handle ht.wf.peers hcreate
  have hfound := createPeer_found ht.wf.peers hcreate
  obtain ⟨r, rfl, -, -, -, hat⟩ := createPeer_at ht.wf.peers hcreate
  have hsome : ∀ a, (c.peers.at a).isSome → (peers.at a).isSome := by
    intro a ha
    rw [hat]
    split
    · rfl
    · exact ha
  have hsame : ∀ k, (gIdleAdd { c with peers := peers } (.peerOnline r.hpeer)).pending k =
      c.pending k := fun k =>
    (pending_post { c with peers := peers } (.peerOnline r.hpeer) k).trans (List.append_nil _)
  refine ht.extend hstep hwf' (fun a => ?_) (fun a => ?_) (fun k ct hmem => ?_)
    (fun a q q' hq hq' hbal => ?_) fun a q' hnone hq' => ?_
  · change (peers.at a).isSome ↔ _
    rw [hat, announces, hfrom]
    by_cases ha : a = peerFromaddr
    · simp [ha, PeerMsg.isOnline, PeerMsg.fromaddr]
    · simp [ha, PeerMsg.fromaddr, Ne.symm ha]
  · simp [textFrom, gIdleAdd, Client.texts]
  · have hmem' : .openChatwin k ct ∈ c.queue := by simpa [gIdleAdd] using hmem
    obtain ⟨q, hq, rfl⟩ := ht.sender k ct hmem'
    obtain ⟨q', hq'⟩ := Option.isSome_iff_exists.mp (hsome _ (by rw [hq]; rfl))
    exact ⟨q', hq', hkeep _ q q' hq hq'⟩
  · rw [hkeep a q q' hq hq', hsame, or_iff_left (by exact id)]
    exact (List.append_nil (textsFrom gTrackerAddr a es)).symm ▸ hbal
  · change peers.at a = some q' at hq'
    rw [hat] at hq'
    split at hq'
    case isFalse => cases hnone.symm.trans hq'
    case isTrue ha =>
      subst ha
      obtain rfl := Option.some.inj hq'
      -- the record is new, so its handle is
      have hfresh : c.peers.atHandle r.hpeer = none := by
        rcases hfound with ⟨q₀, hq₀, -⟩ | ⟨-, hfresh⟩
        · cases hnone.symm.trans hq₀
        · exact hfresh
      obtain ⟨hshown, hpending⟩ := ht.nothing_of_fresh hfresh
      exact ⟨hshown, (hsame _).trans hpending⟩

/-- Handling a message keeps the link. -/
theorem Displays.handled {msg : ClientMsg} (ht : Displays gTrackerAddr es c)
    (hstep : clientStep gTrackerAddr c (.recv fromaddr msg) = .ok c')
    (h : ClientHandled gTrackerAddr c fromaddr msg c') :
    Displays gTrackerAddr (es ++ [.recv fromaddr msg]) c' := by
  have hwf' := h.wf ht.wf
  cases h with
  | foreign m hfrom =>
    refine ht.quiet hstep hwf' (fun _ => rfl) (fun a ha => ?_) rfl (fun _ _ => rfl)
      (fun _ _ => id) (fun _ => rfl) (fun _ => rfl) fun _ _ _ => id
    rw [announces, hfrom] at ha
    cases ha
  | offlineUnknown =>
    exact ht.quiet hstep hwf' (fun _ => rfl)
      (fun a ha => by simp [announces, PeerMsg.isOnline] at ha)
      rfl (fun _ _ => rfl) (fun _ _ => id) (fun _ => rfl) (fun _ => rfl) fun _ _ _ => id
  | offline =>
    refine ht.quiet hstep hwf' (fun _ => rfl)
      (fun a ha => by simp [announces, PeerMsg.isOnline] at ha) rfl (fun _ _ => rfl)
      (fun k ct hmem => ?_) (fun k => ?_) (fun _ => rfl) fun _ _ _ => id
    · simpa [gIdleAdd] using hmem
    · exact (pending_post c _ k).trans (List.append_nil _)
  | chattextUnknown hnone =>
    refine ht.quiet hstep hwf' (fun _ => rfl) (fun a ha => by cases ha) rfl (fun a ha => ?_)
      (fun _ _ => id) (fun _ => rfl) (fun _ => rfl) fun _ _ _ => id
    refine if_neg fun heq => ?_
    rw [← heq, hnone] at ha
    cases ha
  | chattext hq happend => exact ht.chattext hq happend rfl hstep hwf'
  | online hfrom hcreate => exact ht.online hfrom hcreate rfl hstep hwf'

/-- Opening a window keeps the link, where `queue` are the callbacks that wait afterwards. -/
theorem Displays.opened {queue : List Idle} {hpeer : TMHandle} (ht : Displays gTrackerAddr es c)
    (hstep : clientStep gTrackerAddr c e = .ok c')
    (hopen : WinOpened { c with queue := queue } hpeer c') (hwf' : c'.WF)
    (hsub : ∀ i ∈ queue, i ∈ c.queue)
    (hpending : ∀ k, k ≠ hpeer → Client.pending { c with queue := queue } k = c.pending k)
    (htext : ∀ a, textFrom a e = none) (hann : ∀ a, announces gTrackerAddr a e = false)
    (hearly : ∀ k, c.opensEarly k e ↔
      k = hpeer ∧ Client.pending { c with queue := queue } hpeer ≠ []) :
    Displays gTrackerAddr (es ++ [e]) c' := by
  obtain ⟨hnone, hqueue', hpeers, htexts, q₀, hq₀, hshown⟩ := hopen.shown
  have hpending' : ∀ k, c'.pending k = Client.pending { c with queue := queue } k := by
    intro k
    rw [Client.pending, hqueue']
    rfl
  refine ht.extend hstep hwf' (fun a => ?_) (fun a => ?_) (fun k ct hmem => ?_)
    (fun a q q' hq hq' hbal => ?_) fun a q' hnone' hq' => ?_
  · rw [hpeers, hann]
    exact (or_iff_left Bool.false_ne_true).symm
  · rw [htexts, htext, Option.toList_none, ite_self, List.append_nil]
    rfl
  · rw [hqueue'] at hmem
    rw [hpeers]
    exact ht.sender k ct (hsub _ hmem)
  · rw [hpeers] at hq'
    obtain rfl := Option.some.inj (hq.symm.trans hq')
    rw [hshown, hpending', htext, Option.toList_none, List.append_nil, hearly]
    split
    case isTrue hk =>
      have hq₁ : some q = some q₀ := by
        rw [← ht.wf.peers.atHandle_of_at hq, hk]
        exact hq₀
      obtain rfl := Option.some.inj hq₁
      have hall : (c.texts.filter fun ct => ct.fromaddr = q.fromaddr).map ChatText.text =
          textsFrom gTrackerAddr a es := by
        rw [ht.texts, (lookup_some hq).2]
      change Balanced (some ((c.texts.filter _).map _)) _ _ _
      rw [hall, hk]
      have hclosed : c.shown q.hpeer = none := by
        rw [hk]
        exact hnone
      rw [hclosed] at hbal
      exact hbal.opened (or_congr_right (and_iff_right rfl))
    case isFalse hk =>
      rw [hpending _ hk, or_iff_left fun h => hk h.1]
      exact hbal
  · rw [hpeers] at hq'
    cases hnone'.symm.trans hq'

/-- Adding a text to a window keeps the link. -/
theorem Displays.added {queue : List Idle} {hpeer : TMHandle} {ct : ChatText} {q₀ : Peer}
    {gChatWins : Array ChatWin} (ht : Displays gTrackerAddr es c)
    (hstep : clientStep gTrackerAddr c .idle =
      .ok { c with queue := queue, gChatWins := gChatWins })
    (hwf' : Client.WF { c with queue := queue, gChatWins := gChatWins })
    (hqueue : c.queue = .openChatwin hpeer ct :: queue)
    (hwin : (lookup ChatWin.hpeer c.wins hpeer).isSome) (hq₀ : c.peers.atHandle hpeer = some q₀)
    (hwins : gChatWins.toList = addRows c.wins hpeer (addChattext q₀ ct)) :
    Displays gTrackerAddr (es ++ [.idle]) { c with queue := queue, gChatWins := gChatWins } := by
  obtain ⟨q₁, hq₁, hhandle⟩ := ht.sender hpeer ct (by rw [hqueue]; exact List.mem_cons_self)
  have hsame : some q₁ = some q₀ := by
    rw [← ht.wf.peers.atHandle_of_at hq₁, hhandle, hq₀]
  obtain rfl := Option.some.inj hsame
  have hrow : (addChattext q₁ ct).filterMap HistoryRow.receivedText = [ct.text] := by
    rw [addChattext_received, if_pos (lookup_some hq₁).2.symm]
  have hshown := shown_addRows hwins
  rw [hrow] at hshown
  have hopen : c.shown hpeer ≠ none := by
    rw [Client.shown, Ne, Option.map_eq_none_iff]
    exact Option.isSome_iff_ne_none.mp hwin
  refine ht.extend hstep hwf' (fun a => ?_) (fun a => ?_) (fun k ct' hmem => ?_)
    (fun a q q' hq hq' hbal => ?_) fun a q' hnone' hq' => ?_
  · exact (or_iff_left Bool.false_ne_true).symm
  · rw [textFrom_idle, Option.toList_none, ite_self, List.append_nil]
    rfl
  · exact ht.sender k ct' (by rw [hqueue]; exact List.mem_cons_of_mem _ hmem)
  · obtain rfl := Option.some.inj (hq.symm.trans hq')
    have hnot : ¬c.opensEarly q.hpeer .idle := by
      rintro ⟨hnone, ct', queue', hqueue', -⟩
      rw [hqueue] at hqueue'
      obtain ⟨hhead, -⟩ := List.cons.inj hqueue'
      rw [← (Idle.openChatwin.inj hhead).1] at hnone
      exact hopen hnone
    have hnext := pending_next hqueue q.hpeer
    have hshown' := hshown q.hpeer
    rw [or_iff_left hnot, textFrom_idle, Option.toList_none, List.append_nil]
    by_cases hk : q.hpeer = hpeer
    · rw [Idle.chatText, if_pos hk.symm] at hnext
      obtain ⟨texts, htexts⟩ := Option.ne_none_iff_exists'.mp (hk ▸ hopen)
      rw [htexts, Option.map_some, if_pos hk] at hshown'
      rw [htexts, hnext] at hbal
      change Balanced (Client.shown { c with gChatWins := gChatWins } q.hpeer)
        (Client.pending { c with queue := queue } q.hpeer) _ _
      rw [hshown']
      exact hbal.add
    · rw [Idle.chatText, if_neg (Ne.symm hk), Option.toList_none, List.nil_append] at hnext
      simp only [if_neg hk, Option.map_id'] at hshown'
      change Balanced (Client.shown { c with gChatWins := gChatWins } q.hpeer)
        (Client.pending { c with queue := queue } q.hpeer) _ _
      rw [hshown', ← hnext]
      exact hbal
  · cases hnone'.symm.trans hq'

/-- Running a callback keeps the link. -/
theorem Displays.idle {queue : List Idle} (ht : Displays gTrackerAddr es c)
    (hstep : clientStep gTrackerAddr c .idle = .ok c') (hqueue : c.queue = i :: queue)
    (h : IdleDone { c with queue := queue } i c') : Displays gTrackerAddr (es ++ [.idle]) c' := by
  have hc := ht.wf.dequeue hqueue
  have hwf' := h.wf hc
  have hsub : ∀ j ∈ queue, j ∈ c.queue := by
    intro j hj
    rw [hqueue]
    exact List.mem_cons_of_mem _ hj
  cases h with
  | peerOnline hq hwins hcap =>
    refine ht.quiet hstep hwf' (fun _ => rfl) (fun _ ha => by cases ha) rfl (fun _ _ => rfl)
      (fun _ _ => hsub _) (fun k => (pending_next hqueue k).symm)
      (fun k => shown_addRows_silent hwins rfl k) fun a q hq hearly => ?_
    obtain ⟨-, ct, queue', hqueue', -⟩ := hearly
    cases hqueue.symm.trans hqueue'
  | peerOffline hq hwins hcap hdestroy =>
    refine ht.quiet hstep hwf' (fun a => ?_) (fun _ ha => by cases ha) rfl (fun _ _ => rfl)
      (fun _ _ => hsub _) (fun k => (pending_next hqueue k).symm)
      (fun k => shown_addRows_silent hwins rfl k) fun a q hq hearly => ?_
    · rw [destroyPeer_at hc.peers hdestroy, Option.map_map]
      congr 1
      funext q
      exact hpeer_deactivate _ q
    · obtain ⟨-, ct, queue', hqueue', -⟩ := hearly
      cases hqueue.symm.trans hqueue'
  | addText hw hq hwins hcap => exact ht.added hstep hwf' hqueue hw hq hwins
  | @openWin hpeer ct _ hopen =>
    refine ht.opened hstep hopen hwf' hsub (fun k hk => ?_) (fun _ => rfl) (fun _ => rfl)
      fun k => ?_
    · rw [pending_next hqueue, Idle.chatText, if_neg (Ne.symm hk)]
      rfl
    · obtain ⟨hnone, -⟩ := hopen.shown
      constructor
      · rintro ⟨-, ct', queue', hqueue', hmore⟩
        obtain ⟨hhead, rfl⟩ := List.cons.inj (hqueue.symm.trans hqueue')
        obtain ⟨rfl, -⟩ := Idle.openChatwin.inj hhead
        exact ⟨rfl, hmore⟩
      · rintro ⟨rfl, hmore⟩
        exact ⟨hnone, ct, queue, hqueue, hmore⟩

/-- Every event keeps the link. -/
theorem Displays.step (ht : Displays gTrackerAddr es c)
    (hstep : clientStep gTrackerAddr c e = .ok c') : Displays gTrackerAddr (es ++ [e]) c' := by
  have hstepped := clientStep_ok ht.wf hstep
  have hwf' := hstepped.wf ht.wf
  cases hstepped with
  | recv h => exact ht.handled hstep h
  | idle hqueue h => exact ht.idle hstep hqueue h
  | noIdle hqueue =>
    refine ht.quiet hstep hwf' (fun _ => rfl) (fun _ ha => by cases ha) rfl (fun _ _ => rfl)
      (fun _ _ => id) (fun _ => rfl) (fun _ => rfl) fun a q hq hearly => ?_
    obtain ⟨-, ct, queue', hqueue', -⟩ := hearly
    cases hqueue.symm.trans hqueue'
  | select hrow h =>
    have hopen : WinOpened { c with queue := c.queue } _ c' := h
    refine ht.opened hstep hopen hwf' (fun _ => id) (fun _ _ => rfl) (fun _ => rfl)
      (fun _ => rfl) fun k => ?_
    obtain ⟨hnone, -⟩ := h.shown
    constructor
    · rintro ⟨rfl, -, -, hmore⟩
      exact ⟨rfl, hmore⟩
    · rintro ⟨rfl, hmore⟩
      exact ⟨rfl, hrow, hnone, hmore⟩
  | selectNothing h =>
    refine ht.quiet hstep hwf' (fun _ => rfl) (fun _ ha => by cases ha) rfl (fun _ _ => rfl)
      (fun _ _ => id) (fun _ => rfl) (fun _ => rfl) fun a q hq hearly => ?_
    obtain ⟨rfl, hrow, hnone, -⟩ := hearly
    rcases h hrow with hunknown | hopen
    · cases hunknown.symm.trans (ht.wf.peers.atHandle_of_at hq)
    · rw [Client.shown, Option.map_eq_none_iff] at hnone
      rw [hnone] at hopen
      cases hopen

/-- The link holds after every run. -/
theorem displays_run (h : run (clientStep gTrackerAddr) clientInit es = .ok c) :
    Displays gTrackerAddr es c :=
  run_history (I := Displays gTrackerAddr) (displays_init gTrackerAddr)
    (fun _ _ _ _ ht hstep => ht.step hstep) h

end Invariant

/-! ## The histories -/

/-- For every run of the client that ends without callbacks waiting and every peer with a record,
the window of the peer shows every text received from it exactly once if and only if the window
was not opened while other callbacks with texts of the peer were waiting. -/
theorem shown_once_iff (gTrackerAddr : HostAddr) (es : List ClientEvent) (c : Client)
    (hrun : run (clientStep gTrackerAddr) clientInit es = .ok c) (hqueue : c.queue = [])
    (a : HostAddr) (q : Peer) (hq : c.peers.at a = some q) :
    ((c.shown q.hpeer).getD []).Perm (textsFrom gTrackerAddr a es) ↔
      ¬OpenedEarly gTrackerAddr es a := by
  have hbal := (displays_run hrun).balanced a q hq
  have hnil : c.pending q.hpeer = [] := by rw [Client.pending, hqueue, List.filterMap_nil]
  rw [hnil] at hbal
  exact hbal.settled

/-- Two texts are shown once each when the callback of the first has run before the second comes. -/
theorem shown_once_of_alternating :
    ∃ c es, run (clientStep 1) clientInit es = .ok c ∧
      (c.shown 1).getD [] = [⟨some [0], 0⟩, ⟨some [0], 0⟩] ∧
      (((c.shown 1).getD []).Perm (textsFrom 1 2 es) ↔ ¬OpenedEarly 1 es 2) :=
  ⟨_, [.recv 1 (.peer (.online CStr.empty CStr.empty 2 3)), .idle,
      .recv 2 (.chattext stringNew0), .idle, .recv 2 (.chattext stringNew0), .idle], rfl, rfl,
    shown_once_iff 1 _ _ rfl rfl 2 (peerNew 1 CStr.empty CStr.empty 2 3) rfl⟩

/-- Two texts that come before the callback of the first has run: the window is opened with both,
and the second is added once more. -/
theorem second_text_shown_twice :
    ∃ c q, run (clientStep 1) clientInit
        [.recv 1 (.peer (.online CStr.empty CStr.empty 2 3)), .idle,
          .recv 2 (.chattext ⟨some [97], 1⟩), .recv 2 (.chattext ⟨some [98], 1⟩), .idle, .idle] =
        .ok c ∧
      c.queue = [] ∧ c.peers.at 2 = some q ∧
      c.shown q.hpeer = some [⟨some [97, 0], 1⟩, ⟨some [98, 0], 1⟩, ⟨some [98, 0], 1⟩] ∧
      ¬((c.shown q.hpeer).getD []).Perm (textsFrom 1 2
        [.recv 1 (.peer (.online CStr.empty CStr.empty 2 3)), .idle,
          .recv 2 (.chattext ⟨some [97], 1⟩), .recv 2 (.chattext ⟨some [98], 1⟩), .idle,
          .idle]) := by
  refine ⟨_, peerNew 1 CStr.empty CStr.empty 2 3, rfl, rfl, rfl, rfl, fun hperm => ?_⟩
  exact absurd hperm.length_eq (by decide)

end TinyMsg
