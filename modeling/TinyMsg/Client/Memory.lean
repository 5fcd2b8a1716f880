import TinyMsg.Client.ChatText
import TinyMsg.Client.Isolation
import TinyMsg.Cnet.Memory

/-!
# The memory that a chat text takes

The GUI thread works in `GScratch1`, 4 KiB of which every callback takes a copy.  A text that is
sent is packed in it: the buffer starts with a block of 256 bytes and, when the text does not fit,
takes a second one behind it, of at most 2048 bytes.  A text that is shown is printed into it with
its markup, behind the window's title and caption when the window is new.  The network thread
unpacks a text in an arena of its own.

The functions with the ending `In` are those of `Client/State` with these arenas made explicit;
when they come back, the others do with the same result.
-/

namespace TinyMsg

/-! ## The functions in their arenas -/

/-- `sizeof(ChatText)` -/
def chatTextSize : ℕ := 48

/-- `sizeof(UIChatWin)` -/
def chatWinSize : ℕ := 64

/-- `GScratch1`; nothing is ever taken from the arena itself. -/
def gScratch1 : Arena := arenaNew (4 * 1024)

/-- A client and the arenas that its arrays draw on. -/
structure ClientIn where
  /-- The client. -/
  client : Client
  /-- `arena_chats`, the arena of `GChatTexts`. -/
  arenaChats : Arena
  /-- `arena_chatwins`, the arena of `GChatWins`. -/
  arenaChatwins : Arena

/-- What `add_chattext` prints for a text from the peer. -/
def receivedMarkup (aliasStr text : CStr) : CStr :=
  (CStr.const "<span color='blue' weight='bold'>".toList).append
    (aliasStr.append ((CStr.const "</span>:\n".toList).append text))

/-- What `add_chattext` prints for a text to the peer. -/
def sentMarkup (gAlias text : CStr) : CStr :=
  (CStr.const "<span color='darkgreen' weight='bold'>".toList).append
    (gAlias.append ((CStr.const "</span>:\n".toList).append text))

/-- `add_chattext`, in a copy of the arena: the row, with the markup that `GtkListBox_append` is
called with. -/
def addChattextIn (gAlias : String) (scratch : Arena) (q : Peer) (ct : ChatText) :
    Except Stop (List (HistoryRow × String)) :=
  if ct.fromaddr = q.fromaddr then do
    -- Received chat from peer
    let (_, markuptext) ← stringFormatIn scratch (receivedMarkup q.aliasStr.str ct.text.cstr)
    .ok [(.received q.aliasStr ct.text, markuptext)]
  else if ct.toaddr = q.toaddr then do
    -- Sent chat to peer
    let (_, markuptext) ← stringFormatIn scratch (sentMarkup gAlias.cstr ct.text.cstr)
    .ok [(.sent ct.text, markuptext)]
  else .ok []

/-- `refresh_msghistory`, which passes a copy of its arena for every text. -/
def refreshMsghistoryIn (gAlias : String) (scratch : Arena) (chattexts : Array ChatText)
    (q : Peer) : Except Stop (List HistoryRow) :=
  arrayFoldIn chattexts (fun rows ct => do
    let row ← addChattextIn gAlias scratch q ct
    .ok (rows ++ row.map Prod.fst)) []

/-- `open_chatwin`, in a copy of the arena. -/
def openChatwinIn (gAlias : String) (m : ClientIn) (scratch : Arena) (hpeer : TMHandle) :
    Except Stop ClientIn := do
  match ← (getPeerData m.client.peers hpeer).lift with
  | none => .ok m
  | some q =>
    match ← (findChatwinFromPeer m.client.gChatWins hpeer).lift with
    | some _ => .ok m
    | none =>
      let (scratch, _) ← stringFormatIn scratch (q.aliasStr.str.append (.const " chat".toList))
      let (scratch, _) ← stringFormatIn scratch
        ((CStr.const "Chatting with ".toList).append q.aliasStr.str)
      let rows ← refreshMsghistoryIn gAlias scratch m.client.gChatTexts q
      let (arenaChatwins, gChatWins) ←
        arrayAppendIn chatWinSize m.arenaChatwins m.client.gChatWins ⟨hpeer, rows⟩
      .ok { m with
        client := { m.client with gChatWins := gChatWins }, arenaChatwins := arenaChatwins }

/-- `IDLE_open_chatwin`, in a copy of `GScratch1`. -/
def idleOpenChatwinIn (gAlias : String) (m : ClientIn) (hpeer : TMHandle) (ct : ChatText) :
    Except Stop ClientIn := do
  match ← (findChatwinFromPeer m.client.gChatWins hpeer).lift with
  | none => openChatwinIn gAlias m gScratch1 hpeer
  | some _ =>
    match ← (getPeerData m.client.peers hpeer).lift with
    | none => openChatwinIn gAlias m gScratch1 hpeer
    | some q =>
      let row ← addChattextIn gAlias gScratch1 q ct
      let gChatWins ← (appendHistory m.client.gChatWins hpeer (row.map Prod.fst)).lift
      .ok { m with client := { m.client with gChatWins := gChatWins } }

/-- `handle_msg` for a CHATTEXT, in a copy of the arena of the network thread. -/
def handleChattextIn (m : ClientIn) (tscratch : Arena) (fromaddr : HostAddr)
    (msgbytes : ℕ → UInt8) (msglen : ℕ) : Except Stop ClientIn := do
  let (_, unpacked) ← netUnpackIn tscratch msgbytes msglen Fmt.chattext
  let text := (unpacked.fields.getD 1 (.str stringNew0)).asStr
  match ← (findPeerFromaddr m.client.peers fromaddr).lift with
  | none => .ok m
  | some hpeer =>
    let _ ← (getPeerData m.client.peers hpeer).lift
    let (arenaChats, str) ← stringDupIn m.arenaChats text
    let (arenaChats, gChatTexts) ←
      arrayAppendIn chatTextSize arenaChats m.client.gChatTexts ⟨fromaddr, 0, str⟩
    let ct ← (arrayItem gChatTexts (gChatTexts.len - 1)).lift
    .ok { m with
      client := gIdleAdd { m.client with gChatTexts := gChatTexts } (.openChatwin hpeer ct)
      arenaChats := arenaChats }

/-- `SendMsgV`, in a copy of the arena. -/
def sendMsgVIn (scratch : Arena) (env : SendEnv) (fmt : List UInt8) (args : List Arg) :
    Except Stop Sent := do
  let (scratch, sendbuf) ← bufferNewIn scratch 256
  let (_, sendbuf, _) ← netPackLenVIn scratch sendbuf fmt args
  .ok (netSendWaitUntilComplete env.sends env.waits sendbuf)

/-- `ConnectAndSendMsg`, in a copy of the arena. -/
def connectAndSendMsgIn (scratch : Arena) (env : SendEnv) (fds : Finset ℕ) (fmt : List UInt8)
    (args : List Arg) : Except Stop Transfer :=
  match openTcpConnectSocket env.connect fds with
  | (none, fds) => .ok ⟨-1, [], fds⟩
  | (some destfd, fds) => do
    let s ← sendMsgVIn scratch env fmt args
    .ok ⟨s.ret, s.accepted, fds.erase destfd⟩

/-- `CB_chatwin_send` for a text, in a copy of `GScratch1`; `error` is what `strerror` says after a
failure. -/
def chatwinSendIn (gAlias : String) (m : ClientIn) (env : SendEnv) (fds : Finset ℕ) (error : CStr)
    (hpeer : TMHandle) (text : CStr) : Except Stop ClientIn := do
  match ← (getPeerData m.client.peers hpeer).lift with
  | none => .ok m
  | some q =>
    match ← (findChatwinFromPeer m.client.gChatWins hpeer).lift with
    | none => .ok m
    | some _ =>
      let t ← connectAndSendMsgIn gScratch1 env fds Fmt.chattext (chatArgs text)
      if t.ret = -1 then do
        let _ ← stringFormatIn gScratch1
          ((CStr.const "Send error: ".toList).append (error.append (.const "\n".toList)))
        .ok m
      else do
        let (arenaChats, str) ← stringNewIn m.arenaChats text
        let ct : ChatText := ⟨0, q.toaddr, str⟩
        let (arenaChats, gChatTexts) ←
          arrayAppendIn chatTextSize arenaChats m.client.gChatTexts ct
        let row ← addChattextIn gAlias gScratch1 q ct
        let gChatWins ← (appendHistory m.client.gChatWins hpeer (row.map Prod.fst)).lift
        .ok { m with
          client := { m.client with gChatTexts := gChatTexts, gChatWins := gChatWins }
          arenaChats := arenaChats }

/-- The client that `main` sets up. -/
def clientInInit : Except Stop ClientIn := do
  let arenaChats ← arenaAlloc (arenaNew (64 * 1024)) (chatTextSize * 64)
  let arenaChatwins ← arenaAlloc (arenaNew (4 * 1024)) (chatWinSize * 64)
  .ok ⟨clientInit, arenaChats, arenaChatwins⟩

/-! ## They do the same -/

/-- What `main` sets up and no callback changes. -/
structure ClientIn.WF (m : ClientIn) : Prop where
  /-- The arena of the chat texts has 64 KiB. -/
  arenaChats_cap : m.arenaChats.cap = 64 * 1024
  /-- The array of the chat texts has a block. -/
  texts_cap : 0 < m.client.gChatTexts.cap

theorem clientInInit_wf : ∃ m, clientInInit = .ok m ∧ m.client = clientInit ∧ m.WF := by
  have hchats : (arenaNew (64 * 1024)).pos + chatTextSize * 64 ≤ (arenaNew (64 * 1024)).cap := by
    decide
  have hwins : (arenaNew (4 * 1024)).pos + chatWinSize * 64 ≤ (arenaNew (4 * 1024)).cap := by
    decide
  refine ⟨⟨clientInit, ⟨_, _, hchats⟩, ⟨_, _, hwins⟩⟩, ?_, rfl, rfl,
    (by decide : 0 < clientInit.gChatTexts.cap)⟩
  rw [clientInInit, arenaAlloc_ok hchats, ok_bind, arenaAlloc_ok hwins, ok_bind]

section Same

variable {gAlias : String} {m m' : ClientIn} {scratch : Arena} {q : Peer} {ct : ChatText}
  {rows : List HistoryRow} {hpeer : TMHandle} {fromaddr : HostAddr} {text : CStr} {env : SendEnv}
  {fds : Finset ℕ} {error : CStr} {fmt : List UInt8} {args : List Arg}

/-- The row does not depend on the arena. -/
theorem addChattextIn_eq {row : List (HistoryRow × String)}
    (h : addChattextIn gAlias scratch q ct = .ok row) : row.map Prod.fst = addChattext q ct := by
  rw [addChattextIn] at h
  rw [addChattext]
  split at h
  case isTrue hfrom =>
    obtain ⟨_, -, h⟩ := bind_eq_ok.mp h
    obtain rfl := Except.ok.inj h
    rw [if_pos hfrom]
    rfl
  case isFalse hfrom =>
    rw [if_neg hfrom]
    split at h
    case isTrue hto =>
      obtain ⟨_, -, h⟩ := bind_eq_ok.mp h
      obtain rfl := Except.ok.inj h
      rw [if_pos hto]
      rfl
    case isFalse hto =>
      obtain rfl := Except.ok.inj h
      rw [if_neg hto]
      rfl

/-- Neither do the rows of a new window. -/
theorem refreshMsghistoryIn_eq {chattexts : Array ChatText}
    (h : refreshMsghistoryIn gAlias scratch chattexts q = .ok rows) :
    refreshMsghistory chattexts q = .ok rows := by
  rw [refreshMsghistoryIn, arrayFoldIn_eq] at h
  rw [refreshMsghistory, arrayFold_eq]
  refine run_mono (fun rows ct rows' hrow => ?_) h
  obtain ⟨row, hrow, heq⟩ := bind_eq_ok.mp hrow
  rw [addChattextIn_eq hrow] at heq
  exact congrArg _ (Except.ok.inj heq)

/-- `open_chatwin` does the same. -/
theorem openChatwinIn_eq (h : openChatwinIn gAlias m scratch hpeer = .ok m') :
    openChatwin m.client hpeer = .ok m'.client ∧ (m.WF → m'.WF) := by
  rw [openChatwinIn, getPeerData_eq, Exec.lift_ok, ok_bind] at h
  rw [openChatwin, getPeerData_eq, ok_bind]
  cases hq : m.client.peers.atHandle hpeer with
  | none =>
    rw [hq] at h
    obtain rfl := Except.ok.inj h
    exact ⟨rfl, id⟩
  | some q =>
    rw [hq] at h
    rcases findChatwinFromPeer_cases m.client.gChatWins hpeer with ⟨hfind, -⟩ |
      ⟨k, hk, hfind, -, -⟩
    · simp only [hfind, Exec.lift_ok, ok_bind] at h ⊢
      obtain ⟨_, -, h⟩ := bind_eq_ok.mp h
      obtain ⟨_, -, h⟩ := bind_eq_ok.mp h
      obtain ⟨rows, hrows, h⟩ := bind_eq_ok.mp h
      obtain ⟨⟨arenaChatwins, gChatWins⟩, happend, h⟩ := bind_eq_ok.mp h
      obtain rfl := Except.ok.inj h
      refine ⟨?_, fun hm => ⟨hm.arenaChats_cap, hm.texts_cap⟩⟩
      rw [refreshMsghistoryIn_eq hrows, ok_bind, (arrayAppendIn_eq happend).1, ok_bind]
    · simp only [hfind, Exec.lift_ok, ok_bind] at h ⊢
      obtain rfl := Except.ok.inj h
      exact ⟨rfl, id⟩

/-- `IDLE_open_chatwin` does the same. -/
theorem idleOpenChatwinIn_eq (h : idleOpenChatwinIn gAlias m hpeer ct = .ok m') :
    idleOpenChatwin m.client hpeer ct = .ok m'.client ∧ (m.WF → m'.WF) := by
  rw [idleOpenChatwinIn] at h
  rw [idleOpenChatwin]
  rcases findChatwinFromPeer_cases m.client.gChatWins hpeer with ⟨hfind, -⟩ |
    ⟨k, hk, hfind, -, -⟩
  · simp only [hfind, Exec.lift_ok, ok_bind] at h ⊢
    exact openChatwinIn_eq h
  · simp only [hfind, getPeerData_eq, Exec.lift_ok, ok_bind] at h ⊢
    cases hq : m.client.peers.atHandle hpeer with
    | none =>
      rw [hq] at h
      exact openChatwinIn_eq h
    | some q =>
      rw [hq] at h
      obtain ⟨row, hrow, h⟩ := bind_eq_ok.mp h
      obtain ⟨gChatWins, hwins, h⟩ := bind_eq_ok.mp h
      obtain rfl := Except.ok.inj h
      rw [addChattextIn_eq hrow] at hwins
      refine ⟨?_, fun hm => ⟨hm.arenaChats_cap, hm.texts_cap⟩⟩
      simp only [Exec.lift_eq_ok.mp hwins, ok_bind]

/-- One more text. -/
theorem ClientIn.WF.append (hm : m.WF) (hcap : m'.arenaChats.cap = m.arenaChats.cap)
    (happend : arrayAppend m.client.gChatTexts ct = .ok m'.client.gChatTexts) : m'.WF := by
  refine ⟨hcap.trans hm.arenaChats_cap, ?_⟩
  have htexts := hm.texts_cap
  have hgrown := arrayAppend_cap happend
  split at hgrown <;> omega

/-- `handle_msg` does the same with a CHATTEXT. -/
theorem handleChattextIn_eq {tscratch : Arena} {mem : ℕ → UInt8} {msglen : ℕ}
    (hmsgno : (mem 0).toNat = MsgNo.chattext)
    (h : handleChattextIn m tscratch fromaddr mem msglen = .ok m') (gTrackerAddr : HostAddr)
    (u : Uninit) : clientReceive gTrackerAddr m.client fromaddr mem msglen u = .ok m'.client ∧
      (m.WF → m'.WF) := by
  have honline : (mem 0).toNat ≠ MsgNo.peerOnline := by
    rw [hmsgno]
    decide
  have hoffline : (mem 0).toNat ≠ MsgNo.peerOffline := by
    rw [hmsgno]
    decide
  obtain ⟨⟨_, unpacked⟩, hunpack, h⟩ := bind_eq_ok.mp h
  obtain rfl : unpacked = netUnpack mem msglen Fmt.chattext := by
    obtain ⟨_, -, heq⟩ := bind_eq_ok.mp hunpack
    exact (Prod.mk.inj (Except.ok.inj heq)).2.symm
  simp only [clientReceive, unpackClientMsg, if_neg honline, if_neg hoffline, if_pos hmsgno,
    clientHandleMsg, findPeerFromaddr_eq, ok_bind]
  simp only [findPeerFromaddr_eq, Exec.lift_ok, ok_bind] at h
  cases hq : m.client.peers.at fromaddr with
  | none =>
    rw [hq] at h
    obtain rfl := Except.ok.inj h
    exact ⟨rfl, id⟩
  | some q =>
    rw [hq] at h
    simp only [Option.map_some, getPeerData_eq, Exec.lift_ok, ok_bind] at h ⊢
    obtain ⟨⟨_, str⟩, hdup, h⟩ := bind_eq_ok.mp h
    obtain ⟨rfl, hcap⟩ := stringDupIn_eq hdup
    obtain ⟨⟨_, gChatTexts⟩, happend, h⟩ := bind_eq_ok.mp h
    obtain ⟨ct, hct, h⟩ := bind_eq_ok.mp h
    obtain rfl := Except.ok.inj h
    obtain ⟨happend, hcap'⟩ := arrayAppendIn_eq happend
    refine ⟨?_, fun hm => hm.append (hcap'.trans hcap) happend⟩
    rw [happend, ok_bind, Exec.lift_eq_ok.mp hct, ok_bind]

/-- `ConnectAndSendMsg` does the same. -/
theorem connectAndSendMsgIn_eq {t : Transfer}
    (h : connectAndSendMsgIn scratch env fds fmt args = .ok t) :
    connectAndSendMsg env fds fmt args = .ok t := by
  rw [connectAndSendMsgIn] at h
  rw [connectAndSendMsg]
  rcases hconn : openTcpConnectSocket env.connect fds with ⟨_ | destfd, fds'⟩
  · rw [hconn] at h
    exact congrArg _ (Except.ok.inj h)
  · rw [hconn] at h
    obtain ⟨s, hsend, h⟩ := bind_eq_ok.mp h
    obtain ⟨⟨_, buf⟩, hnew, hsend⟩ := bind_eq_ok.mp hsend
    obtain rfl : buf = bufferNew 256 := by
      obtain ⟨_, -, heq⟩ := bind_eq_ok.mp hnew
      exact (Prod.mk.inj (Except.ok.inj heq)).2.symm
    obtain ⟨⟨_, sendbuf, n⟩, hpack, hsend⟩ := bind_eq_ok.mp hsend
    have hsame : sendMsgV env fmt args = .ok s := by
      rw [sendMsgV, netPackLenVIn_eq hpack, ok_bind]
      exact congrArg _ (Except.ok.inj hsend)
    change (sendMsgV env fmt args >>= _) = _
    rw [hsame, ok_bind]
    exact congrArg _ (Except.ok.inj h)

/-- `CB_chatwin_send` does the same. -/
theorem chatwinSendIn_eq (h : chatwinSendIn gAlias m env fds error hpeer text = .ok m') :
    ∃ t, connectAndSendMsg env fds Fmt.chattext (chatArgs text) = .ok t ∧
      chatwinSend m.client hpeer text t.ret = .ok m'.client ∧ (m.WF → m'.WF) := by
  obtain ⟨t₀, ht₀, -⟩ := connectAndSendMsg_chat env fds text
  refine ⟨t₀, ht₀, ?_⟩
  simp only [chatwinSendIn, getPeerData_eq, Exec.lift_ok, ok_bind] at h
  simp only [chatwinSend, getPeerData_eq, ok_bind]
  cases hq : m.client.peers.atHandle hpeer with
  | none =>
    rw [hq] at h
    obtain rfl := Except.ok.inj h
    exact ⟨rfl, id⟩
  | some q =>
    rw [hq] at h
    rcases findChatwinFromPeer_cases m.client.gChatWins hpeer with ⟨hfind, -⟩ |
      ⟨k, hk, hfind, -, -⟩
    · simp only [hfind, Exec.lift_ok, ok_bind] at h ⊢
      obtain rfl := Except.ok.inj h
      exact ⟨rfl, id⟩
    · simp only [hfind, Exec.lift_ok, ok_bind] at h ⊢
      obtain ⟨t, ht, h⟩ := bind_eq_ok.mp h
      obtain rfl := Except.ok.inj (ht₀.symm.trans (connectAndSendMsgIn_eq ht))
      by_cases hz : t₀.ret = -1
      · rw [if_pos hz] at h ⊢
        obtain ⟨_, -, h⟩ := bind_eq_ok.mp h
        obtain rfl := Except.ok.inj h
        exact ⟨rfl, id⟩
      · rw [if_neg hz] at h ⊢
        obtain ⟨⟨_, str⟩, hnew, h⟩ := bind_eq_ok.mp h
        obtain ⟨rfl, hcap⟩ := stringNewIn_eq hnew
        obtain ⟨⟨_, gChatTexts⟩, happend, h⟩ := bind_eq_ok.mp h
        obtain ⟨row, hrow, h⟩ := bind_eq_ok.mp h
        rw [addChattextIn_eq hrow] at h
        obtain ⟨gChatWins, hwins, h⟩ := bind_eq_ok.mp h
        obtain rfl := Except.ok.inj h
        obtain ⟨happend, hcap'⟩ := arrayAppendIn_eq happend
        refine ⟨?_, fun hm => hm.append (hcap'.trans hcap) happend⟩
        rw [happend, ok_bind, Exec.lift_eq_ok.mp hwins, ok_bind]

end Same

/-! ## What fits -/

/-- There is room for the row of a text in a copy of `GScratch1` of which `used` bytes are taken:
the markup has 42 bytes around the alias of a peer and a text, 47 around that of the user. -/
def TextFits (gAlias : String) (used : ℕ) (q : Peer) (ct : ChatText) : Prop :=
  if ct.fromaddr = q.fromaddr then
    used + (42 + strlen q.aliasStr.str + strlen ct.text.cstr) % 2 ^ 16 < 4 * 1024
  else if ct.toaddr = q.toaddr then
    used + (47 + strlen gAlias.cstr + strlen ct.text.cstr) % 2 ^ 16 < 4 * 1024
  else True

/-- The peer has a window. -/
def Client.HasWin (c : Client) (hpeer : TMHandle) : Prop :=
  (lookup ChatWin.hpeer c.wins hpeer).isSome

/-- A window can be opened for the peer: all the texts of its history fit behind the title and the
caption, and a full array of windows finds a block twice as large. -/
def OpenFits (gAlias : String) (m : ClientIn) (q : Peer) : Prop :=
  (∀ ct ∈ m.client.texts, TextFits gAlias (21 + 2 * strlen q.aliasStr.str) q ct) ∧
    (m.client.gChatWins.len = m.client.gChatWins.cap →
      m.arenaChatwins.pos + chatWinSize * m.client.gChatWins.cap * 2 ≤ m.arenaChatwins.cap)

/-- A text from a peer can be shown, in its window or in a new one. -/
def ShowFits (gAlias : String) (m : ClientIn) (hpeer : TMHandle) (ct : ChatText) : Prop :=
  ∀ q, m.client.peers.atHandle hpeer = some q →
    (m.client.HasWin hpeer → TextFits gAlias 0 q ct) ∧
      (¬ m.client.HasWin hpeer → OpenFits gAlias m q)

/-- A text can be sent from a window, whatever becomes of the connection. -/
def SendFits (gAlias : String) (c : Client) (hpeer : TMHandle) (text : CStr) : Prop :=
  ∀ q, c.peers.atHandle hpeer = some q → c.HasWin hpeer →
    strlen text ≤ 2043 ∧ TextFits gAlias 0 q ⟨0, q.toaddr, stringNew text⟩

/-- A text can be unpacked in the arena of the network thread. -/
def ReceiveFits (tscratch : Arena) (text : CStr) : Prop :=
  0 < strlen text → tscratch.pos + (strlen text + 1) ≤ tscratch.cap

/-- There is room in the arena of the chat texts for one more text. -/
def ClientIn.HasRoom (m : ClientIn) (text : CStr) : Prop :=
  m.arenaChats.pos + (strlen text + 1) +
    (if m.client.gChatTexts.len = m.client.gChatTexts.cap then
      chatTextSize * m.client.gChatTexts.cap * 2 else 0) ≤ m.arenaChats.cap

section Rows

variable {gAlias : String} {m : ClientIn} {scratch : Arena} {q : Peer} {ct : ChatText}
  {hpeer : TMHandle}

@[simp] theorem strlen_receivedMarkup (aliasStr text : CStr) :
    strlen (receivedMarkup aliasStr text) = 42 + strlen aliasStr + strlen text := by
  have hopen : strlen (.const "<span color='blue' weight='bold'>".toList) = 33 := by decide
  have hclose : strlen (.const "</span>:\n".toList) = 9 := by decide
  rw [receivedMarkup, strlen_append, strlen_append, strlen_append, hopen, hclose]
  omega

@[simp] theorem strlen_sentMarkup (aliasStr text : CStr) :
    strlen (sentMarkup aliasStr text) = 47 + strlen aliasStr + strlen text := by
  have hopen : strlen (.const "<span color='darkgreen' weight='bold'>".toList) = 38 := by decide
  have hclose : strlen (.const "</span>:\n".toList) = 9 := by decide
  rw [sentMarkup, strlen_append, strlen_append, strlen_append, hopen, hclose]
  omega

/-- A row that fits is made. -/
theorem addChattextIn_ok (hcap : scratch.cap = 4 * 1024)
    (h : TextFits gAlias scratch.pos q ct) :
    ∃ row, addChattextIn gAlias scratch q ct = .ok row := by
  rw [TextFits] at h
  rw [addChattextIn]
  by_cases hfrom : ct.fromaddr = q.fromaddr
  · rw [if_pos hfrom] at h ⊢
    rw [stringFormatIn, stringNewIn_ok (by rw [strlen_receivedMarkup]; omega)]
    exact ⟨_, rfl⟩
  · rw [if_neg hfrom] at h ⊢
    by_cases hto : ct.toaddr = q.toaddr
    · rw [if_pos hto] at h ⊢
      rw [stringFormatIn, stringNewIn_ok (by rw [strlen_sentMarkup]; omega)]
      exact ⟨_, rfl⟩
    · rw [if_neg hto]
      exact ⟨_, rfl⟩

/-- A row that does not fit is not. -/
theorem addChattextIn_error (hcap : scratch.cap = 4 * 1024)
    (h : ¬ TextFits gAlias scratch.pos q ct) :
    addChattextIn gAlias scratch q ct = .error .noMemory := by
  rw [TextFits] at h
  rw [addChattextIn]
  by_cases hfrom : ct.fromaddr = q.fromaddr
  · rw [if_pos hfrom] at h ⊢
    rw [stringFormatIn, stringNewIn_error (by rw [strlen_receivedMarkup]; omega)]
    rfl
  · rw [if_neg hfrom] at h ⊢
    by_cases hto : ct.toaddr = q.toaddr
    · rw [if_pos hto] at h ⊢
      rw [stringFormatIn, stringNewIn_error (by rw [strlen_sentMarkup]; omega)]
      rfl
    · rw [if_neg hto] at h
      exact absurd trivial h

/-- The history of a new window is made exactly when each of its rows is. -/
theorem refreshMsghistoryIn_cases (gAlias : String) (q : Peer) (hcap : scratch.cap = 4 * 1024)
    (chattexts : Array ChatText) :
    (∀ ct ∈ chattexts.toList, TextFits gAlias scratch.pos q ct) ∧
        (∃ rows, refreshMsghistoryIn gAlias scratch chattexts q = .ok rows) ∨
      (¬ ∀ ct ∈ chattexts.toList, TextFits gAlias scratch.pos q ct) ∧
        refreshMsghistoryIn gAlias scratch chattexts q = .error .noMemory := by
  rw [refreshMsghistoryIn, arrayFoldIn_eq]
  refine run_guarded (fun rows ct hfits => ?_) (fun rows ct hfits => ?_) [] chattexts.toList
  · obtain ⟨row, hrow⟩ := addChattextIn_ok hcap hfits
    rw [hrow]
    exact ⟨_, rfl⟩
  · rw [addChattextIn_error hcap hfits]
    rfl

/-- A window that is new can be opened exactly when its history fits, and it. -/
theorem openChatwinIn_ne_noMemory_iff (hq : m.client.peers.atHandle hpeer = some q)
    (hwin : ¬ m.client.HasWin hpeer) :
    openChatwinIn gAlias m gScratch1 hpeer ≠ .error .noMemory ↔ OpenFits gAlias m q := by
  have htitle : strlen (.const " chat".toList) = 5 := by decide
  have hcaption : strlen (.const "Chatting with ".toList) = 14 := by decide
  have halias : strlen q.aliasStr.str ≤ 16 := q.aliasStr.fits
  rcases findChatwinFromPeer_cases m.client.gChatWins hpeer with ⟨hfind, hnone⟩ |
    ⟨k, hk, hfind, hsome, -⟩
  · simp only [openChatwinIn, getPeerData_eq, hq, hfind, Exec.lift_ok, ok_bind]
    obtain ⟨scratch₁, hformat₁, hpos₁, hcap₁⟩ : ∃ scratch₁,
        stringFormatIn gScratch1 (q.aliasStr.str.append (.const " chat".toList)) =
          .ok (scratch₁, stringNew (q.aliasStr.str.append (.const " chat".toList))) ∧
        scratch₁.pos = 6 + strlen q.aliasStr.str ∧ scratch₁.cap = 4 * 1024 := by
      have hlen : strlen (q.aliasStr.str.append (.const " chat".toList)) % 2 ^ 16 + 1 =
          6 + strlen q.aliasStr.str := by
        rw [strlen_append, htitle]
        omega
      have hroom : gScratch1.pos + (6 + strlen q.aliasStr.str) ≤ gScratch1.cap := by
        change 0 + (6 + strlen q.aliasStr.str) ≤ 4 * 1024
        omega
      rw [← hlen] at hroom
      refine ⟨_, stringNewIn_ok hroom, ?_, rfl⟩
      exact (Nat.zero_add _).trans hlen
    obtain ⟨scratch₂, hformat₂, hpos₂, hcap₂⟩ : ∃ scratch₂,
        stringFormatIn scratch₁ ((CStr.const "Chatting with ".toList).append q.aliasStr.str) =
          .ok (scratch₂, stringNew ((CStr.const "Chatting with ".toList).append q.aliasStr.str)) ∧
        scratch₂.pos = 21 + 2 * strlen q.aliasStr.str ∧ scratch₂.cap = 4 * 1024 := by
      have hlen : strlen ((CStr.const "Chatting with ".toList).append q.aliasStr.str) % 2 ^ 16 +
          1 = 15 + strlen q.aliasStr.str := by
        rw [strlen_append, hcaption]
        omega
      have hroom : scratch₁.pos + (15 + strlen q.aliasStr.str) ≤ scratch₁.cap := by omega
      rw [← hlen] at hroom
      refine ⟨_, stringNewIn_ok hroom, ?_, hcap₁⟩
      change scratch₁.pos + (_ + 1) = _
      omega
    rw [hformat₁, ok_bind, hformat₂, ok_bind, OpenFits, ← hpos₂, Client.texts]
    rcases refreshMsghistoryIn_cases gAlias q hcap₂ m.client.gChatTexts with
      ⟨hfits, rows, hrows⟩ | ⟨hnot, herror⟩
    · rw [hrows, ok_bind, Ne, bind_ok_eq_error, ← Ne, arrayAppendIn_ne_noMemory_iff]
      exact (and_iff_right hfits).symm
    · rw [herror, error_bind]
      exact iff_of_false (fun h => h rfl) fun h => hnot h.1
  · refine absurd ?_ hwin
    rw [Client.HasWin, Client.wins, hsome]
    rfl

/-- A text from a peer is shown exactly when it fits. -/
theorem idleOpenChatwinIn_ne_noMemory_iff (gAlias : String) (m : ClientIn) (hpeer : TMHandle)
    (ct : ChatText) :
    idleOpenChatwinIn gAlias m hpeer ct ≠ .error .noMemory ↔ ShowFits gAlias m hpeer ct := by
  rw [ShowFits]
  cases hq : m.client.peers.atHandle hpeer with
  | none =>
    -- neither function does anything
    have hopen : openChatwinIn gAlias m gScratch1 hpeer = .ok m := by
      rw [openChatwinIn, getPeerData_eq, hq]
      rfl
    refine iff_of_true ?_ fun q h => nomatch h
    rw [idleOpenChatwinIn]
    rcases findChatwinFromPeer_cases m.client.gChatWins hpeer with ⟨hfind, -⟩ |
      ⟨k, hk, hfind, -, -⟩
    · simp only [hfind, Exec.lift_ok, ok_bind, hopen]
      rintro ⟨⟩
    · simp only [hfind, getPeerData_eq, hq, Exec.lift_ok, ok_bind, hopen]
      rintro ⟨⟩
  | some q =>
    simp only [Option.some.injEq, forall_eq']
    by_cases hwin : m.client.HasWin hpeer
    · rw [idleOpenChatwinIn]
      rcases findChatwinFromPeer_cases m.client.gChatWins hpeer with ⟨-, hnone⟩ |
        ⟨k, hk, hfind, -, -⟩
      · rw [Client.HasWin, Client.wins, hnone] at hwin
        cases hwin
      · simp only [hfind, getPeerData_eq, hq, Exec.lift_ok, ok_bind]
        by_cases hfits : TextFits gAlias 0 q ct
        · obtain ⟨row, hrow⟩ := addChattextIn_ok (rfl : gScratch1.cap = 4 * 1024) hfits
          rw [hrow, ok_bind, Ne, bind_ok_eq_error]
          exact iff_of_true (Exec.lift_ne_noMemory _)
            ⟨fun _ => hfits, fun h => absurd hwin h⟩
        · rw [addChattextIn_error (rfl : gScratch1.cap = 4 * 1024) hfits, error_bind]
          exact iff_of_false (fun h => h rfl) fun h => hfits (h.1 hwin)
    · have hsame : idleOpenChatwinIn gAlias m hpeer ct =
          openChatwinIn gAlias m gScratch1 hpeer := by
        rw [idleOpenChatwinIn]
        rcases findChatwinFromPeer_cases m.client.gChatWins hpeer with ⟨hfind, -⟩ |
          ⟨k, hk, -, hsome, -⟩
        · simp only [hfind, Exec.lift_ok, ok_bind]
        · refine absurd ?_ hwin
          rw [Client.HasWin, Client.wins, hsome]
          rfl
      rw [hsame, openChatwinIn_ne_noMemory_iff hq hwin]
      exact ⟨fun h => ⟨fun h' => absurd h' hwin, fun _ => h⟩, fun h => h.2 hwin⟩

end Rows

section Texts

variable {gAlias : String} {m m' : ClientIn} {hpeer : TMHandle} {fromaddr : HostAddr} {q : Peer}
  {text : CStr} {env : SendEnv} {fds : Finset ℕ} {error : CStr}

/-- The message of a text is packed exactly when the text is short enough for a second block. -/
theorem sendMsgVIn_cases (env : SendEnv) (hlen : strlen text < 2 ^ 16) :
    (strlen text ≤ 2043 ∧ ∃ s, sendMsgVIn gScratch1 env Fmt.chattext (chatArgs text) = .ok s) ∨
      (2043 < strlen text ∧
        sendMsgVIn gScratch1 env Fmt.chattext (chatArgs text) = .error .noMemory) := by
  have hfmt : Fmt.chattext = [ofChar '%', ofChar 'b', ofChar '%', ofChar 's'] := by decide
  have hfirst : gScratch1.pos + 256 ≤ gScratch1.cap := by decide
  obtain ⟨arena, hnew, hpos, hcap⟩ : ∃ arena, bufferNewIn gScratch1 256 =
      .ok (arena, bufferNew 256) ∧ arena.pos = 256 ∧ arena.cap = 4 * 1024 := by
    refine ⟨⟨_, _, hfirst⟩, ?_, rfl, rfl⟩
    rw [bufferNewIn, if_neg (by decide), arenaAlloc_ok hfirst, ok_bind]
  have hbytes : (text.bytes.take (slen text)).length = strlen text := by
    rw [length_take_slen, slen, Nat.mod_eq_of_lt hlen]
  obtain ⟨buf, hbuf, hbufcap, hok, herror⟩ := netPackLenVIn_byte_str MsgNo.chattext text arena
    (bufferNew 256) (by decide)
  replace hbuf : buf.len = 5 := hbuf
  replace hbufcap : buf.cap = 256 := hbufcap
  -- the new capacity is `256 * 2 ^ j`, and 2048 is the last of these that fits behind 256 bytes
  have hthree := appendCap_le_iff buf (strlen text) 3
  obtain ⟨j, hj⟩ := appendCap_eq buf (strlen text)
  rw [hbufcap] at hthree hj
  rw [hbuf] at hthree
  have hsend : sendMsgVIn gScratch1 env Fmt.chattext (chatArgs text) = (do
      let (_, sendbuf, _) ← netPackLenVIn arena (bufferNew 256)
        [ofChar '%', ofChar 'b', ofChar '%', ofChar 's'] [.num MsgNo.chattext, .str text]
      .ok (netSendWaitUntilComplete env.sends env.waits sendbuf)) := by
    rw [sendMsgVIn, hnew, ok_bind, hfmt]
    rfl
  by_cases hshort : strlen text ≤ 2043
  · refine Or.inl ⟨hshort, ?_⟩
    have hle : appendCap buf (strlen text) ≤ 256 * 2 ^ 3 := hthree.mpr (by omega)
    obtain ⟨r, hr⟩ := bufferAppendIn_ok arena buf (text.bytes.take (slen text))
      (by rw [hbytes]; omega)
    obtain ⟨r', hr'⟩ := hok r hr
    rw [hsend, hr']
    exact ⟨_, rfl⟩
  · refine Or.inr ⟨not_le.mp hshort, ?_⟩
    have hgt : ¬ appendCap buf (strlen text) ≤ 256 * 2 ^ 3 := fun h => by
      have := hthree.mp h
      omega
    have hfour : 2 ^ 4 ≤ 2 ^ j := by
      refine Nat.pow_le_pow_right (by decide) ?_
      by_contra hlt
      have hpow : 2 ^ j ≤ 2 ^ 3 := Nat.pow_le_pow_right (by decide) (by omega)
      omega
    rw [hsend, herror (bufferAppendIn_error (by rw [hbytes]; omega) (by rw [hbytes]; omega))]
    rfl

/-- In the arena of the chat texts there is room for a slot as well. -/
theorem ClientIn.WF.append_ok (hm : m.WF) (hroom : m.HasRoom text) (arena : Arena)
    (hpos : arena.pos = m.arenaChats.pos + (strlen text + 1))
    (hcap : arena.cap = m.arenaChats.cap) (ct : ChatText) :
    ∃ r, arrayAppendIn chatTextSize arena m.client.gChatTexts ct = .ok r := by
  have htexts := hm.texts_cap
  have hchats := hm.arenaChats_cap
  have hsize : chatTextSize = 48 := rfl
  rw [ClientIn.HasRoom] at hroom
  have happend : ∃ a', arrayAppend m.client.gChatTexts ct = .ok a' := by
    refine (arrayAppend_cases m.client.gChatTexts ct).resolve_right fun herror => ?_
    obtain ⟨hfull, hbig⟩ := (arrayAppend_error_iff _ _).mp herror
    rw [if_pos hfull, hsize] at hroom
    omega
  obtain ⟨a', ha'⟩ := happend
  by_cases hfull : m.client.gChatTexts.len = m.client.gChatTexts.cap
  · rw [if_pos hfull] at hroom
    exact ⟨_, arrayAppendIn_of_full chatTextSize arena hfull ha' (by omega)⟩
  · have hle := m.client.gChatTexts.len_le_cap
    exact ⟨_, arrayAppendIn_of_lt chatTextSize arena (lt_of_le_of_ne hle hfull) ha'⟩

/-- What a window does to send a text, once it has found itself and the peer. -/
theorem chatwinSendIn_of_win (hq : m.client.peers.atHandle hpeer = some q)
    (hwin : m.client.HasWin hpeer) :
    chatwinSendIn gAlias m env fds error hpeer text = (do
      let t ← connectAndSendMsgIn gScratch1 env fds Fmt.chattext (chatArgs text)
      if t.ret = -1 then do
        let _ ← stringFormatIn gScratch1
          ((CStr.const "Send error: ".toList).append (error.append (.const "\n".toList)))
        .ok m
      else do
        let (arenaChats, str) ← stringNewIn m.arenaChats text
        let (arenaChats, gChatTexts) ←
          arrayAppendIn chatTextSize arenaChats m.client.gChatTexts ⟨0, q.toaddr, str⟩
        let row ← addChattextIn gAlias gScratch1 q ⟨0, q.toaddr, str⟩
        let gChatWins ← (appendHistory m.client.gChatWins hpeer (row.map Prod.fst)).lift
        .ok { m with
          client := { m.client with gChatTexts := gChatTexts, gChatWins := gChatWins }
          arenaChats := arenaChats }) := by
  rcases findChatwinFromPeer_cases m.client.gChatWins hpeer with ⟨-, hnone⟩ |
    ⟨k, hk, hfind, -, -⟩
  · rw [Client.HasWin, Client.wins, hnone] at hwin
    cases hwin
  · simp only [chatwinSendIn, getPeerData_eq, hq, hfind, Exec.lift_ok, ok_bind]

/-- A callback without a peer or a window does nothing. -/
theorem chatwinSendIn_idle
    (h : ∀ q, m.client.peers.atHandle hpeer = some q → ¬ m.client.HasWin hpeer) :
    chatwinSendIn gAlias m env fds error hpeer text = .ok m := by
  simp only [chatwinSendIn, getPeerData_eq, Exec.lift_ok, ok_bind]
  cases hq : m.client.peers.atHandle hpeer with
  | none => rfl
  | some q =>
    rcases findChatwinFromPeer_cases m.client.gChatWins hpeer with ⟨hfind, -⟩ |
      ⟨k, hk, -, hsome, -⟩
    · simp only [hfind, Exec.lift_ok, ok_bind]
    · refine absurd ?_ (h q hq)
      rw [Client.HasWin, Client.wins, hsome]
      rfl

/-- Once the text has gone out, the callback fails exactly when the row does not fit. -/
theorem chatwinSendIn_sent (hm : m.WF) (hlen : strlen text < 2 ^ 16) (hroom : m.HasRoom text)
    (hq : m.client.peers.atHandle hpeer = some q) (hwin : m.client.HasWin hpeer) {t : Transfer}
    (ht : connectAndSendMsgIn gScratch1 env fds Fmt.chattext (chatArgs text) = .ok t)
    (hret : t.ret ≠ -1) :
    chatwinSendIn gAlias m env fds error hpeer text ≠ .error .noMemory ↔
      TextFits gAlias 0 q ⟨0, q.toaddr, stringNew text⟩ := by
  have hstore : m.arenaChats.pos + (strlen text % 2 ^ 16 + 1) ≤ m.arenaChats.cap := by
    rw [ClientIn.HasRoom] at hroom
    rw [Nat.mod_eq_of_lt hlen]
    omega
  obtain ⟨⟨arenaChats, gChatTexts⟩, happend⟩ := hm.append_ok hroom
    ⟨_, _, hstore⟩ (congrArg (fun n => m.arenaChats.pos + (n + 1)) (Nat.mod_eq_of_lt hlen)) rfl
    ⟨0, q.toaddr, stringNew text⟩
  rw [chatwinSendIn_of_win hq hwin, ht, ok_bind, if_neg hret, stringNewIn_ok hstore, ok_bind]
  simp only [happend, ok_bind]
  by_cases hfits : TextFits gAlias 0 q ⟨0, q.toaddr, stringNew text⟩
  · obtain ⟨row, hrow⟩ := addChattextIn_ok (rfl : gScratch1.cap = 4 * 1024) hfits
    rw [hrow, ok_bind, Ne, bind_ok_eq_error]
    exact iff_of_true (Exec.lift_ne_noMemory _) hfits
  · rw [addChattextIn_error (rfl : gScratch1.cap = 4 * 1024) hfits, error_bind]
    exact iff_of_false (fun h => h rfl) hfits

/-- A text is sent, whatever becomes of the connection, exactly when it fits.  (What `strerror` says
is short.) -/
theorem chatwinSendIn_ne_noMemory_iff (gAlias : String) (hm : m.WF)
    (hlen : strlen text < 2 ^ 16) (hroom : m.HasRoom text) (hpeer : TMHandle) :
    (∀ env fds error, strlen error < 4083 →
        chatwinSendIn gAlias m env fds error hpeer text ≠ .error .noMemory) ↔
      SendFits gAlias m.client hpeer text := by
  constructor
  · intro h q hq hwin
    have hsend := h (sendEnvOk (chatWire text).length) ∅ CStr.empty (by decide)
    obtain ⟨t, ht, hret⟩ := connectAndSendMsg_ok text
    rcases sendMsgVIn_cases (sendEnvOk (chatWire text).length) hlen with
      ⟨hshort, s, hs⟩ | ⟨-, herror⟩
    · have htin : connectAndSendMsgIn gScratch1 (sendEnvOk (chatWire text).length) ∅
          Fmt.chattext (chatArgs text) =
            .ok ⟨s.ret, s.accepted, (insert 3 ∅ : Finset ℕ).erase 3⟩ := by
        change (sendMsgVIn _ _ _ _ >>= _) = _
        rw [hs]
        rfl
      obtain rfl := Except.ok.inj (ht.symm.trans (connectAndSendMsgIn_eq htin))
      have hne : s.ret ≠ -1 := by
        rw [show s.ret = 0 from hret]
        decide
      exact ⟨hshort, (chatwinSendIn_sent hm hlen hroom hq hwin htin hne).mp hsend⟩
    · refine absurd ?_ hsend
      rw [chatwinSendIn_of_win hq hwin]
      change ((sendMsgVIn _ _ _ _ >>= _) >>= _) = _
      rw [herror]
      rfl
  · intro h env fds error herr
    by_cases hwin : ∃ q, m.client.peers.atHandle hpeer = some q ∧ m.client.HasWin hpeer
    · obtain ⟨q, hq, hwin⟩ := hwin
      obtain ⟨hshort, hfits⟩ := h q hq hwin
      obtain ⟨t, ht⟩ : ∃ t, connectAndSendMsgIn gScratch1 env fds Fmt.chattext (chatArgs text) =
          .ok t := by
        rw [connectAndSendMsgIn]
        rcases hconn : openTcpConnectSocket env.connect fds with ⟨_ | destfd, fds'⟩
        · exact ⟨_, rfl⟩
        · rcases sendMsgVIn_cases env hlen with ⟨-, s, hs⟩ | ⟨hlong, -⟩
          · simp only [hs, ok_bind]
            exact ⟨_, rfl⟩
          · omega
      by_cases hret : t.ret = -1
      · have hintro : strlen (.const "Send error: ".toList) = 12 := by decide
        have hnewline : strlen (.const "\n".toList) = 1 := by decide
        rw [chatwinSendIn_of_win hq hwin, ht, ok_bind, if_pos hret, stringFormatIn,
          stringNewIn_ok]
        · rintro ⟨⟩
        · rw [strlen_append, strlen_append, hintro, hnewline]
          change 0 + _ ≤ 4 * 1024
          omega
      · exact (chatwinSendIn_sent hm hlen hroom hq hwin ht hret).mpr hfits
    · rw [chatwinSendIn_idle fun q hq hw => hwin ⟨q, hq, hw⟩]
      rintro ⟨⟩

/-- What `NetUnpack` makes of the message of a text; an empty text is not assigned. -/
theorem netUnpack_chatBody (hlen : strlen text < 2 ^ 16) {mem : ℕ → UInt8}
    (hmem : Holds mem 0 (chatBody text)) :
    ∃ v, (netUnpack mem (chatBody text).length Fmt.chattext).fields =
      .num v :: if strlen text = 0 then [] else [.str (stringNewFromBytes text.bytes)] := by
  have hb : specOf (ofChar 'b') = .num 1 := by decide
  have hs : specOf (ofChar 's') = .str := by decide
  have hfmt : Fmt.chattext = [ofChar '%', ofChar 'b', ofChar '%', ofChar 's'] := by decide
  have hslen : slen text = strlen text := Nat.mod_eq_of_lt hlen
  have htake : text.bytes.take (strlen text) = text.bytes := List.take_length
  rw [chatBody_eq, hslen, htake] at hmem
  obtain ⟨-, hrest⟩ := holds_append.mp hmem
  obtain ⟨hlength, hbytes⟩ := holds_append.mp hrest
  rw [length_bigEndian] at hbytes
  have hn : numeral (bytesAt mem (0 + 1) 2) = strlen text := by
    rw [Holds, length_bigEndian] at hlength
    refine (congrArg numeral hlength).trans ?_
    exact numeral_bigEndian_of_lt hlen
  rw [length_chatBody, hslen, netUnpack, hfmt, unpackLoop_percent rfl]
  obtain ⟨_, -, heq⟩ := unpackLoop_num mem [ofChar '%', ofChar 's'] hb
    (show ((0 : ℕ) : ℤ) < (3 + strlen text : ℕ) by omega)
    (show ((0 + 1 : ℕ) : ℤ) ≤ (3 + strlen text : ℕ) by omega)
  rw [heq, unpackLoop_percent rfl]
  refine ⟨_, congrArg (List.cons _) ?_⟩
  by_cases hzero : strlen text = 0
  · obtain ⟨_, -, hcut⟩ := unpackLoop_str_cut mem [] hs
      (show ((0 + 1 : ℕ) : ℤ) < (3 + strlen text : ℕ) by omega)
      (show ((3 + strlen text : ℕ) : ℤ) ≤ (0 + 1 + 2 : ℕ) by omega)
    rw [hcut, if_pos hzero]
  · obtain ⟨_, -, hstr⟩ := unpackLoop_str mem [] hs
      (show ((0 + 1 + 2 : ℕ) : ℤ) < (3 + strlen text : ℕ) by omega)
    rw [hstr, if_neg hzero, hn]
    have hcopied : bytesAt mem (0 + 1 + 2) (strlen text) = text.bytes := hbytes
    rw [hcopied]
    rfl

/-- The text takes its block from the arena of the network thread. -/
theorem netUnpackIn_chatBody (hlen : strlen text < 2 ^ 16) {mem : ℕ → UInt8}
    (hmem : Holds mem 0 (chatBody text)) (tscratch : Arena) :
    (ReceiveFits tscratch text ∧ ∃ arena, netUnpackIn tscratch mem (chatBody text).length
        Fmt.chattext = .ok (arena, netUnpack mem (chatBody text).length Fmt.chattext)) ∨
      (¬ ReceiveFits tscratch text ∧
        netUnpackIn tscratch mem (chatBody text).length Fmt.chattext = .error .noMemory) := by
  obtain ⟨v, hfields⟩ := netUnpack_chatBody hlen hmem
  have hblock : ((stringNewFromBytes text.bytes).bs.getD []).length = strlen text + 1 := by
    rw [stringNewFromBytes, Option.getD_some, List.length_append, List.length_singleton]
    rfl
  rw [netUnpackIn, hfields]
  by_cases hzero : strlen text = 0
  · rw [if_pos hzero]
    exact Or.inl ⟨fun h => absurd hzero h.ne', _, rfl⟩
  · have halloc : allocFields tscratch [.num v, .str (stringNewFromBytes text.bytes)] =
        arenaAlloc tscratch (strlen text + 1) := by
      rw [← hblock]
      change (arenaAlloc tscratch _ >>= fun arena => Except.ok arena) = _
      cases arenaAlloc tscratch ((stringNewFromBytes text.bytes).bs.getD []).length <;> rfl
    rw [if_neg hzero, halloc]
    by_cases hfits : tscratch.pos + (strlen text + 1) ≤ tscratch.cap
    · rw [arenaAlloc_ok hfits]
      exact Or.inl ⟨fun _ => hfits, _, rfl⟩
    · rw [arenaAlloc_error (not_le.mp hfits)]
      exact Or.inr ⟨fun h => hfits (h (Nat.pos_of_ne_zero hzero)), rfl⟩

/-- A text is unpacked exactly when it fits. -/
theorem handleChattextIn_ne_noMemory_iff (hm : m.WF) (hlen : strlen text < 2 ^ 16)
    (hroom : m.HasRoom text) {mem : ℕ → UInt8} (hmem : Holds mem 0 (chatBody text))
    (tscratch : Arena) (fromaddr : HostAddr) :
    handleChattextIn m tscratch fromaddr mem (chatBody text).length ≠ .error .noMemory ↔
      ReceiveFits tscratch text := by
  rcases netUnpackIn_chatBody hlen hmem tscratch with ⟨hfits, arena, hunpack⟩ | ⟨hnot, herror⟩
  · refine iff_of_true ?_ hfits
    rw [handleChattextIn, hunpack, ok_bind]
    simp only [findPeerFromaddr_eq, getPeerData_eq, Exec.lift_ok, ok_bind]
    cases hq : m.client.peers.at fromaddr with
    | none => rintro ⟨⟩
    | some q =>
      -- the `String` that is copied has the length of the text
      obtain ⟨text', htext', hstrlen⟩ : ∃ text' : String,
          ((netUnpack mem (chatBody text).length Fmt.chattext).fields.getD 1
            (.str stringNew0)).asStr = text' ∧ text'.len = strlen text := by
        obtain ⟨v, hfields⟩ := netUnpack_chatBody hlen hmem
        rw [hfields]
        by_cases hzero : strlen text = 0
        · rw [if_pos hzero, hzero]
          exact ⟨_, rfl, rfl⟩
        · rw [if_neg hzero]
          exact ⟨_, rfl, Nat.mod_eq_of_lt hlen⟩
      have hstore : m.arenaChats.pos + (text'.len + 1) ≤ m.arenaChats.cap := by
        rw [ClientIn.HasRoom] at hroom
        omega
      obtain ⟨⟨arenaChats, gChatTexts⟩, happend⟩ := hm.append_ok hroom
        ⟨_, _, hstore⟩ (congrArg (fun n => m.arenaChats.pos + (n + 1)) hstrlen) rfl
        ⟨fromaddr, 0, stringDup text'⟩
      simp only [Option.map_some, htext', stringDupIn, arenaAlloc_ok hstore, ok_bind, happend]
      rw [Ne, bind_ok_eq_error]
      exact Exec.lift_ne_noMemory _
  · refine iff_of_false (fun h => h ?_) hnot
    rw [handleChattextIn, herror]
    rfl

/-- A text that the wire format can carry is sent, received and shown without running out of memory
exactly when it fits the arenas of the three functions: 2043 bytes to be packed, its block in the
arena of the network thread, and 4 KiB for its row, or for each row of a window that is opened. -/
theorem chat_never_aborts_iff (hm : m.WF) (hlen : strlen text ≤ 65532) (hroom : m.HasRoom text)
    {mem : ℕ → UInt8} (hmem : Holds mem 0 (chatBody text)) (gAlias : String) (hpeer : TMHandle)
    (tscratch : Arena) (fromaddr : HostAddr) (ct : ChatText) :
    ((∀ env fds error, strlen error < 4083 →
        chatwinSendIn gAlias m env fds error hpeer text ≠ .error .noMemory) ↔
      SendFits gAlias m.client hpeer text) ∧
    (handleChattextIn m tscratch fromaddr mem (chatBody text).length ≠ .error .noMemory ↔
      ReceiveFits tscratch text) ∧
    (idleOpenChatwinIn gAlias m hpeer ct ≠ .error .noMemory ↔ ShowFits gAlias m hpeer ct) := by
  have hlt : strlen text < 2 ^ 16 := by omega
  exact ⟨chatwinSendIn_ne_noMemory_iff gAlias hm hlt hroom hpeer,
    handleChattextIn_ne_noMemory_iff hm hlt hroom hmem tscratch fromaddr,
    idleOpenChatwinIn_ne_noMemory_iff gAlias m hpeer ct⟩

/-- A client that knows the peer with the address 5, without an alias, and has opened its window. -/
theorem client_with_window : ∃ (m : ClientIn) (q : Peer), m.WF ∧
    m.client.peers.atHandle 1 = some q ∧ q.fromaddr = 5 ∧ strlen q.aliasStr.str = 0 ∧
    m.client.HasWin 1 ∧ m.arenaChats.pos = 3072 ∧
    m.client.gChatTexts.len < m.client.gChatTexts.cap := by
  obtain ⟨c, q, -, hq, hfrom, halias, hwin, htexts⟩ : ∃ c q, run (clientStep 1) clientInit
      [.recv 1 (.peer (.online CStr.empty CStr.empty 5 6)), .idle, .select 1] = .ok c ∧
      c.peers.atHandle 1 = some q ∧ q.fromaddr = 5 ∧ strlen q.aliasStr.str = 0 ∧ c.HasWin 1 ∧
      c.gChatTexts.len = 0 ∧ c.gChatTexts.cap = 64 :=
    ⟨_, _, rfl, rfl, rfl, rfl, rfl, rfl, rfl⟩
  have hchats : (arenaNew (64 * 1024)).pos + chatTextSize * 64 ≤ (arenaNew (64 * 1024)).cap := by
    decide
  have hwins : (arenaNew (4 * 1024)).pos + chatWinSize * 64 ≤ (arenaNew (4 * 1024)).cap := by
    decide
  refine ⟨⟨c, ⟨_, _, hchats⟩, ⟨_, _, hwins⟩⟩, q, ⟨rfl, ?_⟩, hq, hfrom, halias, hwin, rfl, ?_⟩
  · change 0 < c.gChatTexts.cap
    omega
  · change c.gChatTexts.len < c.gChatTexts.cap
    omega

/-- A text of one byte to and from that peer. -/
theorem chat_never_aborts_of_short : ∃ m : ClientIn, m.client.HasWin 1 ∧
    (∀ env fds error, strlen error < 4083 →
      chatwinSendIn stringNew0 m env fds error 1 (CStr.ofBytes [104]) ≠ .error .noMemory) ∧
    handleChattextIn m (arenaNew 1024) 5 (fun i => [5, 0, 1, 104].getD i 0) 4 ≠
      .error .noMemory := by
  obtain ⟨m, q, hm, hq, hfrom, halias, hwin, hpos, htexts⟩ := client_with_window
  have hmem : Holds (fun i => [5, 0, 1, 104].getD i 0) 0 (chatBody (CStr.ofBytes [104])) :=
    holds_getD [5, 0, 1, 104]
  have hroom : m.HasRoom (CStr.ofBytes [104]) := by
    rw [ClientIn.HasRoom, if_neg htexts.ne, hpos, hm.arenaChats_cap]
    decide
  obtain ⟨hsend, hreceive, -⟩ := chat_never_aborts_iff hm (by decide) hroom hmem stringNew0 1
    (arenaNew 1024) 5 ⟨5, 0, stringNew0⟩
  refine ⟨m, hwin, hsend.mpr ?_, hreceive.mpr fun _ => by decide⟩
  intro q' hq' _
  obtain rfl := Option.some.inj (hq.symm.trans hq')
  refine ⟨by decide, ?_⟩
  rw [TextFits, hfrom, if_neg (by decide : ¬ (0 : HostAddr) = 5), if_pos rfl]
  exact (by decide : 0 + (47 + strlen stringNew0.cstr +
    strlen (stringNew (CStr.ofBytes [104])).cstr) % 2 ^ 16 < 4 * 1024)

/-- A text of 4054 bytes kills the client that sends it and the client that shows it. -/
theorem long_text_kills_both : ∃ (m : ClientIn) (text : CStr), m.WF ∧ strlen text = 4054 ∧
    m.HasRoom text ∧
    (∃ env fds error, strlen error < 4083 ∧
      chatwinSendIn stringNew0 m env fds error 1 text = .error .noMemory) ∧
    idleOpenChatwinIn stringNew0 m 1 ⟨5, 0, stringNew text⟩ = .error .noMemory := by
  obtain ⟨m, q, hm, hq, hfrom, halias, hwin, hpos, htexts⟩ := client_with_window
  obtain ⟨text, htext⟩ : ∃ text : CStr, strlen text = 4054 :=
    ⟨⟨List.replicate 4054 104, fun h => absurd (List.eq_of_mem_replicate h) (by decide)⟩,
      List.length_replicate⟩
  have hroom : m.HasRoom text := by
    rw [ClientIn.HasRoom, if_neg htexts.ne, hpos, hm.arenaChats_cap, htext]
    decide
  refine ⟨m, text, hm, htext, hroom, ?_, ?_⟩
  · by_contra hnot
    have hsends := (chatwinSendIn_ne_noMemory_iff stringNew0 hm (by omega) hroom 1).mp
      fun env fds error herr habort => hnot ⟨env, fds, error, herr, habort⟩
    have hshort := (hsends q hq hwin).1
    omega
  · by_contra hnot
    have hshow := (idleOpenChatwinIn_ne_noMemory_iff stringNew0 m 1 ⟨5, 0, stringNew text⟩).mp hnot
    have hfits := (hshow q hq).1 hwin
    have hcstr : (stringNew text).cstr = text := stringNew_cstr (by omega)
    rw [TextFits, if_pos hfrom.symm, halias, hcstr, htext] at hfits
    exact absurd hfits (by decide)

end Texts

end TinyMsg
