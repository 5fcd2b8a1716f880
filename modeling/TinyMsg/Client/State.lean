import TinyMsg.Messages
import TinyMsg.Peers

/-!
# The client: `handle_msg`, the idle callbacks and the chat windows of `tm.c`

The network thread handles messages and posts idle callbacks; the GUI thread runs them, first in,
first out, and reacts to the user.  Each handler is one atomic step on a `Client`: the peer table,
the chat texts, the chat windows, the rows of the peers list box and the queue of callbacks posted.

Of a widget the model keeps what the program reads back or shows of a conversation: the handle and
label of a row in the list box of peers, the rows of a message history.  A callback of
`IDLE_open_chatwin` carries the chat text itself: the pointer it gets points into `GChatTexts`,
whose items are not changed after they were appended, nor is the old block when the array grows.
-/

namespace TinyMsg

/-- A message to a client, as unpacked. -/
inductive ClientMsg
  /-- `PEER_ONLINE` or `PEER_OFFLINE` -/
  | peer (m : PeerMsg)
  /-- `CHATTEXT` -/
  | chattext (text : String)
  deriving DecidableEq

/-- `ChatText`, without the timestamp. -/
structure ChatText where
  /-- `fromaddr` -/
  fromaddr : HostAddr
  /-- `toaddr` -/
  toaddr : HostAddr
  /-- `text` -/
  text : String
  deriving DecidableEq

instance : Inhabited ChatText := ⟨⟨0, 0, stringNew0⟩⟩

/-- A row of a message history. -/
inductive HistoryRow
  /-- A text from the peer, under its alias. -/
  | received (aliasStr : StaticStr aliasSize) (text : String)
  /-- A text to the peer, under the alias of the user. -/
  | sent (text : String)
  /-- "... is online" -/
  | online (aliasStr : StaticStr aliasSize)
  /-- "... is offline" -/
  | offline (aliasStr : StaticStr aliasSize)
  deriving DecidableEq

/-- `UIChatWin`: the handle and the rows of `msghistorylb`. -/
structure ChatWin where
  /-- `hpeer` -/
  hpeer : TMHandle
  /-- The rows of the message history. -/
  rows : List HistoryRow
  deriving DecidableEq, Inhabited

/-- A row of the list box of peers. -/
structure PeerRow where
  /-- The `hpeer` of the row. -/
  hpeer : TMHandle
  /-- The text of its label. -/
  label : StaticStr aliasSize
  deriving DecidableEq

/-- An idle callback with its data. -/
inductive Idle
  /-- `IDLE_peer_online` -/
  | peerOnline (hpeer : TMHandle)
  /-- `IDLE_peer_offline` -/
  | peerOffline (hpeer : TMHandle)
  /-- `IDLE_open_chatwin` -/
  | openChatwin (hpeer : TMHandle) (ct : ChatText)
  deriving DecidableEq

/-- The handle a callback is about. -/
def Idle.hpeer : Idle → TMHandle
  | .peerOnline hpeer => hpeer
  | .peerOffline hpeer => hpeer
  | .openChatwin hpeer _ => hpeer

/-- The state of the client. -/
structure Client where
  /-- The peer table. -/
  peers : Peers
  /-- `GChatTexts` -/
  gChatTexts : Array ChatText
  /-- `GChatWins` -/
  gChatWins : Array ChatWin
  /-- The rows of `GMainWin.peerslb`. -/
  peerslb : List PeerRow
  /-- The idle callbacks posted and not yet run. -/
  queue : List Idle

/-- A client that has just started. -/
def clientInit : Client := ⟨peersInit, arrayNew 64, arrayNew 64, [], []⟩

/-- `g_idle_add` -/
def gIdleAdd (c : Client) (i : Idle) : Client := { c with queue := c.queue ++ [i] }

/-! ## The network thread -/

/-- `handle_msg` of the client. -/
def clientHandleMsg (gTrackerAddr : HostAddr) (c : Client) (fromaddr : HostAddr) :
    ClientMsg → Exec Client
  | .peer (.online aliasStr hostname peerFromaddr peerToaddr) =>
    -- Should only come from tracker
    if !hostAddrIpaddrEquals fromaddr gTrackerAddr then .ok c
    else do
      let (peers, hpeer) ← createPeer c.peers aliasStr hostname peerFromaddr peerToaddr
      let c := gIdleAdd { c with peers := peers } (.peerOnline hpeer)
      printPeers c.peers
      .ok c
  | .peer (.offline peerFromaddr) =>
    -- Should only come from tracker
    if !hostAddrIpaddrEquals fromaddr gTrackerAddr then .ok c
    else do
      let c :=
        match ← findPeerFromaddr c.peers peerFromaddr with
        | some hpeer => gIdleAdd c (.peerOffline hpeer)
        | none => c
      printPeers c.peers
      .ok c
  | .chattext text => do
    match ← findPeerFromaddr c.peers fromaddr with
    | none => .ok c
    | some hpeer =>
      let _ ← getPeerData c.peers hpeer
      let gChatTexts ← arrayAppend c.gChatTexts ⟨fromaddr, 0, stringDup text⟩
      let ct ← arrayItem gChatTexts (gChatTexts.len - 1)
      .ok (gIdleAdd { c with gChatTexts := gChatTexts } (.openChatwin hpeer ct))

/-! ## The GUI thread -/

/-- The first lines of `IDLE_peer_online` and `IDLE_peer_offline`: the data of a peer that is
asserted to exist. -/
def assertPeerData (p : Peers) (hpeer : TMHandle) : Exec Peer := do
  match ← getPeerData p hpeer with
  | some q => .ok q
  | none => .error .assertion

/-- `find_chatwin_from_peer`: the window of a peer, with its index. -/
def findChatwinFromPeer (gChatWins : Array ChatWin) (hpeer : TMHandle) :
    Exec (Option (ℕ × ChatWin)) :=
  arrayFindItem gChatWins fun cw => cw.hpeer = hpeer

/-- The two outcomes of the search for a window. -/
theorem findChatwinFromPeer_cases (gChatWins : Array ChatWin) (hpeer : TMHandle) :
    (findChatwinFromPeer gChatWins hpeer = .ok none ∧
        lookup ChatWin.hpeer gChatWins.toList hpeer = none) ∨
      ∃ (i : ℕ) (h : i < gChatWins.toList.length),
        findChatwinFromPeer gChatWins hpeer = .ok (some (i, gChatWins.toList[i])) ∧
          lookup ChatWin.hpeer gChatWins.toList hpeer = some gChatWins.toList[i] ∧
            gChatWins.toList[i].hpeer = hpeer :=
  arrayFindItem_cases gChatWins ChatWin.hpeer hpeer

/-- `GtkListBox_append` to the message history of the window of a peer, if it has one. -/
def appendHistory (gChatWins : Array ChatWin) (hpeer : TMHandle) (rows : List HistoryRow) :
    Exec (Array ChatWin) := do
  match ← findChatwinFromPeer gChatWins hpeer with
  | some (i, cw) => .ok (arrayStore gChatWins i { cw with rows := cw.rows ++ rows })
  | none => .ok gChatWins

/-- Setting the row of a peer in the list box: its label is updated, or a row is added. -/
def showPeerRow (rows : List PeerRow) (hpeer : TMHandle) (label : StaticStr aliasSize) :
    List PeerRow :=
  match rows.findIdx? fun row => row.hpeer = hpeer with
  | some i => rows.set i ⟨hpeer, label⟩
  | none => rows ++ [⟨hpeer, label⟩]

/-- Removing the row of a peer from the list box. -/
def hidePeerRow (rows : List PeerRow) (hpeer : TMHandle) : List PeerRow :=
  rows.eraseP fun row => row.hpeer = hpeer

/-- `IDLE_peer_online` -/
def idlePeerOnline (c : Client) (hpeer : TMHandle) : Exec Client := do
  let q ← assertPeerData c.peers hpeer
  let gChatWins ← appendHistory c.gChatWins hpeer [.online q.aliasStr]
  .ok { c with peerslb := showPeerRow c.peerslb hpeer q.aliasStr, gChatWins := gChatWins }

/-- `IDLE_peer_offline` -/
def idlePeerOffline (c : Client) (hpeer : TMHandle) : Exec Client := do
  let q ← assertPeerData c.peers hpeer
  let gChatWins ← appendHistory c.gChatWins hpeer [.offline q.aliasStr]
  let peers ← destroyPeer c.peers hpeer
  .ok { c with
    peerslb := hidePeerRow c.peerslb hpeer
    gChatWins := gChatWins
    peers := peers }

/-- `add_chattext`: the row it appends for a chat text in the window of a peer, if any. -/
def addChattext (q : Peer) (ct : ChatText) : List HistoryRow :=
  if ct.fromaddr = q.fromaddr then [.received q.aliasStr ct.text]
  else if ct.toaddr = q.toaddr then [.sent ct.text]
  else []

/-- `refresh_msghistory`: the rows of a message history made from all chat texts. -/
def refreshMsghistory (chattexts : Array ChatText) (q : Peer) : Exec (List HistoryRow) :=
  arrayFold chattexts (fun rows ct => .ok (rows ++ addChattext q ct)) []

/-- `open_chatwin`; presenting an existing window changes nothing here. -/
def openChatwin (c : Client) (hpeer : TMHandle) : Exec Client := do
  match ← getPeerData c.peers hpeer with
  | none => .ok c
  | some q =>
    match ← findChatwinFromPeer c.gChatWins hpeer with
    | some _ => .ok c
    | none =>
      let rows ← refreshMsghistory c.gChatTexts q
      let gChatWins ← arrayAppend c.gChatWins ⟨hpeer, rows⟩
      .ok { c with gChatWins := gChatWins }

/-- `IDLE_open_chatwin` -/
def idleOpenChatwin (c : Client) (hpeer : TMHandle) (ct : ChatText) : Exec Client := do
  match ← findChatwinFromPeer c.gChatWins hpeer with
  | none => openChatwin c hpeer
  | some _ =>
    match ← getPeerData c.peers hpeer with
    | none => openChatwin c hpeer
    | some q =>
      let gChatWins ← appendHistory c.gChatWins hpeer (addChattext q ct)
      .ok { c with gChatWins := gChatWins }

/-- Running one idle callback. -/
def runIdle (c : Client) : Idle → Exec Client
  | .peerOnline hpeer => idlePeerOnline c hpeer
  | .peerOffline hpeer => idlePeerOffline c hpeer
  | .openChatwin hpeer ct => idleOpenChatwin c hpeer ct

/-! ## Events -/

/-- The peer has a row in the list box. -/
def Client.rowShown (c : Client) (hpeer : TMHandle) : Prop := hpeer ∈ c.peerslb.map PeerRow.hpeer

instance (c : Client) (hpeer : TMHandle) : Decidable (c.rowShown hpeer) :=
  inferInstanceAs (Decidable (hpeer ∈ c.peerslb.map PeerRow.hpeer))

/-- What happens to the client. -/
inductive ClientEvent
  /-- The network thread handles a message. -/
  | recv (fromaddr : HostAddr) (m : ClientMsg)
  /-- The GUI thread runs the next idle callback, if there is one. -/
  | idle
  /-- The user activates the row of a peer in the list box, if there is one (`CB_select_peer`). -/
  | select (hpeer : TMHandle)
  deriving DecidableEq

/-- One event. -/
def clientStep (gTrackerAddr : HostAddr) (c : Client) : ClientEvent → Exec Client
  | .recv fromaddr m => clientHandleMsg gTrackerAddr c fromaddr m
  | .idle =>
    match c.queue with
    | [] => .ok c
    | i :: queue => runIdle { c with queue := queue } i
  | .select hpeer =>
    if c.rowShown hpeer then openChatwin c hpeer else .ok c

end TinyMsg
