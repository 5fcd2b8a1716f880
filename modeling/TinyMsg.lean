import TinyMsg.Lib.Block
import TinyMsg.Lib.BigEndian
import TinyMsg.Lib.Run
import TinyMsg.Lib.Framing
import TinyMsg.Clib.Buffer
import TinyMsg.Clib.Array
import TinyMsg.Clib.Arena
import TinyMsg.Clib.Str
import TinyMsg.Cnet.Pack
import TinyMsg.Cnet.Unpack
import TinyMsg.Cnet.Inside
import TinyMsg.Cnet.Decode
import TinyMsg.Cnet.Codec
import TinyMsg.Cnet.Io
import TinyMsg.Messages
import TinyMsg.Client.Framing
import TinyMsg.Client.FramingMemory
import TinyMsg.Client.ChatText
import TinyMsg.Lib.Keyed
import TinyMsg.Cnet.HostAddr
import TinyMsg.Peers
import TinyMsg.PeerTable
import TinyMsg.Tracker.Messages
import TinyMsg.Tracker.Replication
import TinyMsg.Tracker.SelfAnnounce
import TinyMsg.Tracker.PeersArena
import TinyMsg.Client.State
import TinyMsg.Client.Step
import TinyMsg.Client.Unpack
import TinyMsg.Client.Isolation
import TinyMsg.Convergence
import TinyMsg.Client.PeerState
import TinyMsg.Client.ChatHistory
import TinyMsg.Tracker.Memory
import TinyMsg.Lib.Triple
import TinyMsg.Tracker.Net
import TinyMsg.Assertions
import TinyMsg.Tracker.Watch
import TinyMsg.Tracker.Loop
import TinyMsg.Tracker.Relay
import TinyMsg.Malformed
import TinyMsg.Tracker.Watched
import TinyMsg.Client.Memory
import TinyMsg.Clib.ArrayCalls
import TinyMsg.Clib.Map
import TinyMsg.Clib.Split
import TinyMsg.Client.Conversations
import TinyMsg.Client.Descriptors
import TinyMsg.Client.Markup
import TinyMsg.Cnet.ByteOrder
import TinyMsg.PeerAlias
import TinyMsg.Tracker.Events
import TinyMsg.Tracker.Apart
import TinyMsg.Tracker.Streams
import TinyMsg.Tracker.Dispatch
import TinyMsg.Lib.Leftmost
import TinyMsg.Clib.Search
import TinyMsg.Lib.Trim
import TinyMsg.Clib.Trim
import TinyMsg.Clib.Hash
import TinyMsg.Lib.Copy
import TinyMsg.Clib.Footprint
import TinyMsg.ShiftCalls
import TinyMsg.Clib.BufferMemory
import TinyMsg.Client.Command
import TinyMsg.Client.Thread
import TinyMsg.Client.ThreadEvents
import TinyMsg.Client.ThreadTables
import TinyMsg.Client.ThreadFrames
import TinyMsg.Client.ThreadRefines
import TinyMsg.Tracker.Handled
import TinyMsg.Delivery
import TinyMsg.Registration
