import Gnat.Lib.Prog
import Gnat.Lib.Cursor
import Gnat.Lib.VarInt
import Gnat.Lib.Run
import Gnat.Lib.Board
import Gnat.Lib.Latest
import Gnat.Lib.Word
import Gnat.Lib.Refines
import Gnat.Target
import Gnat.Key
import Gnat.Connection
import Gnat.Network
import Gnat.Field
import Gnat.Packet
import Gnat.Proto3
import Gnat.Reads
import Gnat.DataStore
import Gnat.Observed
import Gnat.History
import Gnat.KeyType
import Gnat.Server
import Gnat.Handled
import Gnat.Served
import Gnat.System
import Gnat.Stream
import Gnat.Disconnect
import Gnat.Sync
import Gnat.Atomicity
import Gnat.NetReads
import Gnat.Overrun
import Gnat.Message
import Gnat.Truncation
import Gnat.Received
import Gnat.Sent
import Gnat.Packing
import Gnat.KeyLaws
import Gnat.Broker
import Gnat.Simulation
import Gnat.Delivery
import Gnat.Filters
import Gnat.Interference
import Gnat.Agreement
import Gnat.LengthField
import Gnat.Connecting
import Gnat.Prefixes
import Gnat.Arduino
import Gnat.RoundTrip
import Gnat.Bounds
import Gnat.Wildcard
import Gnat.Alignment
import Gnat.Codec
import Gnat.Transfer
import Gnat.ClientPackets
import Gnat.FilterList
import Gnat.Misplaced
import Gnat.Loop
import Gnat.Portable
import Gnat.Endings
import Gnat.Overread
import Gnat.Grammar
import Gnat.Frames
import Gnat.Readable
import Gnat.Parsers
import Gnat.Relay
import Gnat.Attempts
import Gnat.Wifi
import Gnat.Lib.Reindex
import Gnat.Inbox
import Gnat.Service
import Gnat.Objects
import Gnat.Orders
import Gnat.Interleaving
import Gnat.Session
