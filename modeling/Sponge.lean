import Sponge.Lib.Machine
import Sponge.Lib.Fifo
import Sponge.Lib.Segments
import Sponge.Lib.BigEndian
import Sponge.Lib.Bits
import Sponge.Lib.OnesComplement
import Sponge.Lib.Hex
import Sponge.Lib.Ostream
import Sponge.Lib.Walk
import Sponge.Lib.History
import Sponge.Lib.SharedHeap
import Sponge.Lib.ByteOrder
import Sponge.Lib.Decimal
import Sponge.Lib.CString
import Sponge.ByteStream.Basic
import Sponge.ByteStream.Refines
import Sponge.ByteStream.Closed
import Sponge.ByteStream.Transfer
import Sponge.ByteStream.Granularity
import Sponge.ByteStream.Schedules
import Sponge.ByteStream.Capacity
import Sponge.Util.Error
import Sponge.Util.Buffer
import Sponge.Util.BufferList
import Sponge.Util.ViewList
import Sponge.Util.Storage
import Sponge.Util.OneCopy
import Sponge.Util.Parser
import Sponge.Util.Cursor
import Sponge.Util.RoundTrip
import Sponge.Util.FirstError
import Sponge.Util.Checksum
import Sponge.Util.Streaming
import Sponge.Util.Detection
import Sponge.Util.Hexdump
import Sponge.Util.FileDescriptor
import Sponge.Util.Handles
import Sponge.Util.Socket
import Sponge.Util.StreamPair
import Sponge.Util.Address
import Sponge.Util.Datagrams
import Sponge.Util.Descriptors
import Sponge.Util.Blocking
import Sponge.Util.ServiceCount
import Sponge.Util.EventLoop
import Sponge.Util.PollResults
import Sponge.Util.Lifetimes
import Sponge.Util.PollOutcome
import Sponge.Util.OwnEntries
import Sponge.Util.LifeCycle
import Sponge.Util.Transcript
import Sponge.Util.Termination
import Sponge.Apps.Webget
import Sponge.Apps.Main
import Sponge.Tests.Harness
import Sponge.Tests.ManyWrites
