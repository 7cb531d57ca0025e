import H12Tiny.Foundation.HandleTable
import H12Tiny.Foundation.Transitions
import H12Tiny.Foundation.Oneshot
import H12Tiny.Foundation.Loop
import H12Tiny.Foundation.Frames
import H12Tiny.Foundation.Search
import H12Tiny.Foundation.Numerals
import H12Tiny.Foundation.Simulation
import H12Tiny.Foundation.EventStream
import H12Tiny.Foundation.Base64
import H12Tiny.Foundation.Decimal
import H12Tiny.Foundation.Json
import H12Tiny.Foundation.HeaderMap
import H12Tiny.Foundation.Except
import H12Tiny.Foundation.Polled
import H12Tiny.Foundation.Plans
import H12Tiny.Http.Types
import H12Tiny.Http.Uri
import H12Tiny.Http.RequestGrammar
import H12Tiny.Core.Io
import H12Tiny.Util.Collect
import H12Tiny.Util.Bodies
import H12Tiny.Util.Reader
import H12Tiny.Pool.Inner
import H12Tiny.Pool.System
import H12Tiny.Pool.Handover
import H12Tiny.Pool.Steps
import H12Tiny.Pool.Queues
import H12Tiny.Pool.Channels
import H12Tiny.Pool.IdleLists
import H12Tiny.Pool.Put
import H12Tiny.Pool.Checkouts
import H12Tiny.Pool.SlotHolders
import H12Tiny.Pool.SlotBalance
import H12Tiny.Pool.SlotBounds
import H12Tiny.Pool.Establishment
import H12Tiny.Pool.Frames
import H12Tiny.Pool.Capacity
import H12Tiny.Pool.Contents
import H12Tiny.Normalize.Request
import H12Tiny.Normalize.Dialling
import H12Tiny.Normalize.PoolKey
import H12Tiny.Client.Request
import H12Tiny.Client.Steps
import H12Tiny.Client.Ownership
import H12Tiny.Client.Refinement
import H12Tiny.Client.Interference
import H12Tiny.Client.Wakeups
import H12Tiny.Client.Resend
import H12Tiny.Client.HappyEyeballs
import H12Tiny.Client.Provenance
import H12Tiny.Client.Exchange
import H12Tiny.Client.Overlap
import H12Tiny.Client.Connector
import H12Tiny.Client.Builder
import H12Tiny.Sync.Bytes
import H12Tiny.Sync.Body
import H12Tiny.Sync.Readers
import H12Tiny.Sync.Wire
import H12Tiny.Sync.Framing
import H12Tiny.Sync.Reads
import H12Tiny.Sync.FieldValues
import H12Tiny.Sync.Grammar
import H12Tiny.Sync.Drain
import H12Tiny.Sync.Message
import H12Tiny.Sync.Points
import H12Tiny.Sync.RoundTrip
import H12Tiny.Sync.Retry
import H12Tiny.Sync.Response
import H12Tiny.Sync.Delivery
import H12Tiny.Sync.View
import H12Tiny.Sync.Lengths
import H12Tiny.Sync.Completion
import H12Tiny.Sync.Timeouts
import H12Tiny.Sync.Buffers
import H12Tiny.Sync.Request
import H12Tiny.Sync.Head
import H12Tiny.Sync.Interim
import H12Tiny.Sync.HeadGrammar
import H12Tiny.Sync.Client
import H12Tiny.Sync.Service
import H12Tiny.Server.Detect
import H12Tiny.Server.Lifecycle
import H12Tiny.Server.Drivers
import H12Tiny.Server.Shutdown
import H12Tiny.Server.Connection
import H12Tiny.Server.Tasks
import H12Tiny.Web.Sse
import H12Tiny.Web.Router
import H12Tiny.Web.Denotation
import H12Tiny.Web.Dispatch
import H12Tiny.Web.Nesting
import H12Tiny.Web.Limits
import H12Tiny.Web.WebSocket
import H12Tiny.Web.Query
import H12Tiny.Web.QueryValues
import H12Tiny.Web.Deadline
import H12Tiny.Web.KeepAlive
import H12Tiny.Web.Extractors
import H12Tiny.Web.HandlerLimits
