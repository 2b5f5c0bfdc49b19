import TarsCpp.Tup.Stream
import TarsCpp.Tup.Value
import TarsCpp.Tup.Encoding
import TarsCpp.Tup.Input
import TarsCpp.Tup.Head
import TarsCpp.Tup.RoundTrip
import TarsCpp.Tup.Evolution
import TarsCpp.Tup.Schema
import TarsCpp.Tup.Safety
import TarsCpp.Tup.HostileInput
import TarsCpp.Tup.Calls
import TarsCpp.NetworkBuffer.Buffer
import TarsCpp.NetworkBuffer.BufferRuns
import TarsCpp.NetworkBuffer.QueueRefinement
import TarsCpp.NetworkBuffer.QueueRuns
import TarsCpp.NetworkBuffer.Framing
import TarsCpp.Epoll.ConnectionList
import TarsCpp.Epoll.NetThread
import TarsCpp.Epoll.SendStream
import TarsCpp.Epoll.Backlog
import TarsCpp.Authentication.AuthCheck
import TarsCpp.Authentication.AuthLogic
import TarsCpp.Tup.Truncated
import TarsCpp.Authentication.AuthFrames
import TarsCpp.Authentication.AuthCompleteness
import TarsCpp.Clockwise
import TarsCpp.ConsistentHash.Ring
import TarsCpp.ConsistentHash.Remapping
import TarsCpp.ConsistentHash.Lookup
import TarsCpp.TimeoutQueue.TimeoutQueueNew
import TarsCpp.TimeoutQueue.NoId
import TarsCpp.TimeoutQueue.Moves
import TarsCpp.TimeoutQueue.Pushes
import TarsCpp.TimeoutQueue.Runs
import TarsCpp.Epoll.TimeoutIndex
import TarsCpp.Epoll.TimeoutCheck
import TarsCpp.CString
import TarsCpp.Http.CheckRequest
import TarsCpp.Http.HeaderScan
import TarsCpp.Http.RequestSafety
import TarsCpp.Http.Decode
import TarsCpp.Http.WellFormed
import TarsCpp.Http.Announced
import TarsCpp.Http.Arrival
import TarsCpp.Http.Decoding
import TarsCpp.Http.Delimiting
import TarsCpp.Interruption
import TarsCpp.SharedMemory.ModifyJournal
import TarsCpp.Circular
import TarsCpp.MemQueue.MemQueue
import TarsCpp.MemQueue.RingLayout
import TarsCpp.MemQueue.Operations
import TarsCpp.MemQueue.Fifo
import TarsCpp.MemQueue.Recovery
import TarsCpp.FlatMemory
import TarsCpp.MemChunk.MemChunk
import TarsCpp.MemChunk.FreeList
import TarsCpp.MemChunk.Creation
import TarsCpp.MemChunk.Parts
import TarsCpp.MemChunk.Walks
import TarsCpp.MemChunk.Pool
import TarsCpp.MemChunk.Appending
import TarsCpp.MemChunk.LiveBlocks
import TarsCpp.Http.Response
import TarsCpp.Http.ResponseHead
import TarsCpp.Servant.AdapterProxy
import TarsCpp.Servant.CircuitBreaker
import TarsCpp.KeyedMerge
import TarsCpp.Servant.Stat
import TarsCpp.Servant.StatTotals
import TarsCpp.Servant.PrepareConnection
import TarsCpp.Json.Value
import TarsCpp.Json.Parser
import TarsCpp.Json.Strings
import TarsCpp.Json.Numbers
import TarsCpp.Json.RoundTrip
import TarsCpp.Decimal
import TarsCpp.Words
import TarsCpp.Endpoint.Endpoint
import TarsCpp.Endpoint.Text
import TarsCpp.Endpoint.Separation
import TarsCpp.Endpoint.CacheRoundTrip
import TarsCpp.Coroutine.Threads
import TarsCpp.Timer.Runs
import TarsCpp.SmoothRoundRobin
import TarsCpp.Servant.RoutingTable
import TarsCpp.Servant.RoutingShares
import TarsCpp.Servant.RoutingLimits
import TarsCpp.ThreadPool.ThreadPool
import TarsCpp.ThreadPool.Runs
import TarsCpp.Promise.Promise
import TarsCpp.Promise.Moves
import TarsCpp.Promise.Lists
import TarsCpp.Promise.Derived
import TarsCpp.Promise.Groups
import TarsCpp.Promise.Runs
import TarsCpp.Json.MapKeys
import TarsCpp.Json.Typed
import TarsCpp.Json.KeyTexts
import TarsCpp.Json.TypedRoundTrip
import TarsCpp.OrderedMap
import TarsCpp.Tup.Omitted
import TarsCpp.Tup.Writing
import TarsCpp.Servant.Response
import TarsCpp.Servant.ResponsePackets
import TarsCpp.Servant.ResponseFrames
import TarsCpp.Http.UrlNormalForm
import TarsCpp.Tup.Writers
import TarsCpp.Tup.WriterRuns
import TarsCpp.DoubleRounding
import TarsCpp.Epoll.Overload
import TarsCpp.Epoll.OverloadRuns
import TarsCpp.Tup.ArrayBounds
import TarsCpp.Servant.StreamFraming
import TarsCpp.NetworkBuffer.Iteration
import TarsCpp.KeyedInsertion
import TarsCpp.Tup.Overwriting
import TarsCpp.ConsistentHash.EndpointManager
import TarsCpp.ConsistentHash.Selecting
import TarsCpp.ConsistentHash.SelectionRuns
import TarsCpp.Http.ResponseBodies
import TarsCpp.Http.ResponseOutcomes
import TarsCpp.Http.ResponseAgreement
import TarsCpp.Http.AgreeingResponses
import TarsCpp.Http.ResponseEncoding
import TarsCpp.RefreshQueue.Runs
import TarsCpp.Nesting
import TarsCpp.Config.Acceptance
import TarsCpp.Cron.Fields
import TarsCpp.PathWrites
import TarsCpp.Json.MergeRuns
import TarsCpp.Json.WriteBack
import TarsCpp.HashMap.Progress
import TarsCpp.Config.NormalForm
import TarsCpp.LoopQueue.Fifo
import TarsCpp.Pack.RoundTrip
import TarsCpp.Servant.StatReport
import TarsCpp.Base64.Encoding
import TarsCpp.Tea.RoundTrip
import TarsCpp.Json.DecodingTotal
import TarsCpp.Tup.PacketRoundTrip
