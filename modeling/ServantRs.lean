import ServantRs.Calls.Answer
import ServantRs.Calls.Binding
import ServantRs.Calls.Query
import ServantRs.Calls.Raw
import ServantRs.Calls.Read
import ServantRs.Calls.Request
import ServantRs.Calls.RoundTrip
import ServantRs.Calls.Sent
import ServantRs.Calls.Serve
import ServantRs.Calls.Stream
import ServantRs.Calls.Wire
import ServantRs.Client.Build
import ServantRs.Client.Request
import ServantRs.Client.Response
import ServantRs.Client.Streaming
import ServantRs.Client.Transport
import ServantRs.Core.Api
import ServantRs.Core.Content
import ServantRs.Core.Error
import ServantRs.Core.Framing
import ServantRs.Core.Host
import ServantRs.Core.HttpData
import ServantRs.Core.Link
import ServantRs.Core.Modifiers
import ServantRs.Core.Packages
import ServantRs.Core.Query
import ServantRs.Core.ServerEvent
import ServantRs.Core.Stream
import ServantRs.Core.Union
import ServantRs.Docs.Agreement
import ServantRs.Docs.Json
import ServantRs.Docs.Merge
import ServantRs.Docs.Model
import ServantRs.Docs.Provenance
import ServantRs.Docs.Reading
import ServantRs.Docs.Schema
import ServantRs.Docs.Served
import ServantRs.Docs.Walk
import ServantRs.Listening.Connections
import ServantRs.Listening.Room
import ServantRs.Listening.Steps
import ServantRs.Listening.Time
import ServantRs.Macros.NamedApi
import ServantRs.Messages.Accept
import ServantRs.Messages.Codecs
import ServantRs.Messages.Headers
import ServantRs.Messages.MediaText
import ServantRs.Messages.Negotiation
import ServantRs.Messages.Scalars
import ServantRs.Messages.Selection
import ServantRs.Messages.UnionStatus
import ServantRs.Messages.UnionTrip
import ServantRs.OpenApi.Document
import ServantRs.OpenApi.Grouping
import ServantRs.OpenApi.Operation
import ServantRs.OpenApi.Parameters
import ServantRs.OpenApi.References
import ServantRs.OpenApi.Schemas
import ServantRs.OpenApi.Served
import ServantRs.Phases.Auth
import ServantRs.Phases.Blind
import ServantRs.Phases.Body
import ServantRs.Phases.Captures
import ServantRs.Phases.ContentType
import ServantRs.Phases.Demands
import ServantRs.Phases.NotFound
import ServantRs.Phases.Order
import ServantRs.Phases.Reads
import ServantRs.Phases.Silent
import ServantRs.Phases.Unreadable
import ServantRs.Phases.Walk
import ServantRs.Routing.Choice
import ServantRs.Routing.Flat
import ServantRs.Routing.Guard
import ServantRs.Routing.Handlers
import ServantRs.Routing.Head
import ServantRs.Routing.Local
import ServantRs.Routing.Mirror
import ServantRs.Routing.OneShot
import ServantRs.Routing.Pattern
import ServantRs.Server.Adapter
import ServantRs.Server.Connection
import ServantRs.Server.Context
import ServantRs.Server.Extract
import ServantRs.Server.Handler
import ServantRs.Server.Leaf
import ServantRs.Server.Listener
import ServantRs.Server.Request
import ServantRs.Server.Result
import ServantRs.Server.Router
import ServantRs.Server.Serve
import ServantRs.Server.Sse
import ServantRs.Streams.Blocks
import ServantRs.Streams.Buffered
import ServantRs.Streams.Client
import ServantRs.Streams.Encode
import ServantRs.Streams.Events
import ServantRs.Streams.Failure
import ServantRs.Streams.FrameLimit
import ServantRs.Streams.Frames
import ServantRs.Streams.Framings
import ServantRs.Streams.Injection
import ServantRs.Streams.KeepAlive
import ServantRs.Streams.Lengths
import ServantRs.Streams.Netstring
import ServantRs.Streams.Overflow
import ServantRs.Streams.Pieces
import ServantRs.Streams.Server
import ServantRs.Streams.Settings
import ServantRs.Streams.Stable
import ServantRs.Streams.TooLarge
import ServantRs.Streams.Unbroken
import ServantRs.Support.Binary32
import ServantRs.Support.Bytes
import ServantRs.Support.Incremental
import ServantRs.Support.KeyedList
import ServantRs.Support.LeftMax
import ServantRs.Support.Machine
import ServantRs.Support.Percent
import ServantRs.Support.Runs
import ServantRs.Support.SortedMap
import ServantRs.Support.Text
import ServantRs.Url.Agreement
import ServantRs.Url.DeepQuery
import ServantRs.Url.EmptyPieces
import ServantRs.Url.Items
import ServantRs.Url.Pairs
import ServantRs.Url.Path
import ServantRs.Url.Query
