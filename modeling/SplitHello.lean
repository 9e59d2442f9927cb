import SplitHello.Library.KeyedTable
import SplitHello.Library.History
import SplitHello.Library.ByteString
import SplitHello.Tls.ClientHello
import SplitHello.Strategy.Plan
import SplitHello.Diagnosis
import SplitHello.Strategy.Store
import SplitHello.Json.Helpers
import SplitHello.Json.Written
import SplitHello.Json.Object
import SplitHello.Strategy.File
import SplitHello.Strategy.Steps
import SplitHello.Strategy.Learning
import SplitHello.Strategy.RoundTrip
import SplitHello.Relay.Socket
import SplitHello.Relay.Reframe
import SplitHello.Process.Rules
import SplitHello.Config
import SplitHello.Process.Scope
import SplitHello.Transparent.FlowTable
import SplitHello.Transparent.Interceptor
import SplitHello.Transparent.Isolation
import SplitHello.Dns.Message
import SplitHello.Dns.Question
import SplitHello.Dns.Walk
import SplitHello.Dns.Reply
import SplitHello.Dns.Built
import SplitHello.Recovery
import SplitHello.Dns.Resolver
import SplitHello.Dns.Server
import SplitHello.Dns.Service
import SplitHello.Relay.Connection
import SplitHello.Relay.Rounds
import SplitHello.Relay.Delivered
import SplitHello.Relay.Outage
import SplitHello.Relay.Concurrent
import SplitHello.Strategy.Saving
import SplitHello.Strategy.WriteThrough
import SplitHello.Library.Marks
import SplitHello.Dns.SingleFlight
import SplitHello.Dns.Bootstrap
import SplitHello.Dns.WireCache
import SplitHello.Library.Regular
import SplitHello.Worker.Resolve
import SplitHello.Worker.Families
import SplitHello.Process.Filter
import SplitHello.Tls.Streaming
import SplitHello.Relay.Reassembly
import SplitHello.Tls.Encoding
import SplitHello.Tls.ServerName
import SplitHello.Dns.Caps
import SplitHello.Dns.Validation
import SplitHello.Relay.ProbeOrder
import SplitHello.Relay.Evidence
import SplitHello.Transparent.Registry
import SplitHello.Packet.Policy
import SplitHello.Packet.PolicyRegistry
import SplitHello.Library.InFlight
import SplitHello.Worker.Tunnel
import SplitHello.Worker.Teardown
import SplitHello.Library.Pieces
import SplitHello.Library.InternetChecksum
import SplitHello.Packet.Split
import SplitHello.Packet.Variant
import SplitHello.Packet.Wire
import SplitHello.Packet.FirstTls
import SplitHello.Quic.Registry
import SplitHello.Library.Machine
import SplitHello.Quic.FastPath
import SplitHello.Socks.Proxy
import SplitHello.Socks.Sessions
import SplitHello.Tray.Supervisor
import SplitHello.Tray.Runs
import SplitHello.Telemetry.Queue
import SplitHello.Telemetry.Runs
import SplitHello.Library.Deferred
import SplitHello.LiveStats
import SplitHello.Relay.HostCut
import SplitHello.Json.Torn
import SplitHello.Strategy.Torn
import SplitHello.Strategy.Bounds
import SplitHello.Relay.Reverification
import SplitHello.Relay.Probe
import SplitHello.Packet.Fragments
import SplitHello.Packet.Segments
import SplitHello.Transparent.Capacity
import SplitHello.Packet.Capacity
import SplitHello.Packet.Binding
import SplitHello.Packet.Decoy
import SplitHello.Library.SlidingWindow
import SplitHello.Recovery.Budget
import SplitHello.Library.Streak
import SplitHello.Recovery.Health
import SplitHello.Quic.Blocks
import SplitHello.Library.Conduit
import SplitHello.Relay.Pump
import SplitHello.Dns.Grammar
import SplitHello.Dns.Echo
import SplitHello.Dns.Ageing
import SplitHello.Dns.Answered
import SplitHello.Dns.Lifetimes
import SplitHello.Library.Glob
import SplitHello.Process.Wildcard
import SplitHello.Dns.Walker
import SplitHello.Library.ArgumentVector
import SplitHello.CommandLine
import SplitHello.Packet.Resume
import SplitHello.Library.Dialogue
import SplitHello.Socks.Handshake
import SplitHello.Socks.Targets
import SplitHello.Library.AddressText
import SplitHello.Worker.PublicAddress
import SplitHello.Json.Flat
import SplitHello.Library.Handles
import SplitHello.Relay.ConnectRace
import SplitHello.Relay.ConnectOutcome
import SplitHello.Transparent.Liveness
import SplitHello.Transparent.Endpoints
import SplitHello.Packet.Datagrams
import SplitHello.Packet.Loop
import SplitHello.Library.FixedWindow
import SplitHello.Worker.FrontDoor
import SplitHello.Worker.Guarded
import SplitHello.Library.Volume
import SplitHello.FileUtil
import SplitHello.Strategy.Durable
import SplitHello.SystemProxy
import SplitHello.Library.Slots
import SplitHello.Dns.Proxy
import SplitHello.Library.JsonText
import SplitHello.Worker.Command
import SplitHello.Worker.OneTarget
import SplitHello.Worker.Link
import SplitHello.Relay.Ownership
import SplitHello.Arguments
import SplitHello.Library.Inquiry
import SplitHello.Lifecycle.Engine
import SplitHello.Lifecycle.Standing
import SplitHello.Lifecycle.FailOpen
import SplitHello.Lifecycle.Watch
