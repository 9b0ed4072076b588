import LightApr.Lib.Framing
import LightApr.Lib.Machine
import LightApr.Lib.Writers
import LightApr.Lib.Transducer
import LightApr.Lib.Utf8
import LightApr.Lib.Outbox
import LightApr.Lib.Window
import LightApr.Lib.Access
import LightApr.Lib.RecordLock
import LightApr.Lib.Fifo
import LightApr.Lib.Sha1
import LightApr.Lib.BaseEncoding
import LightApr.Core.Bytes
import LightApr.Core.Json
import LightApr.Core.StreamAccumulator
import LightApr.Core.StreamQueue
import LightApr.Core.Node
import LightApr.Core.Table
import LightApr.Core.ConnectionGuardRuns
import LightApr.Core.GuardEntries
import LightApr.Core.Logger
import LightApr.Core.LogFile
import LightApr.Core.CliOptions
import LightApr.Core.CliPrecedence
import LightApr.Core.IdleTimer
import LightApr.Core.Registry
import LightApr.Core.RegistryDeadline
import LightApr.Core.RegistryEffect
import LightApr.Core.RegistryExtra
import LightApr.Core.RegistryIntegrity
import LightApr.Core.RegistryRuns
import LightApr.Core.RegistryGauges
import LightApr.Core.RegistryStats
import LightApr.Core.RegistryIds
import LightApr.Core.RegistryPages
import LightApr.Core.RoundRobin
import LightApr.Core.RegistrySweeps
import LightApr.Core.RegistryThreads
import LightApr.Mqtt.Packet
import LightApr.Mqtt.PacketBounds
import LightApr.Mqtt.PacketSuffix
import LightApr.Mqtt.WebsocketCodec
import LightApr.Mqtt.Sha1
import LightApr.Mqtt.Base64
import LightApr.Mqtt.WebsocketRoundTrip
import LightApr.Mqtt.WebsocketBounds
import LightApr.Mqtt.FrameStream
import LightApr.Mqtt.UpgradeRequest
import LightApr.Mqtt.HandshakeSpelling
import LightApr.Mqtt.Topic
import LightApr.Http.Route
import LightApr.Http.RouteTotality
import LightApr.Http.Session
import LightApr.Http.SessionEffect
import LightApr.Http.Serving
import LightApr.Http.Boundary
import LightApr.Http.HeaderAgreement
import LightApr.Server.World
import LightApr.Server.FrameRound
import LightApr.Server.Step
import LightApr.Server.AccessGate
import LightApr.Server.Integrity
import LightApr.Server.NodeOwnership
import LightApr.Server.Wire
import LightApr.Server.Admission
import LightApr.Server.Receiving
import LightApr.Server.PlainFraming
import LightApr.Server.WebsocketStream
import LightApr.Server.Upgrade
import LightApr.Server.Broadcast
import LightApr.Server.Trail
import LightApr.Server.Provenance
import LightApr.Server.Isolation
import LightApr.Server.Reconnection
import LightApr.Server.Relays
import LightApr.Server.Replies
import LightApr.Server.TopologyEvents
import LightApr.Server.FrameLoop
import LightApr.Server.Refusal
import LightApr.Server.SingleRefusal
import LightApr.Server.FrameDivision
import LightApr.Server.Course
import LightApr.Server.AfterClose
import LightApr.Server.Shutdown
import LightApr.Server.MetadataPublish
import LightApr.Server.RoleRoundTrip
import LightApr.Server.Ports
import LightApr.Sdk.Stream
import LightApr.Sdk.WebsocketClient
import LightApr.Sdk.Replica
import LightApr.Sdk.CSharp
import LightApr.Sdk.Bootstrap
import LightApr.Sdk.NodeReading
import LightApr.Sdk.PlainClient
import LightApr.Sdk.AppEvents
import LightApr.Sdk.Connect
import LightApr.Sdk.Pages
import LightApr.Sdk.PageFeed
import LightApr.Sdk.Responses
import LightApr.Sdk.Resolve
import LightApr.Sdk.LocalResolve
import LightApr.Sdk.Reconnect
import LightApr.Platform.Daemon
import LightApr.Platform.DaemonLog
import LightApr.Platform.Startup
import LightApr.Platform.StartupPrecedence
