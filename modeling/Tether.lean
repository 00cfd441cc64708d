import Tether.Semantics.Run
import Tether.Text.Bytes
import Tether.Text.Scan
import Tether.Js.Stringify
import Tether.Js.Search
import Tether.Backend.Room
import Tether.Backend.Step
import Tether.Backend.Relay
import Tether.Backend.Authority
import Tether.Backend.Revocation
import Tether.Semantics.SlidingWindow
import Tether.Backend.Lockout
import Tether.Plugin.Admission
import Tether.Plugin.Sender
import Tether.Plugin.MediaGate
import Tether.Plugin.LifeCycle
import Tether.EndToEnd.Delivery
import Tether.EndToEnd.Consent
import Tether.EndToEnd.Attribution
import Tether.EndToEnd.SdpRoundTrip
import Tether.Plugin.Capacity
import Tether.Plugin.PeerSessions
import Tether.Plugin.ReceiveStates
import Tether.Js.Regex
import Tether.Token.Format
import Tether.Plugin.Token
import Tether.Backend.Edge
import Tether.EndToEnd.TokenGrammar
import Tether.Semantics.Ledger
import Tether.Plugin.ReceiveRegistry
import Tether.Plugin.SessionLifetime
import Tether.Plugin.TokenSessions
import Tether.Plugin.Unsubscribe
import Tether.Backend.WaitingRoom
import Tether.Backend.Hosting
import Tether.Semantics.Handshake
import Tether.EndToEnd.Agreement
import Tether.Plugin.RateLimit
import Tether.Plugin.Pins
import Tether.Plugin.Fingerprints
import Tether.Js.Escape
import Tether.Js.Integer
import Tether.Js.Weight
import Tether.EndToEnd.Frames
import Tether.EndToEnd.KnockData
import Tether.Backend.Sockets
import Tether.Backend.Expiry
import Tether.Backend.Reload
import Tether.Semantics.Cells
import Tether.Semantics.Conveyor
import Tether.Plugin.AudioTrack
import Tether.Plugin.AudioStream
import Tether.Plugin.Mailbox
import Tether.Plugin.SourceEncoder
import Tether.Plugin.BadOffers
import Tether.Plugin.Source
import Tether.Plugin.PeerRows
import Tether.Backend.Eviction
import Tether.Plugin.PeerIds
import Tether.Plugin.Control
import Tether.Semantics.WriteThrough
import Tether.Semantics.Loop
import Tether.Text.Memory
import Tether.Text.Decimal
import Tether.Plugin.KnownTokens
import Tether.Plugin.Scanners
import Tether.Plugin.Tracks
import Tether.EndToEnd.Candidates
import Tether.EndToEnd.Rendezvous
import Tether.Semantics.Family
import Tether.Backend.Worker
import Tether.Js.Query
import Tether.EndToEnd.Addressing
import Tether.Semantics.Outputs
import Tether.Plugin.Incoming
import Tether.EndToEnd.Routing
import Tether.Plugin.WholeCalls
import Tether.Plugin.Clients
import Tether.Semantics.Custody
import Tether.Plugin.Connections
import Tether.Semantics.Channels
import Tether.Plugin.AudioOutput
import Tether.EndToEnd.Playback
import Tether.Semantics.Locks
import Tether.Plugin.Locking
import Tether.Semantics.Codecs
import Tether.Plugin.VideoOutput
import Tether.Plugin.VideoEncoder
import Tether.EndToEnd.Pictures
import Tether.EndToEnd.Admittance
import Tether.Semantics.Deferred
import Tether.Plugin.SenderDialog
