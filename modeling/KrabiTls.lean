import KrabiTls.Lib.Bytes
import KrabiTls.Lib.Except
import KrabiTls.Lib.Intervals
import KrabiTls.Lib.Loop
import KrabiTls.Lib.Numbered
import KrabiTls.Lib.Vec
import KrabiTls.Lib.Writer
import KrabiTls.Traits
import KrabiTls.Features
import KrabiTls.Hkdf
import KrabiTls.Aead
import KrabiTls.Dtls.Record
import KrabiTls.Dtls.Client
import KrabiTls.ServerHello
import KrabiTls.Cert
import KrabiTls.Identity
import KrabiTls.ServerFlight
import KrabiTls.Reassembler
import KrabiTls.ClientFlight
import KrabiTls.Dtls.Reassembly
import KrabiTls.Dtls.Flight
import KrabiTls.Dtls.Replay
import KrabiTls.Dtls.Recv
import KrabiTls.Dtls.Delivery
import KrabiTls.Dtls.ExactlyOnce
import KrabiTls.Dtls.Integrity
import KrabiTls.ClientHello
import KrabiTls.Connection
import KrabiTls.Messages
import KrabiTls.Engine.Core
import KrabiTls.Engine.Basic
import KrabiTls.Engine.Steps
import KrabiTls.Engine.Nonces
import KrabiTls.Engine.Transcript
import KrabiTls.Engine.SendLimit
import KrabiTls.Engine.Auth
import KrabiTls.Engine.Framing
import KrabiTls.Engine.Arrivals
import KrabiTls.Engine.Sending
import KrabiTls.Engine.Session
import KrabiTls.Engine.Segmentation
import KrabiTls.Engine.FlightScratch
import KrabiTls.Lib.Program
import KrabiTls.Stream
import KrabiTls.Stream.Calls
import KrabiTls.Engine.Closing
import KrabiTls.Engine.Records
import KrabiTls.Stream.Truncation
import KrabiTls.Engine.Terminal
import KrabiTls.Engine.Outgoing
import KrabiTls.Stream.CloseNotify
import KrabiTls.Lib.Channel
import KrabiTls.Link.Peer
import KrabiTls.Link.Basic
import KrabiTls.Link.Receiving
import KrabiTls.Link.KeyUpdate
import KrabiTls.Cert.Spki
import KrabiTls.Cert.TlvCert
import KrabiTls.Cert.DerCert
import KrabiTls.Cert.KeySizes
import KrabiTls.Lib.Ascent
import KrabiTls.Trust.PinnedRoots
import KrabiTls.Trust.PathValidation
import KrabiTls.Trust.TransmittedAnchor
import KrabiTls.Lib.Entries
import KrabiTls.Dtls.Framing
import KrabiTls.Dtls.ServerHello
import KrabiTls.Lib.Layout
import KrabiTls.Dtls.EncryptedExtensions
import KrabiTls.Dtls.Epoch2
import KrabiTls.Dtls.Retransmission
import KrabiTls.Dtls.Ack
import KrabiTls.Dtls.ClientHello
import KrabiTls.Dtls.Keys
import KrabiTls.Dtls.Connect
import KrabiTls.Dtls.Handshake
import KrabiTls.Dtls.Work
import KrabiTls.Dtls.Noise
import KrabiTls.Dtls.RecordLimit
import KrabiTls.Stream.Construction
import KrabiTls.Cert.Fields
import KrabiTls.Lib.Audit
import KrabiTls.Cert.Walk
import KrabiTls.Cert.Agreement
import KrabiTls.Lib.Lockstep
import KrabiTls.Engine.Reuse
import KrabiTls.Lib.Prefixed
import KrabiTls.ServerFlight.Certificate
import KrabiTls.ServerFlight.Reassembly
import KrabiTls.ClientFlight.Records
import KrabiTls.ClientFlight.Building
import KrabiTls.Engine.PostHandshake
import KrabiTls.ClientHello.Grammar
import KrabiTls.ClientHello.Agreement
import KrabiTls.Stream.Delivery
import KrabiTls.Tlv.Canonical
import KrabiTls.EcdsaSig
import KrabiTls.Dtls.ClientHello.Grammar
import KrabiTls.Identity.Address
import KrabiTls.Identity.Binding
import KrabiTls.Trust.Links
import KrabiTls.Trust.PinOrSelfSigned
import KrabiTls.Hkdf.Label
import KrabiTls.Lib.Positions
import KrabiTls.Link.Integrity
import KrabiTls.Lib.Stretches
import KrabiTls.Trust.Validity
import KrabiTls.Trust.SafeStrategy
import KrabiTls.Trust.Sessions
import KrabiTls.ServerFlight.Credentials
import KrabiTls.Link.Server
import KrabiTls.Link.Handshake
import KrabiTls.Link.Completeness
import KrabiTls.Dtls.Capacity
import KrabiTls.Dtls.ServerHello.Grammar
import KrabiTls.Dtls.Server
import KrabiTls.Dtls.Collecting
import KrabiTls.Dtls.Greeting
import KrabiTls.Dtls.Completeness
