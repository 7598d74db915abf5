import OncRpc.Foundation.BigEndian
import OncRpc.Foundation.Parser
import OncRpc.Foundation.Stream
import OncRpc.Foundation.ReadProgram
import OncRpc.Wire.Message
import OncRpc.Wire.Codec
import OncRpc.Wire.Format
import OncRpc.Wire.RoundTrip
import OncRpc.Runtime.Error
import OncRpc.Runtime.Admission
import OncRpc.Record.Marker
import OncRpc.Record.Reader
import OncRpc.Record.Outcome
import OncRpc.Record.Reassembly
import OncRpc.Record.Agreement
import OncRpc.Record.Write
import OncRpc.Record.Fragment
import OncRpc.Owned.Request
import OncRpc.Owned.Envelope
import OncRpc.Owned.Receive
import OncRpc.Owned.Buffers
import OncRpc.Owned.SegmentedReceive
import OncRpc.Owned.ReceiveAgreement
import OncRpc.Foundation.Transition
import OncRpc.Owned.Control
import OncRpc.Owned.Call
import OncRpc.Owned.Connection
import OncRpc.Owned.CallMoves
import OncRpc.Owned.ConnectionMoves
import OncRpc.Owned.Registry
import OncRpc.Owned.Closed
import OncRpc.Owned.FrameIntegrity
import OncRpc.Owned.Ownership
import OncRpc.Owned.Lease
import OncRpc.Owned.Outcome
import OncRpc.Owned.Stages
import OncRpc.Owned.Sync
import OncRpc.Owned.Correlation
import OncRpc.Server.Dispatch
import OncRpc.Server.Connection
import OncRpc.Server.Replies
import OncRpc.Tls.Probe
import OncRpc.Tls.StartTls
import OncRpc.Foundation.Cursor
import OncRpc.Xdr.Codec
import OncRpc.Gen.Ast
import OncRpc.Gen.Rust
import OncRpc.Gen.Meaning
import OncRpc.Gen.Emit
import OncRpc.Gen.Names
import OncRpc.Gen.Layout
import OncRpc.Gen.Output
import OncRpc.Gen.Rfc
import OncRpc.Gen.Typing
import OncRpc.Gen.Correspondence
import OncRpc.Gen.Fields
import OncRpc.Gen.Labels
import OncRpc.Gen.Correct
import OncRpc.Gen.Parser
import OncRpc.Gen.Grammar
import OncRpc.Gen.Text
import OncRpc.Gen.Accepts
import OncRpc.Gen.Complete
import OncRpc.Gen.Lossless
import OncRpc.Gen.Render
import OncRpc.Gen.Total
import OncRpc.Foundation.DepthFirst
import OncRpc.Gen.Modules
import OncRpc.Record.RoundTrip
import OncRpc.Server.Chunking
import OncRpc.Runtime.Xid
import OncRpc.Gen.ModuleNames
import OncRpc.Gen.Comments
import OncRpc.Foundation.LastEntry
import OncRpc.Foundation.Paired
import OncRpc.Foundation.Logged
import OncRpc.Gen.ModuleSet
import OncRpc.Gen.Capture
import OncRpc.Gen.Resolution
import OncRpc.Foundation.Notify
import OncRpc.Owned.Waits
import OncRpc.Record.WriteRun
import OncRpc.Record.CancelSafety
import OncRpc.Udp.Transport
import OncRpc.Udp.Registry
import OncRpc.Server.Exchange
import OncRpc.Udp.Server
import OncRpc.Udp.Exchange
import OncRpc.Owned.TypedReceive
import OncRpc.Owned.DirectReceive
import OncRpc.Owned.DirectOutcome
import OncRpc.Owned.RecordStage
import OncRpc.Owned.Capacity
import OncRpc.Owned.WriterRelease
import OncRpc.Owned.Unsent
import OncRpc.Owned.Refusal
import OncRpc.Gen.Stubs
import OncRpc.Gen.Routing
import OncRpc.Gen.Incremental
import OncRpc.Gen.Metadata
import OncRpc.Gen.Shapes
import OncRpc.Gen.Bound
import OncRpc.Gen.Words
import OncRpc.Gen.PrefixBound
import OncRpc.Udp.ReaderExit
import OncRpc.Runtime.OnlyReplies
import OncRpc.Foundation.Future
import OncRpc.Server.Versions
import OncRpc.Server.RpcVersion
import OncRpc.Tls.Disabled
import OncRpc.Bind.Rpcbind
import OncRpc.Bind.Publish
import OncRpc.Xdr.RoundTrip
import OncRpc.Gen.Parts
import OncRpc.Gen.Encoders
import OncRpc.Gen.References
import OncRpc.Gen.EmittedEncoders
import OncRpc.Gen.MethodNames
import OncRpc.Gen.Identifiers
import OncRpc.Gen.Programs
import OncRpc.Gen.Binders
import OncRpc.Gen.EmittedBinders
import OncRpc.Auth.AuthSys
import OncRpc.Foundation.Unvisited
import OncRpc.Gen.EqDerive
import OncRpc.Gen.LayoutSearch
import OncRpc.Gen.LayoutPaths
import OncRpc.Gen.LengthWords
import OncRpc.Gen.Reservations
import OncRpc.Gen.Productions
import OncRpc.Bind.IpText
import OncRpc.Bind.UniversalAddr
import OncRpc.Owned.Exchange
import OncRpc.Xdr.Segments
import OncRpc.Owned.TypedRequest
