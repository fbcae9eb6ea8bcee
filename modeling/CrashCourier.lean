import CrashCourier.Bytes
import CrashCourier.Text.Blank
import CrashCourier.Text.Utf8
import CrashCourier.Text.Shown
import CrashCourier.Text.Quoted
import CrashCourier.Double
import CrashCourier.Double.Pattern
import CrashCourier.Decimal.Scaled
import CrashCourier.Decimal.Shortest
import CrashCourier.Decimal.Layout
import CrashCourier.Value
import CrashCourier.Json.Mark
import CrashCourier.Json.Reader
import CrashCourier.Json.Writer
import CrashCourier.Uuid
import CrashCourier.Envelope
import CrashCourier.FileTree
import CrashCourier.Failure
import CrashCourier.Listing
import CrashCourier.KeyTable
import CrashCourier.Scope
import CrashCourier.Buffer
import CrashCourier.World
import CrashCourier.Outbox
import CrashCourier.Transport
import CrashCourier.Options
import CrashCourier.Engine
import CrashCourier.Image.Mapping
import CrashCourier.Image.BuildId
import CrashCourier.Image.Catalog
import CrashCourier.Image.Field
import CrashCourier.Image.Loading
import CrashCourier.Managed.Host
import CrashCourier.Managed.Text
import CrashCourier.Managed.OptionsObject
import CrashCourier.Managed.Heap
import CrashCourier.CallError
import CrashCourier.LastErrors
import CrashCourier.Startup
import CrashCourier.ScopeCall
import CrashCourier.Reporter
import CrashCourier.Command.Arguments
import CrashCourier.Command.Run
import CrashCourier.Moment
import CrashCourier.Main
import CrashCourier.Proofs.Text.Ascii
import CrashCourier.Proofs.Json.Numerals
import CrashCourier.Proofs.Json.Texts
import CrashCourier.Proofs.Json.ReadBack
import CrashCourier.Proofs.Json.ControlFree
import CrashCourier.Proofs.Json.Turns
import CrashCourier.Proofs.Json.ReadShape
import CrashCourier.Proofs.Json.Extension
import CrashCourier.Proofs.DoubleExact
import CrashCourier.Proofs.Envelope.Items
import CrashCourier.Proofs.Envelope.Framing
import CrashCourier.Proofs.Envelope.Reencoding
import CrashCourier.Proofs.Envelope.Segments
import CrashCourier.Proofs.Envelope.TornWrites
import CrashCourier.Proofs.Delivery.WorkerThread
import CrashCourier.Proofs.Delivery.Runtime
import CrashCourier.Proofs.Delivery.Ownership
import CrashCourier.Proofs.Delivery.InOrder
import CrashCourier.Proofs.Sessions
import CrashCourier.Proofs.StartFrom
import CrashCourier.Proofs.Files
import CrashCourier.Proofs.Directories
import CrashCourier.Proofs.Text.Identifiers
import CrashCourier.Proofs.Handoff.Outbox
import CrashCourier.Proofs.Startup
import CrashCourier.Proofs.Decimal.Whole
import CrashCourier.Proofs.Json.WholeDoubles
import CrashCourier.Proofs.Handoff.Events
import CrashCourier.Proofs.Handoff.Session
import CrashCourier.Proofs.Handoff.EndToEnd
import CrashCourier.Proofs.Delivery.WholeCalls
import CrashCourier.Proofs.Json.Depth
import CrashCourier.Proofs.Managed.References
import CrashCourier.Proofs.Managed.BridgeCalls
import CrashCourier.Proofs.TransportStates
import CrashCourier.Proofs.History
import CrashCourier.Proofs.Enrichment
import CrashCourier.Proofs.Delivery.TakingTurns
import CrashCourier.Proofs.Managed.Texts
import CrashCourier.Proofs.ScopeCalls
import CrashCourier.Proofs.StartOutcome
import CrashCourier.Proofs.Lifetime
import CrashCourier.Proofs.Merging
import CrashCourier.Proofs.Managed.ImageArrays
import CrashCourier.Proofs.Image.MappedLines
import CrashCourier.Proofs.Image.Ranges
import CrashCourier.Proofs.Image.Extents
import CrashCourier.Proofs.Image.Coherence
import CrashCourier.Proofs.Capturing
import CrashCourier.Proofs.Envelope.Lines
import CrashCourier.Proofs.Json.Spacings
import CrashCourier.Proofs.Listing
import CrashCourier.Proofs.Image.BuildIds
import CrashCourier.Proofs.OrderedObjects
import CrashCourier.Proofs.Provenance
import CrashCourier.Proofs.DoubleOrder
import CrashCourier.Proofs.Decimal.OutOfRange
import CrashCourier.Proofs.Json.Integers
import CrashCourier.Proofs.DoubleError
import CrashCourier.Proofs.Decimal.Nearness
