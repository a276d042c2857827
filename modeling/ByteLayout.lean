import ByteLayout.Scalar.Float
import ByteLayout.Text.Encoding
import ByteLayout.Provider
import ByteLayout.Write.Pass
import ByteLayout.Journal
import ByteLayout.Stream.Write
import ByteLayout.Stream.Read
import ByteLayout.Options
import ByteLayout.Read.Pass
import ByteLayout.Storage
import ByteLayout.Stream.Operation
import ByteLayout.Formula.Callback
import ByteLayout.Formula.Codec
import ByteLayout.Proofs.Journal
import ByteLayout.Proofs.Script
import ByteLayout.Proofs.Order
import ByteLayout.Proofs.Steps
import ByteLayout.Proofs.Silence
import ByteLayout.Proofs.WriteStream
import ByteLayout.Proofs.ReadStream
import ByteLayout.Proofs.Playing
import ByteLayout.Proofs.Integer
import ByteLayout.Proofs.Float
import ByteLayout.Proofs.Text
import ByteLayout.Proofs.Retracing
import ByteLayout.Proofs.Agreement
import ByteLayout.Proofs.Answering
import ByteLayout.Proofs.Fields
import ByteLayout.Proofs.ReadBack
import ByteLayout.Proofs.Conformance
import ByteLayout.Proofs.RoundTrip
import ByteLayout.Proofs.Recall
import ByteLayout.Proofs.Reading
import ByteLayout.Proofs.Stopping
import ByteLayout.Proofs.ReadBuffer
import ByteLayout.Proofs.Parsing
import ByteLayout.Proofs.Putting
import ByteLayout.Proofs.Scanning
import ByteLayout.Proofs.Rewriting
import ByteLayout.Proofs.WriteFailure
import ByteLayout.Proofs.Truncation
import ByteLayout.Schema.Arena
import ByteLayout.Proofs.Tree
import ByteLayout.Proofs.WellFormed
import ByteLayout.Proofs.Table
import ByteLayout.Proofs.Building
import ByteLayout.Proofs.Splicing
import ByteLayout.Proofs.Nesting
import ByteLayout.Proofs.Unfolding
import ByteLayout.Proofs.Numbers
import ByteLayout.Proofs.Faults
import ByteLayout.Proofs.WriteFaults
import ByteLayout.Proofs.ReadFaults
import ByteLayout.Proofs.StreamFaults
import ByteLayout.Proofs.Unreachable
import ByteLayout.Proofs.Writing
import ByteLayout.Proofs.Offering
import ByteLayout.Proofs.Lifecycle
import ByteLayout.Proofs.FileNodes
import ByteLayout.Proofs.Isolation
import ByteLayout.Proofs.Enclosed
import ByteLayout.Proofs.FileRecords
import ByteLayout.Proofs.Poisoning
import ByteLayout.Proofs.Handing
import ByteLayout.Proofs.ReadHistory
import ByteLayout.Proofs.WriteHistory
import ByteLayout.Proofs.Paying
import ByteLayout.Proofs.ItemCount
import ByteLayout.Proofs.Lockstep
import ByteLayout.Proofs.Discretion
import ByteLayout.Proofs.WriteLife
import ByteLayout.Proofs.Filling
import ByteLayout.Proofs.ReadLife
import ByteLayout.Proofs.Portions
import ByteLayout.Proofs.Residence
import ByteLayout.Proofs.Batches
import ByteLayout.Proofs.Counts
import ByteLayout.Proofs.Survey
import ByteLayout.Proofs.Items
import ByteLayout.Proofs.LastVisit
import ByteLayout.Proofs.Trust
import ByteLayout.Proofs.Progress
import ByteLayout.Proofs.Depth
import ByteLayout.Proofs.Turns
import ByteLayout.Proofs.Apart
import ByteLayout.Proofs.Forms
import ByteLayout.Proofs.Pieces
import ByteLayout.Proofs.Flattening
import ByteLayout.Proofs.Transforming
import ByteLayout.Proofs.Puts
import ByteLayout.Proofs.CustomFields
import ByteLayout.Proofs.Alike
import ByteLayout.Proofs.Gapped
import ByteLayout.Proofs.Defaults
import ByteLayout.Proofs.Utf8
import ByteLayout.Proofs.Utf16
import ByteLayout.Proofs.Payloads
import ByteLayout.Proofs.Worth
import ByteLayout.Proofs.Words
import ByteLayout.Proofs.Rounding
import ByteLayout.Proofs.Patterns
