import MessageWire.Instance.Edit
import MessageWire.Limits.Document
import MessageWire.Typed.Sample
import MessageWire.Typed.Tree
import MessageWire.Value.Copy
import MessageWire.Value.Default
import MessageWire.Value.Inspect
import MessageWire.Value.Path
import MessageWire.Proofs.Wire.Cell
import MessageWire.Proofs.Wire.Write
import MessageWire.Proofs.Value.Node
import MessageWire.Proofs.Instance.Encode
import MessageWire.Proofs.Instance.Offence
import MessageWire.Proofs.Wire.Read
import MessageWire.Proofs.Instance.Decode
import MessageWire.Proofs.Instance.RoundTrip
import MessageWire.Proofs.Wire.Closed
import MessageWire.Proofs.Instance.Closed
import MessageWire.Proofs.Wire.Delimited
import MessageWire.Proofs.Instance.Delimited
import MessageWire.Proofs.Wire.Delivery
import MessageWire.Proofs.Instance.Delivery
import MessageWire.Proofs.Instance.Edit
import MessageWire.Proofs.Instance.Complete
import MessageWire.Proofs.Wire.Errors
import MessageWire.Proofs.Instance.Errors
import MessageWire.Proofs.Wire.Limits
import MessageWire.Proofs.Instance.Limits
import MessageWire.Proofs.Schema.Graph
import MessageWire.Proofs.Schema.Shape
import MessageWire.Proofs.Schema.Order
import MessageWire.Proofs.Instance.Parts
import MessageWire.Proofs.Schema.ByValue
import MessageWire.Proofs.Schema.Declared
import MessageWire.Proofs.Value.Default
import MessageWire.Proofs.Instance.Default
import MessageWire.Proofs.Instance.Shaped
import MessageWire.Proofs.Instance.Refusal
import MessageWire.Proofs.Instance.Counted
import MessageWire.Proofs.Instance.Alike
import MessageWire.Proofs.Instance.Yields
import MessageWire.Proofs.Instance.Lookup
import MessageWire.Proofs.Typed.Tree
import MessageWire.Proofs.Instance.Agreement
import MessageWire.Proofs.Wire.Sink
import MessageWire.Proofs.Wire.Pieces
import MessageWire.Proofs.Instance.Pieces
import MessageWire.Proofs.Wire.Lockstep
import MessageWire.Proofs.Wire.Yields
import MessageWire.Proofs.Wire.PrefixFree
import MessageWire.Proofs.Wire.Request
import MessageWire.Proofs.Wire.ReadBack
import MessageWire.Proofs.Instance.Sequence
import MessageWire.Proofs.Instance.Layout
import MessageWire.Proofs.Instance.Stopped
import MessageWire.Proofs.Schema.Description
import MessageWire.Proofs.Schema.Seed
import MessageWire.Proofs.Schema.Stream
import MessageWire.Proofs.Schema.Replaced
import MessageWire.Proofs.Instance.Foreign
import MessageWire.Proofs.Schema.Walk
import MessageWire.Proofs.Value.Walk
import MessageWire.Proofs.Wire.Depth
import MessageWire.Proofs.Instance.Depth
import MessageWire.Proofs.Wire.Nesting
