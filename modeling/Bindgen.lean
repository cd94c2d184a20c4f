import Bindgen.Main
import Bindgen.Json.Writer
import Bindgen.Native.Location
import Bindgen.Native.Members
import Bindgen.Proofs.Outcome
import Bindgen.Proofs.Lists
import Bindgen.Proofs.Derive
import Bindgen.Proofs.Text.Utf8
import Bindgen.Proofs.Resolve.Table
import Bindgen.Proofs.Resolve.Reach
import Bindgen.Proofs.Resolve.Walk
import Bindgen.Proofs.Resolve.Check
import Bindgen.Proofs.Resolve.Defined
import Bindgen.Proofs.Resolve.Memory
import Bindgen.Proofs.Wire.Stream
import Bindgen.Proofs.Wire.Real
import Bindgen.Proofs.Wire.Ordinary
import Bindgen.Proofs.Wire.Normal
import Bindgen.Proofs.Wire.Rebuilt
import Bindgen.Proofs.Wire.Trip
import Bindgen.Proofs.Wire.Definitions
import Bindgen.Proofs.Wire.RoundTrip
import Bindgen.Proofs.Wire.Took
import Bindgen.Proofs.Wire.Depth
import Bindgen.Proofs.Wire.Safety
import Bindgen.Proofs.Emit.CallPlan
import Bindgen.Proofs.Emit.Scoping
import Bindgen.Proofs.Emit.Places
import Bindgen.Proofs.Native.Trace
import Bindgen.Proofs.Native.Checks
import Bindgen.Proofs.Native.Lowering
import Bindgen.Proofs.Native.Copies
import Bindgen.Proofs.Native.Call
import Bindgen.Proofs.Native.Passing
import Bindgen.Proofs.Native.Run
import Bindgen.Proofs.Native.Module
import Bindgen.Proofs.Native.PlainNames
import Bindgen.Proofs.Native.Places
import Bindgen.Proofs.Native.Hindrance
import Bindgen.Proofs.Native.Ownership
import Bindgen.Proofs.Generation.Signatures
import Bindgen.Proofs.Generation.Check
import Bindgen.Proofs.Generation.Render
import Bindgen.Proofs.Generation.Backends
import Bindgen.Proofs.Generation.Acceptance
import Bindgen.Proofs.Generation.Calls
import Bindgen.Proofs.Resolve.Memory
import Bindgen.Proofs.Native.Failures
import Bindgen.Proofs.Native.Holdings
import Bindgen.Proofs.Native.Lifetime
import Bindgen.Proofs.Native.Consumed
import Bindgen.Proofs.Generation.Groups
import Bindgen.Proofs.Wire.Truncation
import Bindgen.Proofs.Wire.Unique
import Bindgen.Proofs.Interface.Grammar
import Bindgen.Proofs.Emit.Mentions
import Bindgen.Proofs.Interface.Canonical
import Bindgen.Proofs.Resolve.Traversal
import Bindgen.Proofs.Emit.Assignments
import Bindgen.Proofs.Emit.Declarations
import Bindgen.Proofs.Generation.Converters
import Bindgen.Proofs.Files.Tree
import Bindgen.Proofs.Generation.Independence
import Bindgen.Proofs.Generation.Writing
import Bindgen.Proofs.CommandLine.Run
import Bindgen.Proofs.Native.AllOrNone
import Bindgen.Proofs.Native.Lending
import Bindgen.Proofs.Emit.Sharing
import Bindgen.Proofs.Emit.Blocks
import Bindgen.Proofs.Generation.KotlinCalls
import Bindgen.Proofs.Emit.Readings
import Bindgen.Proofs.Native.Capture
import Bindgen.Proofs.Boundary.Layout
import Bindgen.Proofs.Interface.Reading
import Bindgen.Proofs.Config.Settings
import Bindgen.Proofs.Generation.Configured
import Bindgen.Proofs.Identifier.Case
import Bindgen.Proofs.Identifier.Renaming
import Bindgen.Proofs.Generation.Identifiers
import Bindgen.Proofs.Identifier.Keywords
import Bindgen.Proofs.Generation.Keywords
import Bindgen.Proofs.Wire.Closed
import Bindgen.Proofs.Native.Lifecycle
import Bindgen.Proofs.Resolve.Agreement
import Bindgen.Proofs.Emit.Typing
import Bindgen.Proofs.Native.Fits
import Bindgen.Proofs.Generation.Agreement
import Bindgen.Wire.InPlace
import Bindgen.Proofs.Wire.InPlace
