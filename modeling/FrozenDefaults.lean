import FrozenDefaults.Bound
import FrozenDefaults.Main
import FrozenDefaults.Session
import FrozenDefaults.Proofs.Allocation
import FrozenDefaults.Proofs.Store
import FrozenDefaults.Proofs.Soundness
import FrozenDefaults.Proofs.Codec
import FrozenDefaults.Proofs.Fits
import FrozenDefaults.Proofs.Resolution
import FrozenDefaults.Proofs.Leaving
import FrozenDefaults.Proofs.ReadBack
import FrozenDefaults.Proofs.Linking
import FrozenDefaults.Proofs.Building
import FrozenDefaults.Proofs.Filling
import FrozenDefaults.Proofs.Copying
import FrozenDefaults.Proofs.Evolving
import FrozenDefaults.Proofs.Zeroed
import FrozenDefaults.Proofs.Reachable
import FrozenDefaults.Proofs.Preservation
import FrozenDefaults.Proofs.Canonical
import FrozenDefaults.Proofs.Keeping
import FrozenDefaults.Proofs.Kinds
import FrozenDefaults.Proofs.Transcription
import FrozenDefaults.Proofs.Agreeing
import FrozenDefaults.Proofs.Manifests
import FrozenDefaults.Proofs.Commands
import FrozenDefaults.Proofs.Lexing
import FrozenDefaults.Proofs.Reading
import FrozenDefaults.Proofs.Bindings
import FrozenDefaults.Proofs.Meaning
import FrozenDefaults.Proofs.Outcome
import FrozenDefaults.Proofs.Depth
import FrozenDefaults.Proofs.Requirement
import FrozenDefaults.Proofs.SameSteps
import FrozenDefaults.Proofs.Dependence
import FrozenDefaults.Proofs.FarPointers
import FrozenDefaults.Proofs.Accounting
import FrozenDefaults.Proofs.Images
import FrozenDefaults.Proofs.Assembling
import FrozenDefaults.Proofs.Persistence
import FrozenDefaults.Proofs.History
import FrozenDefaults.Proofs.Omission
import FrozenDefaults.Proofs.Ownership
import FrozenDefaults.Proofs.Sparing
import FrozenDefaults.Proofs.Limits
import FrozenDefaults.Proofs.Chains
import FrozenDefaults.Proofs.Identifiers
import FrozenDefaults.Proofs.Registration
import FrozenDefaults.Proofs.Capacity
import FrozenDefaults.Proofs.Reordering
import FrozenDefaults.Proofs.Fields
import FrozenDefaults.Proofs.Wrapping
import FrozenDefaults.Proofs.Formation
import FrozenDefaults.Proofs.Freezing
import FrozenDefaults.Proofs.Naming
import FrozenDefaults.Proofs.Delivery
import FrozenDefaults.Proofs.Tokens
import FrozenDefaults.Proofs.Trees
import FrozenDefaults.Proofs.Members
import FrozenDefaults.Proofs.Payloads
import FrozenDefaults.Proofs.RoundTrip
import FrozenDefaults.Proofs.Interrupting
import FrozenDefaults.Proofs.NormalForm
import FrozenDefaults.Proofs.Stray
import FrozenDefaults.Proofs.Tags
import FrozenDefaults.Proofs.Walks
import FrozenDefaults.Proofs.Capabilities
import FrozenDefaults.Proofs.Guarded
import FrozenDefaults.Proofs.Guarding
import FrozenDefaults.Proofs.Trapless
import FrozenDefaults.Proofs.TellingApart
import FrozenDefaults.Proofs.FullLines
import FrozenDefaults.Proofs.Octets
import FrozenDefaults.Proofs.Digits
import FrozenDefaults.Proofs.Escapes
import FrozenDefaults.Proofs.Sources
import FrozenDefaults.Proofs.Doubling
import FrozenDefaults.Proofs.Paragraphs
import FrozenDefaults.Proofs.Reach
import FrozenDefaults.Proofs.Surplus
import FrozenDefaults.Proofs.Extents
import FrozenDefaults.Proofs.Overruns
