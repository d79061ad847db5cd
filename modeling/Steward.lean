import Steward.Component.Rehearsal
import Steward.Main
import Steward.Watch.Account
import Steward.Proofs.Supervision.Chronicle
import Steward.Proofs.Supervision.Ledger
import Steward.Proofs.Supervision.Turn
import Steward.Proofs.Supervision.Pass
import Steward.Proofs.Supervision.Roll
import Steward.Proofs.Supervision.Move
import Steward.Proofs.Supervision.Change
import Steward.Proofs.Supervision.Dismissal
import Steward.Proofs.Supervision.Erasure
import Steward.Proofs.Supervision.Fulfilment
import Steward.Proofs.Supervision.Order
import Steward.Proofs.Supervision.Standing
import Steward.Proofs.Supervision.Idempotence
import Steward.Proofs.Supervision.Reread
import Steward.Proofs.Document.Difference
import Steward.Proofs.Document.Placement
import Steward.Proofs.Loading.Completeness
import Steward.Proofs.Loading.Coverage
import Steward.Proofs.Loading.PropertyFiles
import Steward.Proofs.Loading.Trail
import Steward.Proofs.Typed.Readings
import Steward.Proofs.Value.Sameness
import Steward.Proofs.Supervision.Offence
import Steward.Proofs.Supervision.Refusal
import Steward.Proofs.Supervision.Isolation
import Steward.Proofs.Service.Admission
import Steward.Proofs.Document.Homeward
import Steward.Proofs.Document.Provenance
import Steward.Proofs.Document.Fairness
import Steward.Proofs.Document.AtHome
import Steward.Proofs.Loading.Steadiness
import Steward.Proofs.Value.Distinctness
import Steward.Proofs.Watch.Interleaving
import Steward.Proofs.Service.Serving
import Steward.Proofs.Watch.Notice
import Steward.Proofs.Component.Acts
import Steward.Proofs.Component.Beating
import Steward.Proofs.Supervision.Hosting
import Steward.Proofs.Supervision.Heartbeats
import Steward.Proofs.Supervision.Uninterrupted
import Steward.Proofs.Document.Gathering
import Steward.Proofs.Document.IncludeOrder
import Steward.Proofs.Document.Independence
import Steward.Proofs.Property.Inheritance
import Steward.Proofs.Property.Parts
import Steward.Proofs.Property.Resolution
import Steward.Proofs.Loading.Takings
import Steward.Proofs.Value.Lookup
import Steward.Proofs.Document.Inclusion
import Steward.Proofs.Document.Adoption
import Steward.Proofs.Document.Precedence
import Steward.Proofs.Property.Layering
import Steward.Proofs.Property.Moving
import Steward.Proofs.Document.Flattening
import Steward.Proofs.Property.Rendering
import Steward.Proofs.Watch.Reports
import Steward.Proofs.Supervision.Clearance
import Steward.Proofs.Supervision.Deadline
import Steward.Proofs.Typed.Acceptance
import Steward.Proofs.Typed.Renderings
import Steward.Proofs.Typed.Durations
import Steward.Proofs.Typed.Scaling
import Steward.Proofs.Document.Comparison
import Steward.Proofs.Document.Latching
import Steward.Proofs.Service.Precheck
import Steward.Proofs.Document.Places
import Steward.Proofs.Property.Scanning
import Steward.Proofs.Document.IncludeNumbers
import Steward.Proofs.Component.PidReloads
