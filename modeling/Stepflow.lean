import Stepflow.Checkpoint.Store
import Stepflow.Config
import Stepflow.Diagram.Flowchart
import Stepflow.Diagram.Outline
import Stepflow.Discovery
import Stepflow.Main
import Stepflow.Proofs.Arrangement
import Stepflow.Proofs.Availability
import Stepflow.Proofs.Cancellation
import Stepflow.Proofs.Checkpoints
import Stepflow.Proofs.CommandLine.Inputs
import Stepflow.Proofs.Compensation
import Stepflow.Proofs.Confinement
import Stepflow.Proofs.Conflicts
import Stepflow.Proofs.Continuation
import Stepflow.Proofs.Decimal.Layout
import Stepflow.Proofs.Decorations
import Stepflow.Proofs.Delays
import Stepflow.Proofs.Document.Records
import Stepflow.Proofs.Drawing
import Stepflow.Proofs.Duplicates
import Stepflow.Proofs.Endings
import Stepflow.Proofs.Events
import Stepflow.Proofs.Expression.Grammar
import Stepflow.Proofs.Expression.Naming
import Stepflow.Proofs.Expression.Pieces
import Stepflow.Proofs.Expression.Slicing
import Stepflow.Proofs.Extraction
import Stepflow.Proofs.Fingerprint
import Stepflow.Proofs.Groups
import Stepflow.Proofs.Inputs
import Stepflow.Proofs.Interchange
import Stepflow.Proofs.Json.Compact
import Stepflow.Proofs.Lookup
import Stepflow.Proofs.Mentions
import Stepflow.Proofs.Notation
import Stepflow.Proofs.Outcomes
import Stepflow.Proofs.Precedence
import Stepflow.Proofs.Recall
import Stepflow.Proofs.References
import Stepflow.Proofs.Refusal
import Stepflow.Proofs.Registration
import Stepflow.Proofs.Replay
import Stepflow.Proofs.Reporting
import Stepflow.Proofs.Retrying
import Stepflow.Proofs.RoundTrip
import Stepflow.Proofs.Run.Names
import Stepflow.Proofs.Substitution
import Stepflow.Proofs.Termination
import Stepflow.Proofs.UnknownFields
import Stepflow.Proofs.Validating
import Stepflow.Proofs.Validation.Loading
import Stepflow.Proofs.Workflow.Records
import Stepflow.Proofs.Workflow.Visiting
import Stepflow.Registry.Listing
import Stepflow.Rehearsal.Behaviour
import Stepflow.Step.Builder
import Stepflow.Workflow.File
import Stepflow.Workflow.Inputs
import Stepflow.Workflow.Metadata
import Stepflow.Workflow.Same
