import RecordSchema.Main
import RecordSchema.Proofs.Schema.Rebuilding
import RecordSchema.Proofs.Schema.Paths
import RecordSchema.Proofs.Schema.CanonicalText
import RecordSchema.Proofs.Merge.Associativity
import RecordSchema.Proofs.Merge.Commutativity
import RecordSchema.Proofs.Merge.Idempotence
import RecordSchema.Proofs.Merge.Metadata
import RecordSchema.Proofs.Merge.MergeAll
import RecordSchema.Proofs.Merge.Conflicts
import RecordSchema.Proofs.Merge.Lowercase
import RecordSchema.Proofs.Edit.Preservation
import RecordSchema.Proofs.Edit.Inverse
import RecordSchema.Proofs.Edit.ProjectionAlgebra
import RecordSchema.Proofs.Edit.Collisions
import RecordSchema.Proofs.Catalog.Dependence
import RecordSchema.Proofs.Catalog.Inlining
import RecordSchema.Proofs.Catalog.Examination
import RecordSchema.Proofs.Catalog.StackedResolution
import RecordSchema.Proofs.Catalog.StackedSearch
import RecordSchema.Proofs.Catalog.Failures
import RecordSchema.Proofs.Catalog.CyclicFailures
import RecordSchema.Proofs.Catalog.Reachability
import RecordSchema.Proofs.Catalog.Relaxing
import RecordSchema.Proofs.Document.JsonRoundTrip
import RecordSchema.Proofs.CommandLine.Validate
import RecordSchema.Proofs.CommandLine.Merge
import RecordSchema.Proofs.Hash.Fingerprint
