import ScopedSchema.FileStore
import ScopedSchema.Main
import ScopedSchema.Proofs.Tree.KeyPath
import ScopedSchema.Proofs.Synthesis.Outcome
import ScopedSchema.Proofs.Synthesis.Step
import ScopedSchema.Proofs.Synthesis.Coverage
import ScopedSchema.Proofs.Tree.Displacement
import ScopedSchema.Proofs.Synthesis.Retention
import ScopedSchema.Proofs.AllowList
import ScopedSchema.Proofs.Path
import ScopedSchema.Proofs.Synthesis.Request
import ScopedSchema.Proofs.Synthesis.Termination
import ScopedSchema.Proofs.Synthesis.OperationSets
import ScopedSchema.Proofs.Synthesis.Coupling
import ScopedSchema.Proofs.Synthesis.Isolation
import ScopedSchema.Proofs.Synthesis.Fruitless
import ScopedSchema.Proofs.Tree.Growth
import ScopedSchema.Proofs.Tree.Absorption
import ScopedSchema.Proofs.Tree.Rendering
import ScopedSchema.Proofs.Synthesis.Repetition
import ScopedSchema.Proofs.Tree.Alike
import ScopedSchema.Proofs.Tree.Masked
import ScopedSchema.Proofs.Synthesis.Container
import ScopedSchema.Proofs.Synthesis.Position
import ScopedSchema.Proofs.Synthesis.Override
import ScopedSchema.Proofs.Generation.Check
import ScopedSchema.Proofs.Generation.Targets
import ScopedSchema.Proofs.Document.RoundTrip
import ScopedSchema.Proofs.Normalization
import ScopedSchema.Proofs.Generation.Unchanged
import ScopedSchema.Proofs.Generation.Confinement
import ScopedSchema.Proofs.Synthesis.Quantifier
import ScopedSchema.Proofs.Expansion.Coverage
import ScopedSchema.Proofs.Synthesis.Nullability
import ScopedSchema.Proofs.Synthesis.Sections
import ScopedSchema.Proofs.Tree.Compatible
import ScopedSchema.Proofs.Zod.Literal
import ScopedSchema.Proofs.Synthesis.Membership
import ScopedSchema.Proofs.AllowList.Document
import ScopedSchema.Proofs.AllowList.Closure
