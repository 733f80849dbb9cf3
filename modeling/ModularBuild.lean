import ModularBuild.Main
import ModularBuild.Proofs.Archive.Gzip
import ModularBuild.Proofs.Archive.Notation
import ModularBuild.Proofs.Archive.OctalMode
import ModularBuild.Proofs.Archive.Rebuilding
import ModularBuild.Proofs.Archive.Reproducibility
import ModularBuild.Proofs.Command.Archiving
import ModularBuild.Proofs.Command.Output
import ModularBuild.Proofs.Coverage.Aggregation
import ModularBuild.Proofs.Coverage.Excluding
import ModularBuild.Proofs.Coverage.Failure
import ModularBuild.Proofs.Coverage.Jacoco
import ModularBuild.Proofs.Coverage.Merging
import ModularBuild.Proofs.Coverage.Naming
import ModularBuild.Proofs.Coverage.Reordering
import ModularBuild.Proofs.Coverage.Restaging
import ModularBuild.Proofs.Coverage.Staging
import ModularBuild.Proofs.Flag.Snapshot
import ModularBuild.Proofs.Module.Registration
import ModularBuild.Proofs.Notice
import ModularBuild.Proofs.Policy.Counting
import ModularBuild.Proofs.Policy.Provenance
import ModularBuild.Proofs.Project.Configuration
import ModularBuild.Proofs.Project.Flags
import ModularBuild.Proofs.Project.Views
import ModularBuild.Proofs.Signing.Sidecar
