import UberJar.Main
import UberJar.Proofs.Bytes
import UberJar.Proofs.Except
import UberJar.Proofs.Text.Ascii
import UberJar.Proofs.Text.Blank
import UberJar.Proofs.Text.Lines
import UberJar.Proofs.Text.Utf8
import UberJar.Proofs.ClassFile.Replacement
import UberJar.Proofs.Relocation.Rule
import UberJar.Proofs.Relocation.ClassNames
import UberJar.Proofs.Relocation.Kinds
import UberJar.Proofs.Relocation.ServiceLines
import UberJar.Proofs.Relocation.Entries
import UberJar.Proofs.Merge.Again
import UberJar.Proofs.Resolution.Exclusions
import UberJar.Proofs.Resolution.Artifacts
import UberJar.Proofs.Resolution.Provenance
import UberJar.Proofs.Resolution.Superseded
import UberJar.Proofs.Merge.Providers
import UberJar.Proofs.Merge.Contributions
import UberJar.Proofs.Merge.Additions
import UberJar.Proofs.Merge.Conflicts
import UberJar.Proofs.Merge.Order
import UberJar.Proofs.Merge.History
import UberJar.Proofs.Merge.Application
import UberJar.Proofs.Merge.ServiceFiles
import UberJar.Proofs.Merge.Admission
import UberJar.Proofs.Merge.Counts
import UberJar.Proofs.Relocation.Collisions
import UberJar.Proofs.Version.Order
import UberJar.Proofs.Resolution.Requests
import UberJar.Proofs.Resolution.Declared
import UberJar.Proofs.Files.Tree
import UberJar.Proofs.Store.Fetch
import UberJar.Proofs.Files.Lexical
import UberJar.Proofs.Store.Confinement
import UberJar.Proofs.Resolution.Course
import UberJar.Proofs.Store.Lookups
import UberJar.Proofs.Store.Contents
import UberJar.Proofs.Resolution.Termination
import UberJar.Proofs.Resolution.Offers
import UberJar.Proofs.Store.Drafts
import UberJar.Proofs.Resolution.Shape
import UberJar.Proofs.Relocation.Boundary
import UberJar.Proofs.Relocation.Decomposition
import UberJar.Proofs.Relocation.Independent
import UberJar.Proofs.Relocation.Descriptors
import UberJar.Proofs.Files.Location
import UberJar.Proofs.Files.Disk
import UberJar.Proofs.Resolution.Effects
import UberJar.Proofs.Resolution.Answers
import UberJar.Proofs.Resolution.FilledCache
import UberJar.Proofs.Store.Downloads
import UberJar.Proofs.Run.Writing
import UberJar.Proofs.Run.DryRun
import UberJar.Proofs.Relocation.Whole
import UberJar.Proofs.Relocation.Longest
import UberJar.Proofs.Relocation.Changes
import UberJar.Proofs.Relocation.ProviderNames
import UberJar.Proofs.ClassFile.Format
import UberJar.Proofs.Manifest.Configured
import UberJar.Proofs.Merge.Release
import UberJar.Proofs.Merge.Failure
import UberJar.Proofs.Merge.Arrangement
import UberJar.Proofs.Manifest.Width
import UberJar.Proofs.Pom.Managed
import UberJar.Proofs.Pom.Interpolation
import UberJar.Proofs.Pom.Ranges
import UberJar.Proofs.Pom.Inheritance
import UberJar.Proofs.Coordinate.TextForm
import UberJar.Proofs.Coordinate.Layout
