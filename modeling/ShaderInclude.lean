import ShaderInclude.Editor.Request
import ShaderInclude.Main
import ShaderInclude.Rebuild.Staleness
import ShaderInclude.Proofs.Resolution.Derivation
import ShaderInclude.Proofs.Resolution.Call
import ShaderInclude.Proofs.Resolution.Marks
import ShaderInclude.Proofs.Resolution.Uncached
import ShaderInclude.Proofs.Resolution.IncludeTree
import ShaderInclude.Proofs.Resolution.SelfDependence
import ShaderInclude.Proofs.Editor.Diagnosis
import ShaderInclude.Proofs.Editor.Refresh
import ShaderInclude.Proofs.Directive.Lone
import ShaderInclude.Proofs.Directive.Spelling
import ShaderInclude.Proofs.Directive.Reading
import ShaderInclude.Proofs.Directive.Search
import ShaderInclude.Proofs.Directive.Overlap
import ShaderInclude.Proofs.Directive.Order
import ShaderInclude.Proofs.Directive.Framed
import ShaderInclude.Proofs.Directive.Alike
import ShaderInclude.Proofs.Editor.Obstacle
import ShaderInclude.Proofs.Editor.Notice
import ShaderInclude.Proofs.Editor.StaleErrors
import ShaderInclude.Proofs.Resolution.Failure
import ShaderInclude.Proofs.Rebuild.UpToDate
import ShaderInclude.Proofs.Resolution.Validation
import ShaderInclude.Proofs.Resolution.Endless
import ShaderInclude.Proofs.Editor.MissedErrors
import ShaderInclude.Proofs.Resolution.Requests
import ShaderInclude.Proofs.Resolution.ReadOnce
import ShaderInclude.Proofs.Resolution.Coherence
import ShaderInclude.Proofs.Editor.Shadowing
import ShaderInclude.Proofs.Path.Place
import ShaderInclude.Proofs.Path.Joining
import ShaderInclude.Proofs.Path.Descent
import ShaderInclude.Proofs.Resolution.Relocation
import ShaderInclude.Proofs.Resolution.Supplied
import ShaderInclude.Proofs.Editor.Work
import ShaderInclude.Proofs.Editor.Agreement
import ShaderInclude.Proofs.Editor.ClientView
import ShaderInclude.Proofs.Resolution.Substitution
import ShaderInclude.Proofs.Resolution.Completeness
import ShaderInclude.Proofs.Resolution.Forms
import ShaderInclude.Proofs.Resolution.Origins
import ShaderInclude.Proofs.Resolution.Eviction
import ShaderInclude.Proofs.Resolution.Circle
import ShaderInclude.Proofs.Editor.Attribution
import ShaderInclude.Proofs.Text.Position
import ShaderInclude.Proofs.Editor.Definition
import ShaderInclude.Proofs.Directive.Positions
import ShaderInclude.Proofs.Rebuild.ReadBack
import ShaderInclude.Proofs.Encoding.Utf8
import ShaderInclude.Proofs.Encoding.Utf16
import ShaderInclude.Proofs.Encoding.RoundTrip
import ShaderInclude.Proofs.Storage.Writing
import ShaderInclude.Proofs.CommandLine.Flatten
import ShaderInclude.Proofs.Uri.Percent
import ShaderInclude.Proofs.Uri.FilePath
import ShaderInclude.Proofs.Editor.LinkTarget
