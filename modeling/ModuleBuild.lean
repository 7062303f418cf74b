import ModuleBuild.Main
import ModuleBuild.Optional
import ModuleBuild.Outcome
import ModuleBuild.Proofs.Outline.Substitutions
import ModuleBuild.Proofs.Outline.Scanning
import ModuleBuild.Proofs.Engine.Comments
import ModuleBuild.Proofs.Engine.Imports
import ModuleBuild.Proofs.Build.Verdict
import ModuleBuild.Proofs.Outline.Partition
import ModuleBuild.Proofs.Outline.Repairs
import ModuleBuild.Proofs.Outline.Layout
import ModuleBuild.Proofs.Outline.Templates
import ModuleBuild.Proofs.Report.Runs
import ModuleBuild.Proofs.Path.Destinations
import ModuleBuild.Proofs.Path.Resolution
import ModuleBuild.Proofs.Manifest.Reading
import ModuleBuild.Proofs.FileTree.Files
import ModuleBuild.Proofs.Build.Success
import ModuleBuild.Proofs.Build.Manifests
import ModuleBuild.Proofs.FileTree.Names
import ModuleBuild.Proofs.Build.Artifact
import ModuleBuild.Proofs.Build.Changes
import ModuleBuild.Proofs.Build.Sources
import ModuleBuild.Proofs.Build.Repeated
import ModuleBuild.Proofs.Token.Division
import ModuleBuild.Proofs.Token.Appending
import ModuleBuild.Proofs.Token.Blanking
import ModuleBuild.Proofs.Token.Slashes
import ModuleBuild.Proofs.Engine.LineEnds
import ModuleBuild.Proofs.Token.Strings
import ModuleBuild.Proofs.Token.Regexes
import ModuleBuild.Proofs.Token.Stacks
import ModuleBuild.Proofs.Source.Lookup
import ModuleBuild.Proofs.Report.Positions
import ModuleBuild.Proofs.Report.Messages
import ModuleBuild.Proofs.Outline.TopLevel
