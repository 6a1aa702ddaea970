import AtomicCss.About
import AtomicCss.CommandLine.Arguments
import AtomicCss.CommandLine.Describe
import AtomicCss.CommandLine.FileTree
import AtomicCss.CommandLine.Run
import AtomicCss.Compile.Compiler
import AtomicCss.Compile.History
import AtomicCss.Compile.Options
import AtomicCss.Compile.Output
import AtomicCss.Compile.Settings
import AtomicCss.Compile.Stats
import AtomicCss.Context.Path
import AtomicCss.Context.Segment
import AtomicCss.Declaration.Basic
import AtomicCss.Declaration.Chain
import AtomicCss.Declaration.Normal
import AtomicCss.Declaration.Wording
import AtomicCss.Error
import AtomicCss.Hash.Digest
import AtomicCss.Hash.Murmur
import AtomicCss.Json.Basic
import AtomicCss.Json.Reader
import AtomicCss.Json.Writer
import AtomicCss.Main
import AtomicCss.Number.Binary64
import AtomicCss.Number.Decimal
import AtomicCss.Number.Format
import AtomicCss.Number.Shortest
import AtomicCss.Property.Class
import AtomicCss.Property.Direction
import AtomicCss.Property.Measure
import AtomicCss.Property.Name
import AtomicCss.Property.Shorthand
import AtomicCss.Sheet.Artifact
import AtomicCss.Sheet.Keyframes
import AtomicCss.Sheet.Program
import AtomicCss.Sheet.Registry
import AtomicCss.Sheet.Rule
import AtomicCss.Style.Definition
import AtomicCss.Style.Leaf
import AtomicCss.Style.Source
import AtomicCss.Style.Value
import AtomicCss.Text.Blank
import AtomicCss.Text.CodeRange
import AtomicCss.Text.DecimalDigit
import AtomicCss.Text.Scan
import AtomicCss.Toml.Reader
import AtomicCss.Warning
import AtomicCss.Proofs.Registry.Growth
import AtomicCss.Proofs.Registry.History
import AtomicCss.Proofs.Compile.Gathering
import AtomicCss.Proofs.Registry.Recompilation
import AtomicCss.Proofs.Context.Entering
import AtomicCss.Proofs.Text.Separated
import AtomicCss.Proofs.Sheet.ContentAddress
import AtomicCss.Proofs.Style.KeyOrder
import AtomicCss.Proofs.Compile.ClassMap
import AtomicCss.Proofs.Compile.KeyOrder
import AtomicCss.Proofs.Context.Reordering
import AtomicCss.Proofs.Registry.Splitting
import AtomicCss.Proofs.Compile.Spelling
import AtomicCss.Proofs.Sheet.FrameText
import AtomicCss.Proofs.Sheet.KeyframesAddress
import AtomicCss.Proofs.Declaration.Sides
import AtomicCss.Proofs.Declaration.PlainWords
import AtomicCss.Proofs.OrderedMap
import AtomicCss.Proofs.Registry.Scheduling
import AtomicCss.Proofs.Sheet.GeneratedNames
import AtomicCss.Proofs.Compile.Bindings
import AtomicCss.Proofs.Declaration.OwnNames
import AtomicCss.Proofs.Compile.References
import AtomicCss.Proofs.Compile.Capture
import AtomicCss.Proofs.Ranked
import AtomicCss.Proofs.Registry.Cascade
import AtomicCss.Proofs.Registry.Fingerprint
import AtomicCss.Proofs.Context.Priority
import AtomicCss.Proofs.Declaration.Turning
import AtomicCss.Proofs.Compile.WritingDirections
import AtomicCss.Proofs.Context.Nesting
import AtomicCss.Proofs.Context.PriorityBounds
import AtomicCss.Proofs.Compile.Names
import AtomicCss.Proofs.Declaration.Longhands
import AtomicCss.Proofs.CommandLine.Describing
import AtomicCss.Proofs.Style.Exactness
import AtomicCss.Proofs.Compile.Shorthands
import AtomicCss.Proofs.Declaration.NumericWords
import AtomicCss.Proofs.Declaration.OneSpelling
import AtomicCss.Proofs.Declaration.QuotedRegions
import AtomicCss.Proofs.Declaration.UrlTokens
import AtomicCss.Proofs.Declaration.Quantities
import AtomicCss.Proofs.Declaration.NestedFallbacks
import AtomicCss.Proofs.Declaration.OwnFallbacks
import AtomicCss.Proofs.Declaration.ContentStrings
import AtomicCss.Proofs.Failure
import AtomicCss.Proofs.Declaration.ChainTexts
import AtomicCss.Proofs.Compile.Refusals
import AtomicCss.Proofs.Property.Spelling
import AtomicCss.Proofs.Compile.KeySpelling
import AtomicCss.Proofs.Compile.Resolution
import AtomicCss.Proofs.Registry.Merging
import AtomicCss.Proofs.Text.Words
import AtomicCss.Proofs.Declaration.Gaps
import AtomicCss.Proofs.Declaration.Respacing
import AtomicCss.Proofs.Compile.DescribedFallbacks
