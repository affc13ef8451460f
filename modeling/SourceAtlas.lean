import SourceAtlas.Analysis
import SourceAtlas.Cache
import SourceAtlas.Catalog.Basic
import SourceAtlas.Catalog.Snapshot
import SourceAtlas.Catalog.TextMap
import SourceAtlas.CommandLine.Command
import SourceAtlas.CommandLine.Footprint
import SourceAtlas.CommandLine.Moment
import SourceAtlas.CommandLine.Option
import SourceAtlas.CommandLine.Run
import SourceAtlas.Config
import SourceAtlas.Digest.Blake3
import SourceAtlas.Discovery
import SourceAtlas.Fault
import SourceAtlas.Glob
import SourceAtlas.Import.Alias
import SourceAtlas.Import.Resolver
import SourceAtlas.Integer64
import SourceAtlas.Json.Basic
import SourceAtlas.Json.Binary64
import SourceAtlas.Json.Decode
import SourceAtlas.Json.Printer
import SourceAtlas.Json.Reader
import SourceAtlas.Json.Relaxed
import SourceAtlas.Main
import SourceAtlas.Path
import SourceAtlas.Pattern
import SourceAtlas.Proofs.Analysis.Apart
import SourceAtlas.Proofs.Analysis.Key
import SourceAtlas.Proofs.Analysis.NamedDirectory
import SourceAtlas.Proofs.Analysis.Outcome
import SourceAtlas.Proofs.Analysis.Refusal
import SourceAtlas.Proofs.Analysis.Survey
import SourceAtlas.Proofs.Association
import SourceAtlas.Proofs.Cache.Clearing
import SourceAtlas.Proofs.Cache.Entry
import SourceAtlas.Proofs.Cache.Expiry
import SourceAtlas.Proofs.Cache.FileName
import SourceAtlas.Proofs.Cache.Files
import SourceAtlas.Proofs.Cache.Frame
import SourceAtlas.Proofs.Cache.Refinement
import SourceAtlas.Proofs.Cache.Sharing
import SourceAtlas.Proofs.Catalog.Normal
import SourceAtlas.Proofs.Catalog.Sound
import SourceAtlas.Proofs.Catalog.Tally
import SourceAtlas.Proofs.Catalog.TextMap
import SourceAtlas.Proofs.Discovery.Containment
import SourceAtlas.Proofs.Discovery.Depth
import SourceAtlas.Proofs.Discovery.Listing
import SourceAtlas.Proofs.Discovery.Pruning
import SourceAtlas.Proofs.Discovery.View
import SourceAtlas.Proofs.Discovery.Walk
import SourceAtlas.Proofs.Glob.Language
import SourceAtlas.Proofs.Glob.OpenEnd
import SourceAtlas.Proofs.Import.Declared
import SourceAtlas.Proofs.Import.Extension
import SourceAtlas.Proofs.Import.Rooted
import SourceAtlas.Proofs.Import.Settled
import SourceAtlas.Proofs.Json.Lexeme
import SourceAtlas.Proofs.Json.Reading
import SourceAtlas.Proofs.Json.RoundTrip
import SourceAtlas.Proofs.Json.Stripped
import SourceAtlas.Proofs.Json.Token
import SourceAtlas.Proofs.Json.Written
import SourceAtlas.Proofs.Path.Normal
import SourceAtlas.Proofs.Path.Relative
import SourceAtlas.Proofs.Path.Steps
import SourceAtlas.Proofs.Pattern.Ends
import SourceAtlas.Proofs.Pattern.Forward
import SourceAtlas.Proofs.Pattern.Groups
import SourceAtlas.Proofs.Pattern.Moved
import SourceAtlas.Proofs.Pattern.Search
import SourceAtlas.Proofs.Query.Adjacency
import SourceAtlas.Proofs.Query.Attribution
import SourceAtlas.Proofs.Query.Outline
import SourceAtlas.Proofs.Query.Reachability
import SourceAtlas.Proofs.Query.Search
import SourceAtlas.Proofs.Query.Totals
import SourceAtlas.Proofs.Query.Usage
import SourceAtlas.Proofs.Record.RoundTrip
import SourceAtlas.Proofs.Rpc.Line
import SourceAtlas.Proofs.Rpc.Session
import SourceAtlas.Proofs.Site.Basic
import SourceAtlas.Proofs.Site.History
import SourceAtlas.Proofs.Site.Invariant
import SourceAtlas.Proofs.Site.Recovery
import SourceAtlas.Proofs.Site.Restore
import SourceAtlas.Proofs.Source.Anchored
import SourceAtlas.Proofs.Source.Balance
import SourceAtlas.Proofs.Source.Bracket
import SourceAtlas.Proofs.Source.ClassBody
import SourceAtlas.Proofs.Source.ClassHeader
import SourceAtlas.Proofs.Source.Extraction
import SourceAtlas.Proofs.Source.Form
import SourceAtlas.Proofs.Source.FunctionLine
import SourceAtlas.Proofs.Source.Generator
import SourceAtlas.Proofs.Source.Indent
import SourceAtlas.Proofs.Source.Lines
import SourceAtlas.Proofs.Source.ModuleLine
import SourceAtlas.Proofs.Source.ModuleStatement
import SourceAtlas.Proofs.Source.OpenClass
import SourceAtlas.Proofs.Source.Paired
import SourceAtlas.Proofs.Source.ParameterText
import SourceAtlas.Proofs.Source.Rule
import SourceAtlas.Proofs.Source.TypeText
import SourceAtlas.Proofs.StableSort
import SourceAtlas.Proofs.Text.Bytes
import SourceAtlas.Proofs.Text.Trim
import SourceAtlas.Proofs.Tree.Resolution
import SourceAtlas.Proofs.Tree.WellFormed
import SourceAtlas.Query.Basic
import SourceAtlas.Query.Dependency
import SourceAtlas.Query.Listing
import SourceAtlas.Query.Search
import SourceAtlas.Query.Usage
import SourceAtlas.Record.Basic
import SourceAtlas.Record.Json
import SourceAtlas.Rpc.Call
import SourceAtlas.Rpc.Line
import SourceAtlas.Rpc.Message
import SourceAtlas.Rpc.Server
import SourceAtlas.Rpc.Tool
import SourceAtlas.Source.Bracket
import SourceAtlas.Source.ClassBody
import SourceAtlas.Source.Declaration
import SourceAtlas.Source.Extraction
import SourceAtlas.Source.Parameter
import SourceAtlas.Source.Rule
import SourceAtlas.Text.Basic
import SourceAtlas.Text.Case
import SourceAtlas.Text.Word
import SourceAtlas.Toml.Reader
import SourceAtlas.Toml.Table
import SourceAtlas.Toml.Value
import SourceAtlas.Tree.Basic
import SourceAtlas.Tree.Edit
import SourceAtlas.Workspace
