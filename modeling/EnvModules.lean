import EnvModules.Backend
import EnvModules.Bindings
import EnvModules.CommandLine
import EnvModules.CommandLine.Command
import EnvModules.CommandLine.Notice
import EnvModules.CommandLine.Program
import EnvModules.CommandLine.Signature
import EnvModules.Config
import EnvModules.Config.Reader
import EnvModules.Descriptor
import EnvModules.Descriptor.Fault
import EnvModules.Descriptor.Line
import EnvModules.Descriptor.Reader
import EnvModules.Dialect
import EnvModules.Environment
import EnvModules.Environment.Reference
import EnvModules.Fault
import EnvModules.FileTree
import EnvModules.Installation
import EnvModules.Layout
import EnvModules.Loaded
import EnvModules.Main
import EnvModules.Name
import EnvModules.Path
import EnvModules.Pin
import EnvModules.Proofs.AllLoaded
import EnvModules.Proofs.Answer
import EnvModules.Proofs.Arity
import EnvModules.Proofs.Change
import EnvModules.Proofs.Columns
import EnvModules.Proofs.Commands
import EnvModules.Proofs.Convergence
import EnvModules.Proofs.Decoding
import EnvModules.Proofs.DryRun
import EnvModules.Proofs.Engine
import EnvModules.Proofs.Events
import EnvModules.Proofs.Expansion
import EnvModules.Proofs.Extent
import EnvModules.Proofs.FaultLines
import EnvModules.Proofs.Flush
import EnvModules.Proofs.Frame
import EnvModules.Proofs.Glob
import EnvModules.Proofs.Grammar
import EnvModules.Proofs.Growth
import EnvModules.Proofs.Identifiers
import EnvModules.Proofs.Integrity
import EnvModules.Proofs.Intent
import EnvModules.Proofs.Irrelevance
import EnvModules.Proofs.Layers
import EnvModules.Proofs.LineBreaks
import EnvModules.Proofs.Listing
import EnvModules.Proofs.Lockstep
import EnvModules.Proofs.Magnitude
import EnvModules.Proofs.Matching
import EnvModules.Proofs.Nesting
import EnvModules.Proofs.Origin
import EnvModules.Proofs.Pairs
import EnvModules.Proofs.Paths
import EnvModules.Proofs.Perform
import EnvModules.Proofs.Pinning
import EnvModules.Proofs.Precedence
import EnvModules.Proofs.Preview
import EnvModules.Proofs.Printing
import EnvModules.Proofs.Reading
import EnvModules.Proofs.Record
import EnvModules.Proofs.Resolution
import EnvModules.Proofs.Reversal
import EnvModules.Proofs.Segments
import EnvModules.Proofs.Shared
import EnvModules.Proofs.Spelling
import EnvModules.Proofs.Stable
import EnvModules.Proofs.Staging
import EnvModules.Proofs.Swap
import EnvModules.Proofs.Tables
import EnvModules.Proofs.Targets
import EnvModules.Proofs.Trace
import EnvModules.Proofs.Undo
import EnvModules.Proofs.Unguarded
import EnvModules.Proofs.Unload
import EnvModules.Proofs.Visit
import EnvModules.Proofs.Words
import EnvModules.Registry
import EnvModules.Session
import EnvModules.Stream
import EnvModules.Text.Alphanumeric
import EnvModules.Text.Blank
import EnvModules.Text.Numeral
import EnvModules.Text.Printable
import EnvModules.Text.Quoted
import EnvModules.Text.Similarity
import EnvModules.Text.Split
import EnvModules.Text.Wildcard
import EnvModules.Text.Words
import EnvModules.Toml.Quoted
import EnvModules.Toml.Reader
import EnvModules.Toml.Scalar
import EnvModules.Toml.Table
import EnvModules.Transition
import EnvModules.Transition.Evaluation
import EnvModules.Transition.Machine
import EnvModules.Version
