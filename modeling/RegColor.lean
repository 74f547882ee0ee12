import RegColor.Adjacency
import RegColor.Allocation.Report
import RegColor.Allocation.Run
import RegColor.Allocator
import RegColor.Analysis.Block
import RegColor.Analysis.Flow
import RegColor.Analysis.LiveSets
import RegColor.Analysis.Liveness
import RegColor.Coloring
import RegColor.Command.Arguments
import RegColor.Command.Files
import RegColor.Command.Help
import RegColor.Command.Path
import RegColor.Command.Run
import RegColor.Command.Suggest
import RegColor.Data.OrdMap
import RegColor.Data.OrdSet
import RegColor.Digraph
import RegColor.Dot
import RegColor.Fault
import RegColor.Flag.Basic
import RegColor.Flag.Help
import RegColor.Graph
import RegColor.Item.Basic
import RegColor.Item.Read
import RegColor.Listing.Access
import RegColor.Listing.Basic
import RegColor.Listing.Check
import RegColor.Listing.Resolve
import RegColor.Main
import RegColor.Number.Double
import RegColor.Number.Integer
import RegColor.Number.Real
import RegColor.Number.Shortest
import RegColor.Number.Word
import RegColor.Opcode
import RegColor.Proofs.Accepted
import RegColor.Proofs.Allocation
import RegColor.Proofs.Assignment
import RegColor.Proofs.Blocks
import RegColor.Proofs.Built
import RegColor.Proofs.Check
import RegColor.Proofs.Coloring
import RegColor.Proofs.Costs
import RegColor.Proofs.Coverage
import RegColor.Proofs.Data
import RegColor.Proofs.Flow
import RegColor.Proofs.Forest
import RegColor.Proofs.Grammar
import RegColor.Proofs.Growth
import RegColor.Proofs.Interference
import RegColor.Proofs.Lexing
import RegColor.Proofs.Liveness
import RegColor.Proofs.Naming
import RegColor.Proofs.Ownership
import RegColor.Proofs.Palette
import RegColor.Proofs.Parsed
import RegColor.Proofs.Points
import RegColor.Proofs.Printing
import RegColor.Proofs.Ranges
import RegColor.Proofs.Readers
import RegColor.Proofs.Registers
import RegColor.Proofs.Reprint
import RegColor.Proofs.Rerun
import RegColor.Proofs.Resolution
import RegColor.Proofs.Scan
import RegColor.Proofs.Spilling
import RegColor.Proofs.Straight
import RegColor.Proofs.Sweep
import RegColor.Proofs.Webs
import RegColor.Proofs.WellFormed
import RegColor.Settings.Basic
import RegColor.Settings.Environment
import RegColor.Settings.File
import RegColor.Settings.Flags
import RegColor.Symbol
import RegColor.Target
import RegColor.Text.Printable
import RegColor.Text.Quote
import RegColor.Token.Basic
import RegColor.Token.Scan
import RegColor.Toml.Date
import RegColor.Toml.Document
import RegColor.Toml.Scan
import RegColor.Toml.Text
import RegColor.Web.Basic
import RegColor.Web.Build
import RegColor.Web.Forest
import RegColor.Proofs.Packing
import RegColor.Proofs.Changes
import RegColor.Proofs.Segments
import RegColor.Proofs.Scopes
import RegColor.Proofs.Progress
import RegColor.Proofs.Lines
import RegColor.Proofs.Spacing
import RegColor.Proofs.Canonical
import RegColor.Proofs.Space
import RegColor.Proofs.Multigraph
import RegColor.Proofs.Adjacency
import RegColor.Proofs.Unions
import RegColor.Proofs.Literals
