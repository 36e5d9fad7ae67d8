import ApiLinker.Category
import ApiLinker.Command.Arguments
import ApiLinker.Command.Run
import ApiLinker.Decimal.Binary64
import ApiLinker.Decimal.Shortest
import ApiLinker.Document
import ApiLinker.Entity
import ApiLinker.Failure
import ApiLinker.FileNode
import ApiLinker.FileSystem
import ApiLinker.FileTree
import ApiLinker.Format.Codec
import ApiLinker.Format.Document
import ApiLinker.Format.Edge
import ApiLinker.Format.Entity
import ApiLinker.Format.Record
import ApiLinker.Graph
import ApiLinker.Index
import ApiLinker.Json.Fault
import ApiLinker.Json.FloatText
import ApiLinker.Json.Numeral
import ApiLinker.Json.Printer
import ApiLinker.Json.Quoted
import ApiLinker.Json.Reading
import ApiLinker.Json.Syntax
import ApiLinker.Json.Token
import ApiLinker.Json.Value
import ApiLinker.Linking.Cycles
import ApiLinker.Linking.Expansion
import ApiLinker.Linking.Lending
import ApiLinker.Linking.Place
import ApiLinker.Linking.Relink
import ApiLinker.Linking.Tour
import ApiLinker.Linking.Walk
import ApiLinker.Loading
import ApiLinker.Main
import ApiLinker.Pointer
import ApiLinker.Problem
import ApiLinker.Proofs.Addressed
import ApiLinker.Proofs.Disk
import ApiLinker.Proofs.Encoding
import ApiLinker.Proofs.FileNode
import ApiLinker.Proofs.FileSystem
import ApiLinker.Proofs.FileTree
import ApiLinker.Proofs.Format.Copying
import ApiLinker.Proofs.Format.Decoding
import ApiLinker.Proofs.Format.Document
import ApiLinker.Proofs.Format.Entity
import ApiLinker.Proofs.Format.Layout
import ApiLinker.Proofs.Format.Mirrored
import ApiLinker.Proofs.Format.Nested
import ApiLinker.Proofs.Format.Orderly
import ApiLinker.Proofs.Format.Positions
import ApiLinker.Proofs.Format.Reading
import ApiLinker.Proofs.Format.Reordered
import ApiLinker.Proofs.Format.Restored
import ApiLinker.Proofs.Format.Restoring
import ApiLinker.Proofs.Format.Standing
import ApiLinker.Proofs.Format.Writing
import ApiLinker.Proofs.Index
import ApiLinker.Proofs.Json.Digits
import ApiLinker.Proofs.Json.Distinct
import ApiLinker.Proofs.Json.Layout
import ApiLinker.Proofs.Json.Pretty
import ApiLinker.Proofs.Json.Printing
import ApiLinker.Proofs.Json.Reordered
import ApiLinker.Proofs.Linking.Again
import ApiLinker.Proofs.Linking.Alias
import ApiLinker.Proofs.Linking.Asked
import ApiLinker.Proofs.Linking.Authority
import ApiLinker.Proofs.Linking.Change
import ApiLinker.Proofs.Linking.Changing
import ApiLinker.Proofs.Linking.Complete
import ApiLinker.Proofs.Linking.Corresponding
import ApiLinker.Proofs.Linking.CycleTest
import ApiLinker.Proofs.Linking.Cycles
import ApiLinker.Proofs.Linking.Entering
import ApiLinker.Proofs.Linking.Expanded
import ApiLinker.Proofs.Linking.HeldAt
import ApiLinker.Proofs.Linking.Holding
import ApiLinker.Proofs.Linking.Lending
import ApiLinker.Proofs.Linking.Links
import ApiLinker.Proofs.Linking.Located
import ApiLinker.Proofs.Linking.Logging
import ApiLinker.Proofs.Linking.Matching
import ApiLinker.Proofs.Linking.Missing
import ApiLinker.Proofs.Linking.Named
import ApiLinker.Proofs.Linking.Problems
import ApiLinker.Proofs.Linking.Query
import ApiLinker.Proofs.Linking.Reach
import ApiLinker.Proofs.Linking.Rearranged
import ApiLinker.Proofs.Linking.Rebuilt
import ApiLinker.Proofs.Linking.Relinking
import ApiLinker.Proofs.Linking.Renamed
import ApiLinker.Proofs.Linking.Reordered
import ApiLinker.Proofs.Linking.Reparsed
import ApiLinker.Proofs.Linking.Repeated
import ApiLinker.Proofs.Linking.Reported
import ApiLinker.Proofs.Linking.Rewritten
import ApiLinker.Proofs.Linking.Settled
import ApiLinker.Proofs.Linking.Shared
import ApiLinker.Proofs.Linking.Silent
import ApiLinker.Proofs.Linking.Site
import ApiLinker.Proofs.Linking.Strict
import ApiLinker.Proofs.Linking.Tags
import ApiLinker.Proofs.Linking.Tidy
import ApiLinker.Proofs.Linking.Tour
import ApiLinker.Proofs.Linking.Unordered
import ApiLinker.Proofs.Linking.Visiting
import ApiLinker.Proofs.Linking.Walk
import ApiLinker.Proofs.Linking.WellFormed
import ApiLinker.Proofs.Nesting
import ApiLinker.Proofs.Outcome
import ApiLinker.Proofs.Permuted
import ApiLinker.Proofs.Pointer
import ApiLinker.Proofs.Registration
import ApiLinker.Proofs.Relation
import ApiLinker.Proofs.Rules
import ApiLinker.Proofs.Schema.Built
import ApiLinker.Proofs.Schema.Exact
import ApiLinker.Proofs.Schema.Grammar
import ApiLinker.Proofs.Schema.Identity
import ApiLinker.Proofs.Schema.Mapped
import ApiLinker.Proofs.Schema.Noting
import ApiLinker.Proofs.Schema.Once
import ApiLinker.Proofs.Schema.Placed
import ApiLinker.Proofs.Schema.Reach
import ApiLinker.Proofs.Schema.Reading
import ApiLinker.Proofs.Schema.Registered
import ApiLinker.Proofs.Schema.Reordered
import ApiLinker.Proofs.Schema.Restored
import ApiLinker.Proofs.Schema.Same
import ApiLinker.Proofs.Schema.Settled
import ApiLinker.Proofs.Schema.Shared
import ApiLinker.Proofs.Schema.Sharing
import ApiLinker.Proofs.Schema.Slots
import ApiLinker.Proofs.Schema.Tree
import ApiLinker.Proofs.Schema.Unfolding
import ApiLinker.Proofs.Schema.Written
import ApiLinker.Proofs.Search
import ApiLinker.Proofs.Settings.Restored
import ApiLinker.Proofs.Settings.Stored
import ApiLinker.Proofs.Simulation
import ApiLinker.Proofs.Table
import ApiLinker.Quotation.Ranges
import ApiLinker.Quotation.Text
import ApiLinker.Reference
import ApiLinker.Schema.Basic
import ApiLinker.Schema.Format
import ApiLinker.Schema.Registry
import ApiLinker.Search
import ApiLinker.Settings.Basic
import ApiLinker.Settings.Store
import ApiLinker.Table
import ApiLinker.View
