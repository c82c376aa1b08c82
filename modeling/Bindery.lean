import Bindery.CommandLine.Arguments
import Bindery.CommandLine.Invocation
import Bindery.CommandLine.Run
import Bindery.Config
import Bindery.Decl.Basic
import Bindery.Decl.Edit
import Bindery.Decl.Signature
import Bindery.Decl.Types
import Bindery.Disk
import Bindery.Document.Nodes
import Bindery.Document.Types
import Bindery.Emitter
import Bindery.FileSystem
import Bindery.Json.Decoder
import Bindery.Json.Printer
import Bindery.Json.Range
import Bindery.Json.Reader
import Bindery.Json.Token
import Bindery.Json.Value
import Bindery.Log
import Bindery.Main
import Bindery.Naming.Normalize
import Bindery.Naming.Rules
import Bindery.Output.Block
import Bindery.Output.Error
import Bindery.Output.File
import Bindery.Output.Substitution
import Bindery.Output.Write
import Bindery.Pass.Basic
import Bindery.Pass.DuplicateNames
import Bindery.Pass.Error
import Bindery.Pass.FlagEnums
import Bindery.Pass.InheritedDefaults
import Bindery.Pass.PointerTypedefs
import Bindery.Pass.Promotion
import Bindery.Pass.Run
import Bindery.Pass.TrailingDefaults
import Bindery.Pass.Visibility
import Bindery.Path
import Bindery.Pipeline
import Bindery.Progress
import Bindery.Selection
import Bindery.Text.Comparison
import Bindery.Text.Decimal
import Bindery.Text.EditDistance
import Bindery.Text.Replace
import Bindery.Text.UpperCase
import Bindery.Text.UpperCase.Table
import Bindery.Tree.Basic
import Bindery.Tree.Error
import Bindery.Tree.Listing
import Bindery.Tree.Loading
import Bindery.Tree.Lookup
import Bindery.Tree.Typedefs
import Bindery.Tree.Walk
import Bindery.Proofs.Tree.Structure
import Bindery.Proofs.Tree.Walking
import Bindery.Proofs.Tree.Development
import Bindery.Proofs.Sweep
import Bindery.Proofs.Pass.Promotion
import Bindery.Proofs.Pass.DuplicateNames
import Bindery.Proofs.Pass.FlagEnums
import Bindery.Proofs.Pass.PointerTypedefs
import Bindery.Proofs.Pass.TrailingDefaults
import Bindery.Proofs.Pass.Visibility
import Bindery.Proofs.Pass.InheritedDefaults
import Bindery.Proofs.Pass.Run
import Bindery.Proofs.Naming.Normalize
import Bindery.Proofs.Pipeline
import Bindery.Proofs.Tree.Arena
import Bindery.Proofs.History
import Bindery.Proofs.Pass.Rerun
import Bindery.Proofs.Json.Reading
import Bindery.Proofs.Json.Decoding
import Bindery.Proofs.Document.Types
import Bindery.Proofs.Document.Nodes
import Bindery.Proofs.Document.Blocks
import Bindery.Proofs.Document.Settings
import Bindery.Proofs.Document.Config
import Bindery.Proofs.FileSystem
import Bindery.Proofs.Tree.Reloading
import Bindery.Proofs.Tree.Renumbering
import Bindery.Proofs.Agreement
import Bindery.Proofs.Naming.Renumbering
import Bindery.Proofs.Pass.Renumbering
import Bindery.Proofs.Checkpoint
import Bindery.Proofs.Pass.Order
import Bindery.Proofs.Pass.Overrides
import Bindery.Proofs.Pass.Accessibility
import Bindery.Proofs.Pass.FirstDeclared
import Bindery.Proofs.Pass.PromotedMethods
import Bindery.Proofs.Pass.Widening
import Bindery.Proofs.Tree.Steps
import Bindery.Proofs.Frame
import Bindery.Proofs.FirstFailing
import Bindery.Proofs.Text.Replace
import Bindery.Proofs.Output.Rewriting
import Bindery.Proofs.Failure
import Bindery.Proofs.Generation
import Bindery.Proofs.Footprint
import Bindery.Proofs.Naming.Independence
import Bindery.Proofs.Tree.Alike
import Bindery.Proofs.Pass.Footprints
import Bindery.Proofs.Pass.Interchange
import Bindery.Proofs.Tally
import Bindery.Proofs.Tree.Editing
import Bindery.Proofs.Pass.DefaultChanges
import Bindery.Proofs.Pass.Counts
import Bindery.Proofs.Pass.Standstill
import Bindery.Proofs.Suppression
import Bindery.Proofs.Pass.DefaultRuns
import Bindery.Proofs.Tree.Rearrangement
import Bindery.Proofs.Tree.Loading
import Bindery.Proofs.Pass.Hierarchy
import Bindery.Proofs.Pass.SimultaneousDefaults
import Bindery.Proofs.Pass.MostDerived
import Bindery.Proofs.Pass.FlagValues
import Bindery.Proofs.Pass.OpaqueHandles
import Bindery.Proofs.Naming.ClosedForm
import Bindery.Proofs.Output.FixedPoint
import Bindery.Proofs.Decl.OverloadKey
import Bindery.Proofs.Report
import Bindery.Proofs.Tree.TypedefChains
import Bindery.Proofs.Pass.Warnings
import Bindery.Proofs.Loop
import Bindery.Proofs.Tree.Traversal
import Bindery.Proofs.Output.Writing
import Bindery.Proofs.Pass.BaseSearch
