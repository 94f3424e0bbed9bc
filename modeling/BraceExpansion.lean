import BraceExpansion.CommandLine.Invocation
import BraceExpansion.CommandLine.Run
import BraceExpansion.Compiler
import BraceExpansion.Draft
import BraceExpansion.Draft.Pool
import BraceExpansion.Draft.WorkStack
import BraceExpansion.Error
import BraceExpansion.Error.Report
import BraceExpansion.Error.Row
import BraceExpansion.Error.Window
import BraceExpansion.Forest
import BraceExpansion.Forest.Outline
import BraceExpansion.Forest.Preorder
import BraceExpansion.Kind
import BraceExpansion.Kind.Set
import BraceExpansion.Main
import BraceExpansion.Options
import BraceExpansion.Pattern
import BraceExpansion.Progression
import BraceExpansion.Progression.Endpoints
import BraceExpansion.Proofs.CommandLine
import BraceExpansion.Proofs.Compiler.Checked
import BraceExpansion.Proofs.Compiler.Finish
import BraceExpansion.Proofs.Compiler.Frames
import BraceExpansion.Proofs.Compiler.Simulation
import BraceExpansion.Proofs.Compositional
import BraceExpansion.Proofs.Content
import BraceExpansion.Proofs.Draft.Checked
import BraceExpansion.Proofs.Draft.Compaction
import BraceExpansion.Proofs.Draft.Demotion
import BraceExpansion.Proofs.Draft.Grouping
import BraceExpansion.Proofs.Draft.Ownership
import BraceExpansion.Proofs.Draft.Partition
import BraceExpansion.Proofs.Draft.Piece
import BraceExpansion.Proofs.Draft.Planting
import BraceExpansion.Proofs.Draft.Stack
import BraceExpansion.Proofs.Draft.Transport
import BraceExpansion.Proofs.Dump
import BraceExpansion.Proofs.Escaping
import BraceExpansion.Proofs.Expansion
import BraceExpansion.Proofs.Forest.Label
import BraceExpansion.Proofs.Forest.Outline
import BraceExpansion.Proofs.Forest.Unfolding
import BraceExpansion.Proofs.Meaning
import BraceExpansion.Proofs.Nesting.Choice
import BraceExpansion.Proofs.Nesting.Ending
import BraceExpansion.Proofs.Nesting.Item
import BraceExpansion.Proofs.Nesting.Level
import BraceExpansion.Proofs.Nesting.Measure
import BraceExpansion.Proofs.Nesting.Plain
import BraceExpansion.Proofs.Nesting.Range
import BraceExpansion.Proofs.Nesting.Run
import BraceExpansion.Proofs.NormalForm
import BraceExpansion.Proofs.Partition
import BraceExpansion.Proofs.Progression
import BraceExpansion.Proofs.Progression.Canonical
import BraceExpansion.Proofs.Progression.Endpoints
import BraceExpansion.Proofs.Progression.Exact
import BraceExpansion.Proofs.Progression.Width
import BraceExpansion.Proofs.Reading.Every
import BraceExpansion.Proofs.Reading.Measure
import BraceExpansion.Proofs.Reading.Normal
import BraceExpansion.Proofs.Reading.Proper
import BraceExpansion.Proofs.Reading.Row
import BraceExpansion.Proofs.Reading.State
import BraceExpansion.Proofs.Report
import BraceExpansion.Proofs.Reuse
import BraceExpansion.Proofs.Safety
import BraceExpansion.Proofs.Shape
import BraceExpansion.Proofs.Strict
import BraceExpansion.Proofs.Text.Boundary
import BraceExpansion.Proofs.Text.Decimal
import BraceExpansion.Proofs.Text.Encoding
import BraceExpansion.Proofs.Text.Parts
import BraceExpansion.Proofs.Text.Quoted
import BraceExpansion.Proofs.Text.WellFormed
import BraceExpansion.Proofs.Token.Grammar
import BraceExpansion.Proofs.Token.Seam
import BraceExpansion.Proofs.Token.Step
import BraceExpansion.Proofs.Token.Stream
import BraceExpansion.Proofs.Token.Strict
import BraceExpansion.Proofs.Token.Tiling
import BraceExpansion.Proofs.Tree.Climb
import BraceExpansion.Proofs.Tree.Denotation
import BraceExpansion.Proofs.Tree.Equality
import BraceExpansion.Proofs.Tree.Links
import BraceExpansion.Proofs.Tree.Order
import BraceExpansion.Proofs.Tree.Termination
import BraceExpansion.Proofs.Unresolved
import BraceExpansion.Proofs.ValidText
import BraceExpansion.Text.Bytes
import BraceExpansion.Text.CharacterTable
import BraceExpansion.Text.Columns
import BraceExpansion.Text.Decimal
import BraceExpansion.Text.Quoted
import BraceExpansion.Text.Utf8
import BraceExpansion.Token
import BraceExpansion.Token.Scanner
import BraceExpansion.Tree
import BraceExpansion.Tree.Walk
