import CraftDsl.Ast.Item
import CraftDsl.Grammar.Json
import CraftDsl.Grammar.Validity
import CraftDsl.Json.Document
import CraftDsl.Language.Rules
import CraftDsl.Main
import CraftDsl.Node
import CraftDsl.Node.Outline
import CraftDsl.NodeType.Basic
import CraftDsl.NodeType.Generate
import CraftDsl.NodeType.Manifest
import CraftDsl.NodeType.Table
import CraftDsl.Parse
import CraftDsl.Text.Position
import CraftDsl.Tree.Dump
import CraftDsl.Proofs.Building
import CraftDsl.Proofs.Execution
import CraftDsl.Proofs.Monitor
import CraftDsl.Proofs.Foresight
import CraftDsl.Proofs.Foreseen
import CraftDsl.Proofs.Lexing
import CraftDsl.Proofs.Safety
import CraftDsl.Proofs.Places
import CraftDsl.Proofs.Losslessness
import CraftDsl.Proofs.Reports
import CraftDsl.Proofs.Agreement
import CraftDsl.Proofs.Patterns
import CraftDsl.Proofs.Derivations
import CraftDsl.Proofs.Conformity
import CraftDsl.Proofs.Fits
import CraftDsl.Proofs.Follows
import CraftDsl.Proofs.Slots
import CraftDsl.Proofs.Parallel
import CraftDsl.Proofs.Layout
import CraftDsl.Proofs.Braces
import CraftDsl.Proofs.Guard
import CraftDsl.Proofs.Enclosure
import CraftDsl.Proofs.Enclosure.Run
import CraftDsl.Proofs.Relexing
import CraftDsl.Proofs.Displacement
import CraftDsl.Proofs.Ordering
import CraftDsl.Proofs.Subtrees
import CraftDsl.Proofs.Pieces
import CraftDsl.Proofs.Plan
import CraftDsl.Proofs.Extension
import CraftDsl.Proofs.Cut
import CraftDsl.Proofs.Ground
import CraftDsl.Proofs.Seam
import CraftDsl.Proofs.Tails
import CraftDsl.Proofs.Concatenation
import CraftDsl.Proofs.Exactness
import CraftDsl.Proofs.Delimiters
import CraftDsl.Proofs.LongestMatch
import CraftDsl.Proofs.Isolation
import CraftDsl.Proofs.Reading
import CraftDsl.Proofs.Printed
import CraftDsl.Proofs.Reading.Words
import CraftDsl.Proofs.Rereading
import CraftDsl.Proofs.UseCase.Printing
import CraftDsl.Proofs.UseCase.Sentences
import CraftDsl.Proofs.UseCase.Scenarios
import CraftDsl.Proofs.UseCase.Rereading
import CraftDsl.Proofs.UseCase.Coverage
import CraftDsl.Proofs.Arch.Printing
import CraftDsl.Proofs.Arch.Sections
import CraftDsl.Proofs.Arch.Rereading
import CraftDsl.Proofs.Arch.Coverage
import CraftDsl.Proofs.Declarations.Printing
import CraftDsl.Proofs.Declarations.Reading
import CraftDsl.Proofs.Declarations.Rereading
import CraftDsl.Proofs.Json.Lexing
import CraftDsl.Proofs.Json.Printed
import CraftDsl.Proofs.Json.Rereading
import CraftDsl.Proofs.Json.Nesting
import CraftDsl.Proofs.Grammar.Rules
import CraftDsl.Proofs.Grammar.Nesting
import CraftDsl.Proofs.Grammar.Rereading
import CraftDsl.Proofs.BlankLines.Items
import CraftDsl.Proofs.Fields.Accessors
import CraftDsl.Proofs.NodeType.Rereading
import CraftDsl.Proofs.NodeType.ConcreteKinds
import CraftDsl.Proofs.NodeType.Recursion
import CraftDsl.Proofs.Edges
import CraftDsl.Proofs.Spans
import CraftDsl.Proofs.Dumps
import CraftDsl.Proofs.Blanks
import CraftDsl.Proofs.Confinement
import CraftDsl.Proofs.SharedLines.Items
import CraftDsl.Proofs.Grammar.Validity
import CraftDsl.Proofs.NodeType.Closure
import CraftDsl.Proofs.Text.Decoding
import CraftDsl.Proofs.Replacement
