import ModuleLowering.Text.Quoted
import ModuleLowering.Number.Shortest
import ModuleLowering.Number.Numeral
import ModuleLowering.Token.Punctuator
import ModuleLowering.Token.Word
import ModuleLowering.CommandLine.Argument
import ModuleLowering.CommandLine.Check
import ModuleLowering.Main
import ModuleLowering.Proofs.Wiring
import ModuleLowering.Proofs.Restoring
import ModuleLowering.Proofs.Modes
import ModuleLowering.Proofs.OffRegistry
import ModuleLowering.Proofs.Joining
import ModuleLowering.Proofs.Layout
import ModuleLowering.Proofs.Equations
import ModuleLowering.Proofs.Openings
import ModuleLowering.Proofs.ReadingExpressions
import ModuleLowering.Proofs.ReadingAssignments
import ModuleLowering.Proofs.ReadingModules
import ModuleLowering.Proofs.ResolverRuns
import ModuleLowering.Proofs.Tiling
import ModuleLowering.Proofs.Positions
import ModuleLowering.Proofs.Spacing
import ModuleLowering.Proofs.Insertion
import ModuleLowering.Proofs.SlashesAndBraces
import ModuleLowering.Proofs.Delivering
import ModuleLowering.Proofs.Printable
import ModuleLowering.Proofs.LineBreaks
import ModuleLowering.Proofs.Branches
import ModuleLowering.Proofs.BranchParsing
import ModuleLowering.Proofs.ComposedTexts
import ModuleLowering.Proofs.LoopHeads
import ModuleLowering.Proofs.ChainEnds
import ModuleLowering.Proofs.FirstTokens
import ModuleLowering.Proofs.Brackets
import ModuleLowering.Proofs.Quoting
import ModuleLowering.Proofs.Rejections
import ModuleLowering.Proofs.SyntaxRules
import ModuleLowering.Proofs.Configuring
import ModuleLowering.Proofs.Removing
import ModuleLowering.Proofs.Pruning
import ModuleLowering.Proofs.NodePlaces
import ModuleLowering.Proofs.NameRuns
import ModuleLowering.Proofs.WalkOrder
import ModuleLowering.Proofs.Merging
