import Propositional.Formula.Grammar.Recursion
import Propositional.Main
import Propositional.Page
import Propositional.Parsing.Pattern
import Propositional.Proofs.Grammar.Rules
import Propositional.Proofs.Parsing.Steady
import Propositional.Proofs.Grammar.Derivation
import Propositional.Proofs.Grammar.Soundness
import Propositional.Proofs.Grammar.Completeness
import Propositional.Proofs.Grammar.Parsing
import Propositional.Proofs.Grammar.NestingGuard
import Propositional.Proofs.Grammar.Remainder
import Propositional.Proofs.Formula.CanonicalText
import Propositional.Proofs.Formula.Openings
import Propositional.Proofs.Formula.SparseText
import Propositional.Proofs.Assignment
import Propositional.Proofs.Formula.Parts
import Propositional.Proofs.Truth
import Propositional.Proofs.Log.Yields
import Propositional.Proofs.TruthTable.Rows
import Propositional.Proofs.TruthTable.Attributes
import Propositional.Proofs.Grammar.Openers
import Propositional.Proofs.Grammar.Overrun
import Propositional.Proofs.Parsing.Imitation
import Propositional.Proofs.Parsing.Productive
import Propositional.Proofs.Parsing.Cuts
import Propositional.Proofs.Parsing.OrderedChoice
import Propositional.Proofs.TruthTable.Markup
import Propositional.Proofs.TruthTable.HtmlReading
import Propositional.Proofs.Log.Leaves
import Propositional.Proofs.TruthTable.Build
import Propositional.Proofs.CommandLine.Printing
import Propositional.Proofs.FrontEnds
import Propositional.Proofs.Demand
import Propositional.Proofs.Formula.Renaming
import Propositional.Proofs.TruthTable.Renaming
import Propositional.Proofs.Grammar.Symbols
import Propositional.Proofs.TruthTable.Limit
import Propositional.Proofs.CommandLine.Batch
import Propositional.Proofs.Formula.Context
import Propositional.Proofs.Laws
import Propositional.Proofs.Environment
import Propositional.Proofs.Formula.Columns
import Propositional.Proofs.TruthTable.Filling
import Propositional.Proofs.TruthTable.Labels
import Propositional.Proofs.Text.Lines
import Propositional.Proofs.Text.Outline
import Propositional.Proofs.Formula.Outline
import Propositional.Proofs.TruthTable.MarkdownReading
import Propositional.Proofs.Parsing.Algebra
import Propositional.Proofs.Text.Style
import Propositional.Proofs.Text.Columns
import Propositional.Proofs.TruthTable.PlainReading
import Propositional.Proofs.TruthTable.Records
import Propositional.Proofs.Parsing.States
import Propositional.Proofs.Grammar.Congruence
import Propositional.Proofs.Grammar.NestingState
import Propositional.Proofs.Grammar.Progress
import Propositional.Proofs.Grammar.Execution
import Propositional.Proofs.Formula.Traversal
import Propositional.Proofs.Assignment.Order
