import Heed.Main
import Heed.Tree.KindName
import Heed.Ty.Text
import Heed.Proofs.Rule.Deferral
import Heed.Proofs.Token.Order
import Heed.Proofs.Grammar.Reading
import Heed.Proofs.Grammar.Building
import Heed.Proofs.Grammar.Layout
import Heed.Proofs.Grammar.ExpressionLayout
import Heed.Proofs.Grammar.Expression
import Heed.Proofs.Grammar.Statement
import Heed.Proofs.Tree.Geometry
import Heed.Proofs.Tree.Shape
import Heed.Proofs.Scope.Scopes
import Heed.Proofs.Scope.Declarations
import Heed.Proofs.Scope.Resolution
import Heed.Proofs.Rule.Aliases
import Heed.Proofs.Checker.Inquiry
import Heed.Proofs.Checker.Sessions
import Heed.Proofs.Checker.Memoisation
import Heed.Proofs.Grammar.StatementLayout
import Heed.Proofs.Tree.Spans
import Heed.Proofs.Scope.Positions
import Heed.Proofs.Scope.Bookkeeping
import Heed.Proofs.Rule.Findings
import Heed.Proofs.Rule.Reporting
import Heed.Proofs.Token.Alike
import Heed.Proofs.Grammar.Agreement
import Heed.Proofs.Grammar.TypeAgreement
import Heed.Proofs.Grammar.ExpressionAgreement
import Heed.Proofs.Grammar.StatementAgreement
import Heed.Proofs.Rule.Respanning
import Heed.Proofs.Grammar.Rendering
import Heed.Proofs.Grammar.Facing
import Heed.Proofs.Grammar.Recognition
import Heed.Proofs.Grammar.RoundTrip
import Heed.Proofs.Rule.Leniency
import Heed.Proofs.Scope.Renaming
import Heed.Proofs.Token.Lexicon
import Heed.Proofs.Token.Tiling
import Heed.Proofs.Ty.Instantiation
import Heed.Proofs.Checker.NormalForms
import Heed.Proofs.Checker.Transparency
import Heed.Proofs.Rule.Awaiting
import Heed.Proofs.CommandLine.Joining
import Heed.Proofs.Rule.Blame
import Heed.Proofs.Grammar.Traces
import Heed.Proofs.Tree.Unfolding
import Heed.Proofs.Grammar.Shifting
import Heed.Proofs.Grammar.ExpressionShifting
import Heed.Proofs.Grammar.StatementShifting
import Heed.Proofs.Token.Openings
import Heed.Proofs.Grammar.Initialiser
import Heed.Proofs.Grammar.Relocation
import Heed.Proofs.Grammar.Branches
import Heed.Proofs.Grammar.BranchTexts
import Heed.Proofs.Ty.Canonicity
import Heed.Proofs.Token.Glyphs
import Heed.Proofs.Ty.Expansion
import Heed.Proofs.Grammar.TypeRendering
import Heed.Proofs.Grammar.RowReading
import Heed.Proofs.Grammar.TypeReading
import Heed.Proofs.Grammar.TypeRoundTrip
import Heed.Proofs.Rule.Chains
import Heed.Proofs.Grammar.Refusals
import Heed.Proofs.Token.Delimiting
import Heed.Proofs.Tree.SourceOrder
import Heed.Proofs.Token.Quoting
import Heed.Proofs.Source.Lines
import Heed.Proofs.Checker.Returns
