import SumProduct.Main
import SumProduct.Proofs.Expression.Grouping
import SumProduct.Proofs.Expression.Hashing
import SumProduct.Proofs.Expression.LiteralText
import SumProduct.Proofs.Expression.VariableWalk
import SumProduct.Proofs.Parse.DepthErrors
import SumProduct.Proofs.Parse.Continuation
import SumProduct.Proofs.Parse.Blanks
import SumProduct.Proofs.Grammar.Brackets
import SumProduct.Proofs.Checked.Failures
import SumProduct.Proofs.Checked.Effort
import SumProduct.Proofs.CommandLine.Lines
import SumProduct.Proofs.CommandLine.Inputs
import SumProduct.Proofs.Token.Tiling
import SumProduct.Proofs.Expression.Pieces
import SumProduct.Proofs.Expression.BracketHeight
import SumProduct.Proofs.Parse.Messages
