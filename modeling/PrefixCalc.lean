import PrefixCalc.Arithmetic
import PrefixCalc.Value.Basic
import PrefixCalc.SyntaxError
import PrefixCalc.Token.Basic
import PrefixCalc.Token.Lexer
import PrefixCalc.Value.Printer
import PrefixCalc.SExpr.Basic
import PrefixCalc.SExpr.Reader
import PrefixCalc.SyntaxTree.Basic
import PrefixCalc.SyntaxTree.OfSource
import PrefixCalc.SyntaxTree.Outline
import PrefixCalc.Value.OfTree
import PrefixCalc.Evaluator
import PrefixCalc.Calculator
import PrefixCalc.Text.Lines
import PrefixCalc.Text.WhiteSpace
import PrefixCalc.CommandLine.Arguments
import PrefixCalc.CommandLine.Run
import PrefixCalc.Main
import PrefixCalc.Proofs.Arithmetic
import PrefixCalc.Proofs.Value.Reduce
import PrefixCalc.Proofs.Value.Denotation
import PrefixCalc.Proofs.Token.Longest
import PrefixCalc.Proofs.Token.Tiling
import PrefixCalc.Proofs.Diagnosis
import PrefixCalc.Proofs.SExpr.Reading
import PrefixCalc.Proofs.Value.OfProgram
import PrefixCalc.Proofs.Value.NestingLimit
import PrefixCalc.Proofs.NestingAgreement
import PrefixCalc.Proofs.Token.Columns
import PrefixCalc.Proofs.Token.Spelling
import PrefixCalc.Proofs.ReadBack
import PrefixCalc.Proofs.Value.FirstFailure
import PrefixCalc.Proofs.SyntaxTree.Leaves
import PrefixCalc.Proofs.SExpr.Replacement
import PrefixCalc.Proofs.ReferentialTransparency
import PrefixCalc.Proofs.Value.BelowLimit
import PrefixCalc.Proofs.Value.Compositional
import PrefixCalc.Proofs.Evaluator.RunningCount
import PrefixCalc.Proofs.Evaluator.Reuse
import PrefixCalc.Proofs.CommandLine.Chosen
import PrefixCalc.Proofs.Text.Lines
import PrefixCalc.Proofs.CommandLine.FileRun
import PrefixCalc.Proofs.CommandLine.Conversation
import PrefixCalc.Proofs.CommandLine.NestingBound
import PrefixCalc.Proofs.Value.VisitCount
import PrefixCalc.Proofs.Value.OperandOrder
import PrefixCalc.Proofs.Value.SplitFold
import PrefixCalc.Proofs.ExactArithmetic
import PrefixCalc.Proofs.Numeral
import PrefixCalc.Proofs.Layout
import PrefixCalc.Proofs.SExpr.Matching
import PrefixCalc.Proofs.Value.Layers
import PrefixCalc.Proofs.Value.Listing
import PrefixCalc.Proofs.SyntaxTree.Outline
import PrefixCalc.Proofs.Evaluator.NormalForm
import PrefixCalc.Proofs.SyntaxTree.Edit
import PrefixCalc.Proofs.SyntaxTree.Descent
