import WeiCalc.Abi.Codec
import WeiCalc.Arithmetic
import WeiCalc.Builtin
import WeiCalc.Call.Result
import WeiCalc.Command.Report
import WeiCalc.Expr.Evaluation
import WeiCalc.Expr.Parser
import WeiCalc.Main
import WeiCalc.Session
import WeiCalc.Proofs.Grammar
import WeiCalc.Proofs.Grammar.Reading
import WeiCalc.Proofs.Grammar.Soundness
import WeiCalc.Proofs.Grammar.Completeness
import WeiCalc.Proofs.Grammar.Exact
import WeiCalc.Proofs.Abi.Bytes
import WeiCalc.Proofs.Token.Integer
import WeiCalc.Proofs.Abi.Signature
import WeiCalc.Proofs.Abi.Argument
import WeiCalc.Proofs.Abi.Word
import WeiCalc.Proofs.Abi.Calldata
import WeiCalc.Proofs.Orderly
import WeiCalc.Proofs.Pool
import WeiCalc.Proofs.Pool.Tick
import WeiCalc.Proofs.Pool.Liquidity
import WeiCalc.Proofs.Pool.Exact
import WeiCalc.Proofs.Pool.Split
import WeiCalc.Proofs.Root
import WeiCalc.Proofs.Abi.Orderly
import WeiCalc.Proofs.Calendar
import WeiCalc.Proofs.Call
import WeiCalc.Proofs.Evaluation
import WeiCalc.Proofs.Evaluation.Levels
import WeiCalc.Proofs.Arithmetic
import WeiCalc.Proofs.Diagnostics
import WeiCalc.Proofs.Evaluation.Modes
import WeiCalc.Proofs.Failure
import WeiCalc.Proofs.Formula
import WeiCalc.Proofs.Formula.Checked
import WeiCalc.Proofs.Formula.Wrapping
import WeiCalc.Proofs.Numeral
import WeiCalc.Proofs.Token.Next
import WeiCalc.Proofs.Token.Numeral
import WeiCalc.Proofs.Token.Based
import WeiCalc.Proofs.Token.Decimal
import WeiCalc.Proofs.Token.Written
import WeiCalc.Proofs.Amount
import WeiCalc.Proofs.Display
import WeiCalc.Proofs.Evaluation.Nesting
import WeiCalc.Proofs.Abi.Split
import WeiCalc.Proofs.Token.Literal
import WeiCalc.Proofs.Abi.Literal
import WeiCalc.Proofs.Evaluation.Encoding
import WeiCalc.Proofs.Evaluation.Chain
import WeiCalc.Proofs.Limit
import WeiCalc.Proofs.Grammar.Limit
import WeiCalc.Proofs.Evaluation.Limit
import WeiCalc.Proofs.Text.Words
import WeiCalc.Proofs.Abi.Written
import WeiCalc.Proofs.Abi.Reading
import WeiCalc.Proofs.Abi.Canonical
import WeiCalc.Proofs.Abi.Address
import WeiCalc.Proofs.Abi.Spelling
import WeiCalc.Proofs.Grammar.Place
import WeiCalc.Proofs.Token.Failure
import WeiCalc.Proofs.Token.Place
import WeiCalc.Proofs.Evaluation.Failure
import WeiCalc.Proofs.Evaluation.Place
import WeiCalc.Proofs.Arithmetic.Exact
import WeiCalc.Proofs.Pool.Monotone
import WeiCalc.Proofs.Root.Newton
import WeiCalc.Proofs.Evaluation.Conversion
import WeiCalc.Proofs.Calendar.Day
import WeiCalc.Proofs.Calendar.Seconds
import WeiCalc.Proofs.Calendar.Stamp
import WeiCalc.Proofs.Text.Base64
import WeiCalc.Proofs.Hex.Data
import WeiCalc.Proofs.Abi.Checksum
import WeiCalc.Proofs.Pool.Price
import WeiCalc.Proofs.Abi.Lines
import WeiCalc.Proofs.Evaluation.Settings
import WeiCalc.Proofs.Grammar.Viable
import WeiCalc.Proofs.Grammar.Opening
import WeiCalc.Proofs.Grammar.Lookahead
import WeiCalc.Proofs.Pool.Apart
import WeiCalc.Proofs.Pool.TruePrice
import WeiCalc.Proofs.Settings.File
import WeiCalc.Proofs.Token.Span
import WeiCalc.Proofs.Grammar.Progress
import WeiCalc.Proofs.Abi.Signed
