import CallScript.Main
import CallScript.Proofs.Session
import CallScript.Proofs.Source.RoundTrip
import CallScript.Proofs.Source.Continuation
import CallScript.Proofs.Expr.Height
import CallScript.Proofs.Source.Depth
import CallScript.Proofs.Json.Number
import CallScript.Proofs.Number.Integer
import CallScript.Proofs.Json.Read
import CallScript.Proofs.Json.Nesting
import CallScript.Proofs.Expr.Json
import CallScript.Proofs.Source.Json
import CallScript.Proofs.Number.Overflow
import CallScript.Proofs.Source.Reprint
import CallScript.Proofs.Source.Limit
import CallScript.Proofs.Alike
import CallScript.Proofs.Eval.Simulation
import CallScript.Proofs.Eval.Unmentioned
import CallScript.Proofs.Uniform
import CallScript.Proofs.Eval.Reach
import CallScript.Proofs.Eval.Errors
import CallScript.Proofs.Eval.Parts
import CallScript.Proofs.Eval.Sequence
import CallScript.Proofs.Console
import CallScript.Proofs.Eval.Rename
import CallScript.Proofs.Eval.Renaming
import CallScript.Proofs.Source.Piece
import CallScript.Proofs.Source.Remainder
import CallScript.Proofs.Source.Comments
import CallScript.Proofs.Source.Tokens
import CallScript.Proofs.Number.Nearest
import CallScript.Proofs.Json.Reread
import CallScript.Proofs.Json.Proper
import CallScript.Proofs.Expr.Resent
import CallScript.Proofs.Eval.Usage
import CallScript.Proofs.Visibility
import CallScript.Proofs.Source.Calls
import CallScript.Proofs.Eval.Calls
import CallScript.Proofs.Eval.Unrolling
import CallScript.Proofs.Json.Grammar
import CallScript.Proofs.Json.Document
import CallScript.Proofs.Expr.Represents
import CallScript.Proofs.Json.Guard
import CallScript.Proofs.SyntaxError
import CallScript.Proofs.Source.Error
import CallScript.Proofs.Builtin
import CallScript.Proofs.HostFunction
import CallScript.Proofs.Eval.Identity
import CallScript.Proofs.Equality
import CallScript.Proofs.Comparison
import CallScript.Proofs.Array
import CallScript.Proofs.Source.Rounds
import CallScript.Proofs.Lines
