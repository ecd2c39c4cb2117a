import Scriptlet.Command
import Scriptlet.Context
import Scriptlet.Decimal.Layout
import Scriptlet.Decimal.Shortest
import Scriptlet.Diagnostic
import Scriptlet.Diagram
import Scriptlet.Eval
import Scriptlet.Fault
import Scriptlet.Main
import Scriptlet.Number
import Scriptlet.Operator
import Scriptlet.Optimize
import Scriptlet.Optimize.DeadCode
import Scriptlet.Optimize.Liveness
import Scriptlet.Optimize.Simplify
import Scriptlet.Scope
import Scriptlet.Session
import Scriptlet.SourceError
import Scriptlet.Text.Backspace
import Scriptlet.Text.Blank
import Scriptlet.Text.BreakClass
import Scriptlet.Text.Cluster
import Scriptlet.Text.Hidden
import Scriptlet.Text.Numeral
import Scriptlet.Text.Quoted
import Scriptlet.Text.Ranges
import Scriptlet.Token
import Scriptlet.Token.Lexeme
import Scriptlet.Token.Listing
import Scriptlet.Tree
import Scriptlet.Tree.Parser
import Scriptlet.Tree.Walk
import Scriptlet.Ty
import Scriptlet.Value
import Scriptlet.Value.Arithmetic
import Scriptlet.Value.Cast
import Scriptlet.Proofs.Evolution
import Scriptlet.Proofs.Bound
import Scriptlet.Proofs.Effects
import Scriptlet.Proofs.Elimination
import Scriptlet.Proofs.Faithful
import Scriptlet.Proofs.Invariant
import Scriptlet.Proofs.Outcome
import Scriptlet.Proofs.Grammar
import Scriptlet.Proofs.Reading
import Scriptlet.Proofs.Writing
import Scriptlet.Proofs.Accepting
import Scriptlet.Proofs.Ambiguity
import Scriptlet.Proofs.Printing
import Scriptlet.Proofs.RoundTrip
import Scriptlet.Proofs.Lockstep
import Scriptlet.Proofs.Lexing
import Scriptlet.Proofs.Consecutive
import Scriptlet.Proofs.Lines
import Scriptlet.Proofs.Simplified
import Scriptlet.Proofs.Prompt
import Scriptlet.Proofs.Termination
import Scriptlet.Proofs.Output
import Scriptlet.Proofs.Lexicon
import Scriptlet.Proofs.Progress
import Scriptlet.Proofs.Recovery
import Scriptlet.Proofs.Coupling
import Scriptlet.Proofs.Rewriting
import Scriptlet.Proofs.Folding
import Scriptlet.Proofs.Integers
import Scriptlet.Proofs.SelfUpdating
import Scriptlet.Proofs.Numbering
import Scriptlet.Proofs.Pruning
import Scriptlet.Proofs.Survival
import Scriptlet.Proofs.FreshIds
import Scriptlet.Proofs.Resolution
import Scriptlet.Proofs.Truncation
import Scriptlet.Proofs.Conversion
import Scriptlet.Proofs.Origins
import Scriptlet.Proofs.Calls
import Scriptlet.Proofs.ExactValue
import Scriptlet.Proofs.Drawing
import Scriptlet.Proofs.Respelling
import Scriptlet.Proofs.Parallel
import Scriptlet.Proofs.Uncommenting
import Scriptlet.Proofs.Separators
import Scriptlet.Proofs.Abreast
import Scriptlet.Proofs.InPace
import Scriptlet.Proofs.Stripping
import Scriptlet.Proofs.Comments
