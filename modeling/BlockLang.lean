import BlockLang.Eval.Program
import BlockLang.Main
import BlockLang.Parser.Script
import BlockLang.Scopes.Script
import BlockLang.Token.Stream.Call
import BlockLang.Proofs.Ends
import BlockLang.Proofs.Cursor
import BlockLang.Proofs.Phrase
import BlockLang.Proofs.Parser.Sound
import BlockLang.Proofs.Parser.Complete
import BlockLang.Proofs.Parser.Accepted
import BlockLang.Proofs.Regroup
import BlockLang.Proofs.Resolved
import BlockLang.Proofs.Rightward
import BlockLang.Proofs.Groupings
import BlockLang.Proofs.Delimited
import BlockLang.Proofs.SourceOrder
import BlockLang.Proofs.Lexer.Spaced
import BlockLang.Proofs.Normal
import BlockLang.Proofs.RoundTrip
import BlockLang.Proofs.Eval.Effect
import BlockLang.Proofs.Eval.Reference
import BlockLang.Proofs.Parser.Turns
import BlockLang.Proofs.Lexer.Append
import BlockLang.Proofs.Parser.Behind
import BlockLang.Proofs.Parser.Coupled
import BlockLang.Proofs.Parser.InStep
import BlockLang.Proofs.Resolver.Depth
import BlockLang.Proofs.Parser.Append
import BlockLang.Proofs.Parser.Alike
import BlockLang.Proofs.Resolver.Delay
import BlockLang.Proofs.Parser.Assigned
import BlockLang.Proofs.Lexer.Blank
import BlockLang.Proofs.Resolver.Adjacent
import BlockLang.Proofs.Parser.Above
import BlockLang.Proofs.Parser.Trailing
import BlockLang.Proofs.Eval.Range
import BlockLang.Proofs.Eval.Program
import BlockLang.Proofs.Session
import BlockLang.Proofs.Session.Calls
import BlockLang.Proofs.Lexer.Braces
import BlockLang.Proofs.Shell
import BlockLang.Proofs.Session.Chunks
import BlockLang.Proofs.Command
import BlockLang.Proofs.Stream.Machine
import BlockLang.Proofs.Parser.Closed
import BlockLang.Proofs.Parser.Recorded
import BlockLang.Proofs.Parser.Backtrack
import BlockLang.Proofs.Eval.Visible
import BlockLang.Proofs.Scopes.Acyclic
import BlockLang.Proofs.Lexer.Partition
import BlockLang.Proofs.Parser.Safety
import BlockLang.Proofs.Trim
import BlockLang.Proofs.Shell.Commands
import BlockLang.Proofs.Lexer.Open
import BlockLang.Proofs.Session.Runs
import BlockLang.Proofs.Shell.Lines
import BlockLang.Proofs.Lexer.Boundary
import BlockLang.Proofs.Parser.Dispatch
import BlockLang.Proofs.Parser.Pinned
import BlockLang.Proofs.Parser.Reported
import BlockLang.Proofs.Parser.Spot
import BlockLang.Proofs.Parser.Layout
import BlockLang.Proofs.Parser.Diagnosis
import BlockLang.Proofs.Eval.Scoped
import BlockLang.Proofs.Eval.LastBinding
import BlockLang.Proofs.Eval.Arithmetic
import BlockLang.Proofs.Session.Division
import BlockLang.Proofs.Session.LineEnds
import BlockLang.Proofs.Parser.Balanced
import BlockLang.Proofs.Printed
import BlockLang.Proofs.Resolver.PostOrder
