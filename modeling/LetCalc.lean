import LetCalc.CommandLine.Command
import LetCalc.Main
import LetCalc.Parser
import LetCalc.Proofs.Parser.Correctness
import LetCalc.Proofs.Session.Persistence
import LetCalc.Proofs.Token.Longest
import LetCalc.Proofs.Token.Scanning
import LetCalc.Proofs.Grammar.Extension
import LetCalc.Proofs.Evaluation.Effect
import LetCalc.Proofs.Session.Joining
import LetCalc.Proofs.Decimal.Layout
import LetCalc.Proofs.Json.RoundTrip
import LetCalc.Proofs.Node.Document
import LetCalc.Proofs.Json.Lines
import LetCalc.Proofs.Text.Utf8
import LetCalc.Proofs.CommandLine.Disk
import LetCalc.Proofs.CommandLine.Options
import LetCalc.Proofs.CommandLine.Emission
import LetCalc.Proofs.Evaluation.Relation
import LetCalc.Proofs.Scope.Lookup
import LetCalc.Proofs.Evaluation.Agreement
import LetCalc.Proofs.Evaluation.Trace
import LetCalc.Proofs.Evaluation.Locality
import LetCalc.Proofs.Evaluation.Faults
import LetCalc.Proofs.Parser.Spans
import LetCalc.Proofs.CommandLine.Turns
import LetCalc.Proofs.CommandLine.Lines
import LetCalc.Proofs.CommandLine.DebugFile
import LetCalc.Proofs.CommandLine.Documents
import LetCalc.Proofs.Token.Listing
import LetCalc.Proofs.Node.Source
import LetCalc.Proofs.CommandLine.Scripts
import LetCalc.Proofs.Scope.Visibility
import LetCalc.Proofs.Evaluation.Declarations
import LetCalc.Proofs.Parser.Respacing
import LetCalc.Proofs.Session.Precedence
import LetCalc.Proofs.Evaluation.Chains
import LetCalc.Proofs.Parser.Failures
import LetCalc.Proofs.Session.Reading
import LetCalc.Proofs.Decimal.Overflow
import LetCalc.Proofs.Result
import LetCalc.Proofs.Node.Loading
import LetCalc.Proofs.Node.Rejection
import LetCalc.Proofs.Decimal.Nearest
import LetCalc.Proofs.Node.Literals
import LetCalc.Proofs.Parser.Progress
