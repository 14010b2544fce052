import SignIn.Address
import SignIn.CommandLine.Run
import SignIn.DateTime
import SignIn.Diagnostic
import SignIn.Main
import SignIn.Match.Json
import SignIn.Match.Parse
import SignIn.Match.Tally
import SignIn.Match.Trace
import SignIn.Match.Tree
import SignIn.Message.Json
import SignIn.Message.Parser
import SignIn.Message.Printer
import SignIn.Message.Watch
import SignIn.Uri.Json
import SignIn.Uri.Matcher
import SignIn.Proofs.Match.Slices
import SignIn.Proofs.Expr.Simulation
import SignIn.Proofs.Expr.Meaning
import SignIn.Proofs.Rules.Bundled
import SignIn.Proofs.Message.Cut
import SignIn.Proofs.Expr.Alphabet
import SignIn.Proofs.Rules.Fields
import SignIn.Proofs.Rules.DateTime
import SignIn.Proofs.Message.Address
import SignIn.Proofs.Text.Numerals
import SignIn.Proofs.Message.Valid
import SignIn.Proofs.Message.RoundTrip
import SignIn.Proofs.Message.Contract
import SignIn.Proofs.Message.Faults
import SignIn.Proofs.Match.Termination
import SignIn.Proofs.Match.Watchers
import SignIn.Proofs.Match.Forest
import SignIn.Proofs.CommandLine.Pipeline
import SignIn.Proofs.Uri.Accepts
import SignIn.Proofs.Uri.Groups
import SignIn.Proofs.Uri.Parts
import SignIn.Proofs.Message.Missing
import SignIn.Proofs.Keccak.Sponge
import SignIn.Proofs.Message.Policies
import SignIn.Proofs.Match.Calls
import SignIn.Proofs.Match.Discipline
import SignIn.Proofs.Match.Reach
import SignIn.Proofs.Message.Reach
import SignIn.Proofs.Keccak.Permutation
import SignIn.Proofs.Message.Casing
import SignIn.Proofs.Rules.Calendar
import SignIn.Proofs.Grammar.Flattening
import SignIn.Proofs.Grammar.Validation
import SignIn.Proofs.Match.Reuse
import SignIn.Proofs.Match.Traces
import SignIn.Proofs.Match.Behind
