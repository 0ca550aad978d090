import Frontend.Text.Quoted
import Frontend.Text.Line
import Frontend.Position
import Frontend.Record
import Frontend.Main
import Frontend.Parse.Session
import Frontend.Report
import Frontend.Token.Cursor
import Frontend.Tree.Equality
import Frontend.Tree.Printer
import Frontend.Proofs.Parse.Candor
import Frontend.Proofs.Parse.Composition
import Frontend.Proofs.Parse.Conservation
import Frontend.Proofs.Parse.Path
import Frontend.Proofs.Parse.Reprint
import Frontend.Proofs.Parse.RoundTrip
import Frontend.Proofs.Token.Partition
import Frontend.Proofs.Token.Blanks
import Frontend.Proofs.Parse.Order
import Frontend.Proofs.Parse.Bounds
import Frontend.Proofs.Parse.Meaning
import Frontend.Proofs.Parse.Recovery
import Frontend.Proofs.Parse.Conditional
import Frontend.Proofs.Token.Munch
import Frontend.Proofs.CommandLine.Outcome
import Frontend.Proofs.Parse.Attribution
import Frontend.Proofs.Parse.Unclosed
import Frontend.Proofs.Text.Line
import Frontend.Proofs.Token.Respelling
import Frontend.Proofs.Report
import Frontend.Proofs.Parse.Faults
import Frontend.Proofs.Parse.Number
import Frontend.Proofs.CommandLine.Written
import Frontend.Proofs.Grammar.Registration
import Frontend.Proofs.Parse.Ending
import Frontend.Proofs.Token.Suffix
