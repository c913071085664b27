import Inlay.Main
import Inlay.Proofs.Clean.Accounting
import Inlay.Proofs.Clean.Restoring
import Inlay.Proofs.Clean.Sources
import Inlay.Proofs.CommandLine.Settings
import Inlay.Proofs.CommandLine.Status
import Inlay.Proofs.Compile.Confinement
import Inlay.Proofs.Compile.Copying
import Inlay.Proofs.Compile.Isolation
import Inlay.Proofs.Compile.MirroredTree
import Inlay.Proofs.Compile.Order
import Inlay.Proofs.Compile.Overwriting
import Inlay.Proofs.Compile.Rejection
import Inlay.Proofs.Fragment.Concatenation
import Inlay.Proofs.Fragment.Rewriting
import Inlay.Proofs.Fragment.Scan
import Inlay.Proofs.Logging.Renewal
import Inlay.Proofs.Walk.Aborted
import Inlay.Proofs.Watch.Agreement
import Inlay.Proofs.Watch.Lasting
import Inlay.Proofs.Fragment.Reversal
import Inlay.Proofs.Settings.Lenient
import Inlay.Proofs.Settings.Modes
import Inlay.Proofs.Clean.Again
import Inlay.Proofs.Settings.Loading
import Inlay.Proofs.Watch.Contained
import Inlay.Proofs.Compile.Places
import Inlay.Proofs.Watch.SingleFile
import Inlay.Proofs.Compile.SingleFile
import Inlay.Proofs.Command.ReportedFailures
import Inlay.Proofs.Compiler.Answers
import Inlay.Proofs.Compile.Lookups
