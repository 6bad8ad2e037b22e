import Runbook.Main
import Runbook.Proofs.Number.Remainder
import Runbook.Proofs.Expr.Division
import Runbook.Proofs.Expr.Ending
import Runbook.Proofs.Expr.Splitting
import Runbook.Proofs.Script.RoundTrip
import Runbook.Proofs.Data.Selecting
import Runbook.Proofs.Machine.Restoring
import Runbook.Proofs.Run.Variables
import Runbook.Proofs.Run.Routes
import Runbook.Proofs.Run.Lexical
import Runbook.Proofs.Run.Finally
import Runbook.Proofs.Run.Cascade
import Runbook.Proofs.Run.Locals
import Runbook.Proofs.Run.Refused
import Runbook.Proofs.Comments.Unseen
import Runbook.Proofs.Structured.Refinement
