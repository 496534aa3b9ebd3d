import LogBarrier.Augmented.Points
import LogBarrier.Double.Product
import LogBarrier.Double.Read
import LogBarrier.Exact.Vector
import LogBarrier.Observer
import LogBarrier.Options.Document
import LogBarrier.Proofs.Backtracking
import LogBarrier.Proofs.ClosedForm
import LogBarrier.Proofs.Counters
import LogBarrier.Proofs.Curvature
import LogBarrier.Proofs.Cut
import LogBarrier.Proofs.Damping
import LogBarrier.Proofs.Derivatives
import LogBarrier.Proofs.Differences
import LogBarrier.Proofs.Eliminated.Run
import LogBarrier.Proofs.Evaluations
import LogBarrier.Proofs.Falling
import LogBarrier.Proofs.Flag
import LogBarrier.Proofs.Forgetting
import LogBarrier.Proofs.Held
import LogBarrier.Proofs.Honest
import LogBarrier.Proofs.Insetting
import LogBarrier.Proofs.Inside
import LogBarrier.Proofs.Interrupted
import LogBarrier.Proofs.Minimal
import LogBarrier.Proofs.Outcome
import LogBarrier.Proofs.Progress
import LogBarrier.Proofs.Projection
import LogBarrier.Proofs.Reflected.Run
import LogBarrier.Proofs.Retry
import LogBarrier.Proofs.Defined.Domains
import LogBarrier.Proofs.Settings
import LogBarrier.Proofs.Starts
import LogBarrier.Proofs.Streaks
import LogBarrier.Proofs.Table
import LogBarrier.Proofs.Unrecorded
import LogBarrier.Proofs.Verdict
import LogBarrier.Proofs.Window
import LogBarrier.Run
