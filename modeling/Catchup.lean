import Catchup.Cluster.Run
import Catchup.Runner.Schedule
import Catchup.Settings.Toml
import Catchup.Wire.Format
import Catchup.Wire.Text
import Catchup.Proofs.Synchronizer.Transition
import Catchup.Proofs.Synchronizer.Run
import Catchup.Proofs.Synchronizer.Invariant
import Catchup.Proofs.Synchronizer.Wakeup
import Catchup.Proofs.Synchronizer.Stranded
import Catchup.Proofs.Synchronizer.PeerControl
import Catchup.Proofs.Synchronizer.Requests
import Catchup.Proofs.Synchronizer.Pursuit
import Catchup.Proofs.Synchronizer.Stale
import Catchup.Proofs.Ledger.Representation
import Catchup.Proofs.Verification
import Catchup.Proofs.StatusCheck
import Catchup.Proofs.Synchronizer.Check
import Catchup.Proofs.Ledger.Built
import Catchup.Proofs.Ledger.Serving
import Catchup.Proofs.Ledger.Binding
import Catchup.Proofs.Synchronizer.Commit
import Catchup.Proofs.Cluster.Step
import Catchup.Proofs.Cluster.Effect
import Catchup.Proofs.Cluster.Reached
import Catchup.Proofs.Cluster.Timetable
import Catchup.Proofs.Cluster.Clock
import Catchup.Proofs.Cluster.Honesty
import Catchup.Proofs.Cluster.Agreement
import Catchup.Proofs.Head
import Catchup.Proofs.Cluster.Heads
import Catchup.Proofs.Cluster.Advertising
import Catchup.Proofs.Cluster.Exchange
import Catchup.Proofs.Cluster.Forgery
import Catchup.Proofs.Cluster.Bans
import Catchup.Proofs.Cluster.Spread
import Catchup.Proofs.Cluster.Undisturbed
import Catchup.Proofs.Cluster.CatchUp
import Catchup.Proofs.Cluster.Best
import Catchup.Proofs.Candidates
import Catchup.Proofs.Synchronizer.Turns
import Catchup.Proofs.Synchronizer.Forward
import Catchup.Proofs.Synchronizer.Decision
import Catchup.Proofs.Runner.Turn
import Catchup.Proofs.Runner.Views
import Catchup.Proofs.Runner.Course
import Catchup.Proofs.Ledger.Leftover
import Catchup.Proofs.Submission
import Catchup.Proofs.Synchronizer.Retry
import Catchup.Proofs.Rotation
import Catchup.Proofs.Synchronizer.Rounds
import Catchup.Proofs.Announcements
import Catchup.Proofs.Synchronizer.Counting
import Catchup.Proofs.Timers
import Catchup.Proofs.Cluster.Agenda
import Catchup.Proofs.Cluster.Ending
import Catchup.Proofs.TokenBucket
import Catchup.Proofs.Settings
import Catchup.Proofs.Synchronizer.Delays
import Catchup.Proofs.Ledger.History
import Catchup.Proofs.Wire.RoundTrip
