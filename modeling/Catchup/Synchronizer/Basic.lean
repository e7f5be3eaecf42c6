import Catchup.Message
import Catchup.Metric
import Catchup.Phase
import Catchup.Settings.Basic
import Catchup.Verdict

/-! The synchronizer of a node: its state, what it takes in, and what it asks for.

It does nothing itself. Every effect is an output for its surroundings to carry out, and every timer
carries what is needed to tell whether it still matters when it expires. -/

set_option autoImplicit false

namespace Catchup

inductive Timeout where
  | statusWindow (check : UInt64)
  | request (peer : PeerId) (id : RequestId)
  /-- The commit of an accepted extension has not been reported. -/
  | commit (version : Version)
  deriving DecidableEq, Repr

inductive Input where
  | checkDue
  | statusResponse (peer : PeerId) (header : Header)
  | statusWindowClosed (check : UInt64)
  | requestTimedOut (peer : PeerId) (id : RequestId)
  | syncResponse (peer : PeerId) (extension : Extension)
  /-- The own ledger has committed up to the header. -/
  | ledgerUpdate (header : Header)
  | commitOverdue (version : Version)
  /-- A peer tells of its header without being asked. -/
  | advertisement (peer : PeerId) (header : Header)
  /-- Someone on this node knows a header to reach and peers that hold it. -/
  | localRequest (target : Header) (peers : List PeerId)
  deriving DecidableEq, Repr

def Timeout.input : Timeout → Input
  | .statusWindow check => .statusWindowClosed check
  | .request peer id => .requestTimedOut peer id
  | .commit version => .commitOverdue version

inductive Output where
  | sendStatusRequest (peer : PeerId)
  | sendSyncRequest (peer : PeerId) (request : SyncRequest)
  /-- Deliver the input of the timeout after the delay. -/
  | schedule (timeout : Timeout) (delay : Nat)
  | ban (peer : PeerId) (reason : Misconduct) (duration : Nat)
  | prioritize (peer : PeerId)
  deriving DecidableEq, Repr

structure Synchronizer where
  settings : Settings
  phase : Phase
  nextRequest : RequestId
  lastCheck : UInt64
  /-- Where the next limited status check starts among the peers. -/
  checkOffset : Nat
  deriving Repr

structure Reaction where
  synchronizer : Synchronizer
  outputs : List Output
  metrics : List Metric
  deriving Repr

namespace Synchronizer

/-- Idle at the given header, with nothing asked yet. -/
def start (settings : Settings) (head : Header) : Synchronizer :=
  { settings, phase := .idle head, nextRequest := ⟨1⟩, lastCheck := 0, checkOffset := 0 }

def head (synchronizer : Synchronizer) : Header := synchronizer.phase.head

def status (synchronizer : Synchronizer) : Status := .ofPhase synchronizer.phase

def isSyncing (synchronizer : Synchronizer) : Bool := synchronizer.phase.pursuit?.isSome

def enter (synchronizer : Synchronizer) (phase : Phase) : Synchronizer :=
  { synchronizer with phase }

def quietly (synchronizer : Synchronizer) : Reaction := ⟨synchronizer, [], []⟩

end Synchronizer

namespace Reaction

/-- Count something that came before the rest. -/
def counting (reaction : Reaction) (metric : Metric) : Reaction :=
  { reaction with metrics := metric :: reaction.metrics }

/-- The versions at the end of a step: where there is no target, the current one stands for it. -/
def versions (reaction : Reaction) : Metric :=
  let current := reaction.synchronizer.head.version
  match reaction.synchronizer.phase with
  | .syncing pursuit => .versions current pursuit.target.version true
  | _ => .versions current current false

def withVersions (reaction : Reaction) : Reaction :=
  { reaction with metrics := reaction.metrics ++ [reaction.versions] }

end Reaction

end Catchup
