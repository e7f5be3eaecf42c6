import Catchup.Pursuit
import Catchup.StatusCheck

/-! The phases of a node that follows its peers: idle, checking their status, or syncing. -/

set_option autoImplicit false

namespace Catchup

inductive Phase where
  | idle (head : Header)
  | checking (check : StatusCheck)
  | syncing (pursuit : Pursuit)
  deriving DecidableEq, Repr

inductive PhaseKind where
  | idle
  | checking
  | syncing
  deriving DecidableEq, Repr

def PhaseKind.name : PhaseKind → String
  | .idle => "idle"
  | .checking => "checking_status"
  | .syncing => "syncing"

namespace Phase

def kind : Phase → PhaseKind
  | .idle _ => .idle
  | .checking _ => .checking
  | .syncing _ => .syncing

theorem kind_eq_idle_iff {phase : Phase} : phase.kind = .idle ↔ ∃ head, phase = .idle head := by
  cases phase <;> simp [kind]

theorem kind_eq_syncing_iff {phase : Phase} :
    phase.kind = .syncing ↔ ∃ pursuit, phase = .syncing pursuit := by
  cases phase <;> simp [kind]

/-- The header of the own ledger, as far as it has been reported. -/
def head : Phase → Header
  | .idle head => head
  | .checking check => check.head
  | .syncing pursuit => pursuit.head

def withHead (phase : Phase) (head : Header) : Phase :=
  match phase with
  | .idle _ => .idle head
  | .checking check => .checking { check with head }
  | .syncing pursuit => .syncing (pursuit.withHead head)

@[simp] theorem head_withHead (phase : Phase) (head : Header) :
    (phase.withHead head).head = head := by
  cases phase <;> rfl

@[simp] theorem kind_withHead (phase : Phase) (head : Header) :
    (phase.withHead head).kind = phase.kind := by
  cases phase <;> rfl

/-- Give up whatever the phase was about; the head stays. -/
def toIdle (phase : Phase) : Phase := .idle phase.head

def pursuit? : Phase → Option Pursuit
  | .syncing pursuit => some pursuit
  | _ => none

def check? : Phase → Option StatusCheck
  | .checking check => some check
  | _ => none

end Phase

/-- What a node tells about its phase. -/
structure Status where
  kind : PhaseKind
  current : Version
  target : Option Version
  /-- Versions between the head and the target. -/
  behind : Nat
  candidateCount : Nat
  pending : Option PendingRequest
  deriving DecidableEq, Repr

namespace Status

/-- Nothing committed and nothing going on. -/
def initial : Status := ⟨.idle, .zero, none, 0, 0, none⟩

def ofPhase : Phase → Status
  | .syncing pursuit =>
    { kind := .syncing, current := pursuit.head.version, target := some pursuit.target.version
      behind := pursuit.target.version.distance pursuit.head.version
      candidateCount := pursuit.candidates.size, pending := pursuit.pending }
  | phase => { initial with kind := phase.kind, current := phase.head.version }

end Status

end Catchup
