import Catchup.Ledger.Header
import Catchup.PeerSet

/-! A status check: which peers have been asked for their header and what they have answered. -/

set_option autoImplicit false

namespace Catchup

structure StatusCheck where
  head : Header
  /-- Tells the end of this check's window from those of earlier checks. -/
  number : UInt64
  waitingFor : PeerSet
  /-- In order of arrival. -/
  answers : List (PeerId × Header)
  deriving DecidableEq, Repr

namespace StatusCheck

def ofPeers (number : UInt64) (head : Header) (peers : List PeerId) : StatusCheck :=
  ⟨head, number, .ofList peers, []⟩

def isWaitingFor (check : StatusCheck) (peer : PeerId) : Bool := check.waitingFor.contains peer

def isComplete (check : StatusCheck) : Bool := check.waitingFor.isEmpty

/-- Take the answer of a peer that was asked and has not answered yet; others do not count. -/
def record (check : StatusCheck) (peer : PeerId) (header : Header) : StatusCheck :=
  if check.isWaitingFor peer then
    { check with
      waitingFor := check.waitingFor.erase peer
      answers := check.answers ++ [(peer, header)] }
  else check

theorem isWaitingFor_iff {check : StatusCheck} {peer : PeerId} :
    check.isWaitingFor peer = true ↔ peer ∈ check.waitingFor.toList := PeerSet.contains_iff

theorem isComplete_iff {check : StatusCheck} :
    check.isComplete = true ↔ check.waitingFor.toList = [] := List.isEmpty_iff

theorem record_of_waiting {check : StatusCheck} {peer : PeerId} {header : Header}
    (waiting : check.isWaitingFor peer = true) :
    check.record peer header = { check with
      waitingFor := check.waitingFor.erase peer, answers := check.answers ++ [(peer, header)] } :=
  if_pos waiting

theorem record_of_not_waiting {check : StatusCheck} {peer : PeerId} {header : Header}
    (strange : check.isWaitingFor peer = false) : check.record peer header = check := by
  simp [record, strange]

/-- Of two answers the later one counts only if it is strictly higher. -/
def better (best : Option (PeerId × Header)) (answer : PeerId × Header) :
    Option (PeerId × Header) :=
  match best with
  | some held => if answer.2.isAheadOf held.2 then some answer else some held
  | none => some answer

/-- The highest answer; of equally high ones the earliest. -/
def best? (check : StatusCheck) : Option (PeerId × Header) := check.answers.foldl better none

def peersAt (check : StatusCheck) (version : Version) : List PeerId :=
  (check.answers.filter fun answer => answer.2.version = version).map (·.1)

end StatusCheck

end Catchup
