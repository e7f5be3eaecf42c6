import Catchup.Synchronizer.Basic
import Catchup.Verification

/-! How the synchronizer reacts to each input.

From idle, a status check or an advertisement can start a pursuit; a pursuit goes on, one request
at a time, until the ledger has reached its target. `handle` takes one input and is all that the
surroundings call. -/

set_option autoImplicit false

namespace Catchup.Synchronizer

/-- Go on with a pursuit: end it at its target, wait for the request that is out, or ask the next
candidate that is still in the directory. -/
def pursue (directory : Directory) (synchronizer : Synchronizer) (pursuit : Pursuit) :
    Except Fault Reaction :=
  if pursuit.isSynced then .ok (synchronizer.enter (.idle pursuit.head)).quietly
  else if pursuit.isWaiting then .ok (synchronizer.enter (.syncing pursuit)).quietly
  else
    let candidates := (pursuit.candidates.retain directory.has).2
    match candidates.fetchNext with
    | none => .ok (synchronizer.enter (.syncing { pursuit with candidates })).quietly
    | some (peer, candidates) => do
      let id := synchronizer.nextRequest
      let nextRequest ← id.next
      let asked ← { pursuit with candidates }.withPending peer id
      return {
        synchronizer := { synchronizer.enter (.syncing asked) with nextRequest }
        outputs := [.sendSyncRequest peer ⟨pursuit.head, id⟩,
          .schedule (.request peer id) synchronizer.settings.requestTimeout]
        metrics := [.requestSent] }

/-- The peers that a status check asks, and where the next limited one starts. -/
def checkWindow (directory : Directory) (synchronizer : Synchronizer) :
    Except Fault (List PeerId × Nat) :=
  let peers := directory.peers
  match synchronizer.settings.checkLimit with
  | some limit =>
    if limit < peers.length then
      let offset := synchronizer.checkOffset % peers.length
      if offset + limit < UInt64.size then
        .ok ((peers.rotateLeft offset).take limit, offset + limit)
      else .error .additionOverflow
    else .ok (peers, synchronizer.checkOffset)
  | none => .ok (peers, synchronizer.checkOffset)

/-- Start a status check unless something else is going on or there is no one to ask. -/
def onCheckDue (directory : Directory) (synchronizer : Synchronizer) : Except Fault Reaction :=
  match synchronizer.phase with
  | .idle head => do
    let (asked, checkOffset) ← synchronizer.checkWindow directory
    if asked.isEmpty then .ok { synchronizer with checkOffset }.quietly
    else do
      let number ← increment synchronizer.lastCheck
      return {
        synchronizer := { synchronizer with
          phase := .checking (.ofPeers number head asked), lastCheck := number, checkOffset }
        outputs := asked.map .sendStatusRequest ++
          [.schedule (.statusWindow number) synchronizer.settings.statusWindow]
        metrics := [.statusRequestsSent asked.length] }
  | _ => .ok synchronizer.quietly

/-- Decide by the answers at hand: pursue the best one if it is ahead, asking the peer that gave it
and then the others that gave the same version. -/
def finishCheck (directory : Directory) (synchronizer : Synchronizer) (check : StatusCheck) :
    Except Fault Reaction :=
  let idle := (synchronizer.enter (.idle check.head)).quietly
  let decided : Except Fault Reaction := match check.best? with
    | none => .ok idle
    | some (chosen, target) =>
      if target.isAheadOf check.head then
        let others := (check.peersAt target.version).filter (· ≠ chosen)
        synchronizer.pursue directory (.ofPeers check.head (chosen :: others) target)
      else .ok idle
  decided.map fun reaction => reaction.counting (.checkCompleted check.answers.length)

def onStatusResponse (directory : Directory) (synchronizer : Synchronizer) (peer : PeerId)
    (header : Header) : Except Fault Reaction :=
  match synchronizer.phase with
  | .checking check =>
    if check.isWaitingFor peer then
      let check := check.record peer header
      if check.isComplete then synchronizer.finishCheck directory check
      else .ok (synchronizer.enter (.checking check)).quietly
    else .ok synchronizer.quietly
  | _ => .ok synchronizer.quietly

def onStatusWindowClosed (directory : Directory) (synchronizer : Synchronizer) (number : UInt64) :
    Except Fault Reaction :=
  match synchronizer.phase with
  | .checking check =>
    if check.number = number then synchronizer.finishCheck directory check
    else .ok synchronizer.quietly
  | _ => .ok synchronizer.quietly

/-- Only the request that is out can time out; its peer goes to the back of the queue. -/
def onRequestTimedOut (directory : Directory) (synchronizer : Synchronizer) (peer : PeerId)
    (id : RequestId) : Except Fault Reaction :=
  match synchronizer.phase with
  | .syncing pursuit =>
    if pursuit.pending = some ⟨peer, id⟩ then do
      let candidates := (pursuit.candidates.rotatePast peer).2
      let freed ← { pursuit with candidates }.clearPending
      let reaction ← synchronizer.pursue directory freed
      return reaction.counting .requestTimedOut
    else .ok synchronizer.quietly
  | _ => .ok synchronizer.quietly

/-- What a judged response leads to. An accepted one frees the request; its commit is reported
later, and a timer watches over that. -/
def onVerdict (synchronizer : Synchronizer) (pursuit : Pursuit) (peer : PeerId) :
    Verdict → Except Fault Reaction
  | .unsolicited reason =>
    .ok ⟨synchronizer, [], [.responseUnsolicited reason.label]⟩
  | .malicious reason =>
    .ok ⟨synchronizer, [.ban peer reason synchronizer.settings.banDuration],
      [.peerBanned reason.label]⟩
  | .accepted => do
    let freed ← if pursuit.isWaiting then pursuit.clearPending else .ok pursuit
    return {
      synchronizer := synchronizer.enter (.syncing freed)
      outputs := [.prioritize peer,
        .schedule (.commit pursuit.head.version) synchronizer.settings.commitTimeout]
      metrics := [.responseAccepted] }

def onLedgerUpdate (directory : Directory) (synchronizer : Synchronizer) (header : Header) :
    Except Fault Reaction :=
  if header.isAheadOf synchronizer.head then
    match synchronizer.phase with
    | .syncing pursuit => synchronizer.pursue directory (pursuit.withHead header)
    | phase => .ok (synchronizer.enter (phase.withHead header)).quietly
  else .ok synchronizer.quietly

def onCommitOverdue (directory : Directory) (synchronizer : Synchronizer) (expected : Version) :
    Except Fault Reaction :=
  match synchronizer.phase with
  | .syncing pursuit =>
    if expected < pursuit.head.version then .ok synchronizer.quietly
    else (synchronizer.pursue directory pursuit).map fun reaction =>
      reaction.counting .commitOverdue
  | _ => .ok synchronizer.quietly

/-- An advertisement starts a pursuit, or raises the target of one; it counts only if it comes from
the directory and is ahead. -/
def onAdvertisement (directory : Directory) (synchronizer : Synchronizer) (peer : PeerId)
    (header : Header) : Except Fault Reaction :=
  if directory.has peer then
    match synchronizer.phase with
    | .idle head =>
      if header.isAheadOf head then
        synchronizer.pursue directory (.ofPeers head [peer] header)
      else .ok synchronizer.quietly
    | .syncing pursuit =>
      if header.isAheadOf pursuit.target then
        synchronizer.pursue directory ((pursuit.withTarget header).withCandidate peer)
      else .ok synchronizer.quietly
    | .checking _ => .ok synchronizer.quietly
  else .ok synchronizer.quietly

/-- A local request replaces whatever is going on. -/
def onLocalRequest (directory : Directory) (synchronizer : Synchronizer) (target : Header)
    (peers : List PeerId) : Except Fault Reaction :=
  if target.isAheadOf synchronizer.head then
    synchronizer.pursue directory (.ofPeers synchronizer.head peers target)
  else .ok (synchronizer.enter synchronizer.phase.toIdle).quietly

/-- The reaction to an input that no judge is needed for; sync responses leave no trace here. -/
def react (directory : Directory) (synchronizer : Synchronizer) : Input → Except Fault Reaction
  | .checkDue => synchronizer.onCheckDue directory
  | .statusResponse peer header => synchronizer.onStatusResponse directory peer header
  | .statusWindowClosed number => synchronizer.onStatusWindowClosed directory number
  | .requestTimedOut peer id => synchronizer.onRequestTimedOut directory peer id
  | .syncResponse _ _ => .ok synchronizer.quietly
  | .ledgerUpdate header => synchronizer.onLedgerUpdate directory header
  | .commitOverdue version => synchronizer.onCommitOverdue directory version
  | .advertisement peer header => synchronizer.onAdvertisement directory peer header
  | .localRequest target peers => synchronizer.onLocalRequest directory target peers

variable {σ : Type}

/-- Take one input. The judge is asked about a sync response while a pursuit is on, and about
nothing else; every step ends with the versions it led to. -/
def handle (judge : Judge σ) (directory : Directory) (store : σ) (synchronizer : Synchronizer)
    (input : Input) : Except Fault (Reaction × σ) :=
  let step := match input, synchronizer.phase with
    | .syncResponse peer extension, .syncing pursuit =>
      let (verdict, store) := judge pursuit peer extension store
      (synchronizer.onVerdict pursuit peer verdict).map fun reaction => (reaction, store)
    | input, _ => (synchronizer.react directory input).map fun reaction => (reaction, store)
  step.map fun (reaction, store) => (reaction.withVersions, store)

end Catchup.Synchronizer
