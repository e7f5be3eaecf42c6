import Catchup.Ledger.Store
import Catchup.Pursuit
import Catchup.Verdict

/-! Judging a sync response.

The checks run in this order: is it what the pending request asked for; does it carry transactions
that bridge its two versions; does the proof at its end hold; does the ledger commit it. The first
check that fails decides, and only the last one changes the store. -/

set_option autoImplicit false

namespace Catchup

/-- How a response is judged, given what the node is after; judging may change a store. -/
abbrev Judge (σ : Type) := Pursuit → PeerId → Extension → σ → Verdict × σ

structure Proofs where
  hasQuorum : Header → Bool
  signaturesMatch : Header → Bool

def Proofs.trusting : Proofs := ⟨fun _ => true, fun _ => true⟩

abbrev Committer (σ : Type) := Extension → σ → Except Refusal Unit × σ

/-- Commit to a ledger; it stays as it is when it refuses. -/
def Ledger.committer : Committer Ledger := fun extension ledger =>
  match ledger.commit extension with
  | .ok committed => (.ok (), committed)
  | .error refusal => (.error refusal, ledger)

namespace Verification

/-- The response has to come from the peer that was asked, and to start at the current version. -/
def checkSolicited (pursuit : Pursuit) (peer : PeerId) (extension : Extension) :
    Except Unsolicited Unit :=
  match pursuit.pending with
  | none => .error .nothingPending
  | some pending =>
    if pending.peer ≠ peer then .error (.otherSender pending.peer peer)
    else if extension.start.version ≠ pursuit.head.version then
      .error (.startsElsewhere extension.start.version pursuit.head.version)
    else .ok ()

/-- The transactions have to bridge the two headers, and the proof of the second has to hold. -/
def checkProof (proofs : Proofs) (extension : Extension) : Except Misconduct Unit :=
  if extension.transactions.isEmpty then .error .emptyResponse
  else if extension.impliedVersion ≠ extension.finish.version then
    .error (.inconsistentCount extension.start.version extension.transactions.length
      extension.finish.version)
  else if !proofs.hasQuorum extension.finish then
    .error (.insufficientQuorum extension.finish.version)
  else if !proofs.signaturesMatch extension.finish then
    .error (.signatureMismatch extension.finish.version)
  else .ok ()

/-- A ledger that has moved on says nothing about the sender; its other refusals do. -/
def ofRefusal : Refusal → Verdict
  | .startsElsewhere start head => .unsolicited (.startsElsewhere start head)
  | .unparseableTransaction index => .malicious (.unparseableTransaction index)
  | .accumulatorMismatch expected computed => .malicious (.accumulatorMismatch expected computed)

def judge {σ : Type} (proofs : Proofs) (commit : Committer σ) : Judge σ :=
  fun pursuit peer extension store =>
    match checkSolicited pursuit peer extension with
    | .error reason => (.unsolicited reason, store)
    | .ok () =>
      match checkProof proofs extension with
      | .error reason => (.malicious reason, store)
      | .ok () =>
        match commit extension store with
        | (.ok (), store) => (.accepted, store)
        | (.error refusal, store) => (ofRefusal refusal, store)

/-- Verdicts given beforehand, one for each response, and acceptance when they have run out. -/
def rehearsed : Judge (List Verdict) := fun _ _ _ verdicts =>
  (verdicts.headD .accepted, verdicts.drop 1)

end Verification

end Catchup
