import Catchup.Identity
import Catchup.Digest.Basic

/-! What becomes of a sync response: it is accepted, it is ignored as unsolicited, or it shows that
its sender misbehaves. -/

set_option autoImplicit false

namespace Catchup

/-- A response that nothing, or something else, was waiting for. Late replies are among them, so it
is no ground for a ban. -/
inductive Unsolicited where
  | nothingPending
  | otherSender (expected actual : PeerId)
  | startsElsewhere (start current : Version)
  deriving DecidableEq, Repr

namespace Unsolicited

def message : Unsolicited → String
  | .nothingPending => "no sync request pending"
  | .otherSender expected actual =>
    "response from " ++ actual.label ++ ", request was sent to " ++ expected.label
  | .startsElsewhere start current =>
    "extension starts at " ++ start.label ++ ", local ledger is at " ++ current.label

/-- A label of few values, for counting. -/
def label : Unsolicited → String
  | .nothingPending => "no_request_pending"
  | .otherSender .. => "sender_mismatch"
  | .startsElsewhere .. => "extension_start_mismatch"

end Unsolicited

/-- A response that no honest peer could have produced. -/
inductive Misconduct where
  | emptyResponse
  | inconsistentCount (start : Version) (count : Nat) (finish : Version)
  | insufficientQuorum (version : Version)
  | signatureMismatch (version : Version)
  | unparseableTransaction (index : Nat)
  | accumulatorMismatch (expected computed : Digest)
  deriving DecidableEq, Repr

namespace Misconduct

def message : Misconduct → String
  | .emptyResponse => "sync response carries no transactions"
  | .inconsistentCount start count finish =>
    toString count ++ " transactions from version " ++ start.label
      ++ " cannot reach version " ++ finish.label
  | .insufficientQuorum version =>
    "proof at version " ++ version.label ++ " lacks a quorum of the validator set"
  | .signatureMismatch version =>
    "proof signatures at version " ++ version.label ++ " do not verify"
  | .unparseableTransaction index =>
    "transaction " ++ toString index ++ " could not be parsed"
  | .accumulatorMismatch expected computed =>
    "computed accumulator " ++ computed.toHex ++ " does not match proof accumulator "
      ++ expected.toHex

/-- A label of few values, for counting and as the ground of a ban. -/
def label : Misconduct → String
  | .emptyResponse => "empty_response"
  | .inconsistentCount .. => "inconsistent_transaction_count"
  | .insufficientQuorum _ => "insufficient_quorum"
  | .signatureMismatch _ => "signature_mismatch"
  | .unparseableTransaction _ => "unparseable_transaction"
  | .accumulatorMismatch .. => "computed_root_mismatch"

end Misconduct

inductive Verdict where
  | accepted
  | unsolicited (reason : Unsolicited)
  | malicious (reason : Misconduct)
  deriving DecidableEq, Repr

end Catchup
