import Catchup.Proofs.Ledger.Representation
import Catchup.Verification

/-! How a sync response can be judged, and why an honest one is never judged malicious. -/

set_option autoImplicit false

namespace Catchup

namespace Extension

/-- The transactions lead from one version to the other, and each has a payload. -/
structure Bridges (extension : Extension) : Prop where
  nonempty : extension.transactions ≠ []
  count : extension.start.version.toNat + extension.transactions.length =
    extension.finish.version.toNat
  parseable : ∀ transaction ∈ extension.transactions, transaction.payload ≠ []

/-- They lead from one accumulator to the other as well. -/
structure Honest (extension : Extension) : Prop extends Bridges extension where
  accumulator : extension.computedAccumulator = extension.finish.accumulator

/-- The transactions lead from one header to the other, whatever their payloads. -/
structure Reaches (extension : Extension) : Prop where
  nonempty : extension.transactions ≠ []
  count : extension.start.version.toNat + extension.transactions.length =
    extension.finish.version.toNat
  accumulator : extension.computedAccumulator = extension.finish.accumulator

variable {extension : Extension}

theorem impliedVersion_of_count (count : extension.start.version.toNat +
    extension.transactions.length = extension.finish.version.toNat) :
    extension.impliedVersion = extension.finish.version := by
  have bound := extension.finish.version.toNat_lt_size
  rw [← Version.toNat_inj, Extension.impliedVersion, Version.toNat_advance]
  omega

/-- Short of the largest version, a batch that implies a version counts up to it. -/
theorem count_of_impliedVersion
    (implied : extension.impliedVersion = extension.finish.version)
    (room : extension.start.version.toNat + extension.transactions.length < UInt64.size) :
    extension.start.version.toNat + extension.transactions.length =
      extension.finish.version.toNat := by
  have reached := congrArg Version.toNat implied
  rw [Extension.impliedVersion, Version.toNat_advance] at reached
  omega

theorem Honest.reaches (honest : extension.Honest) : extension.Reaches :=
  ⟨honest.nonempty, honest.count, honest.accumulator⟩

theorem findIdx?_eq_none_of_parseable
    (parseable : ∀ transaction ∈ extension.transactions, transaction.payload ≠ []) :
    extension.transactions.findIdx? (fun transaction => transaction.payload.isEmpty) = none := by
  simpa using parseable

theorem exists_first_empty
    (empty : ∃ transaction ∈ extension.transactions, transaction.payload = []) :
    ∃ index, ∃ inside : index < extension.transactions.length,
      extension.transactions.findIdx? (fun transaction => transaction.payload.isEmpty) =
        some index ∧
      extension.transactions[index].payload = [] ∧
      ∀ transaction ∈ extension.transactions.take index, transaction.payload ≠ [] := by
  obtain ⟨transaction, member, empty⟩ := empty
  cases found : extension.transactions.findIdx? fun transaction => transaction.payload.isEmpty with
  | none =>
    have filled := List.findIdx?_eq_none_iff.mp found transaction member
    simp [empty] at filled
  | some index =>
    obtain ⟨inside, here, before⟩ := List.findIdx?_eq_some_iff_getElem.mp found
    refine ⟨index, inside, rfl, List.isEmpty_iff.mp here, fun other taken => ?_⟩
    obtain ⟨earlier, bound, rfl⟩ := List.mem_take_iff_getElem.mp taken
    have filled := before earlier (Nat.lt_of_lt_of_le bound (Nat.min_le_left _ _))
    simpa using filled

end Extension

theorem Ledger.Coherent.reaches_of_extensionFrom {ledger : Ledger} (coherent : ledger.Coherent)
    {start : Header} {extension : Extension}
    (served : ledger.extensionFrom start = some extension) : extension.Reaches := by
  obtain ⟨behind, shared, rfl⟩ := coherent.extensionFrom_eq_some_iff.mp served
  have counted := coherent.version
  refine ⟨fun empty => ?_, ?_, ?_⟩
  · have none := List.drop_eq_nil_iff.mp empty
    omega
  · show start.version.toNat + (ledger.transactions.drop start.version.toNat).length =
      ledger.version.toNat
    rw [List.length_drop]
    omega
  · show start.accumulator.accumulateAll (ledger.transactions.drop start.version.toNat) =
      ledger.header.accumulator
    rw [shared, ← Digest.accumulateAll_append, List.take_append_drop, coherent.accumulator]

theorem Ledger.Coherent.honest_of_extensionFrom {ledger : Ledger} (coherent : ledger.Coherent)
    (parseable : ledger.Parseable) {start : Header} {extension : Extension}
    (served : ledger.extensionFrom start = some extension) : extension.Honest := by
  have reaches := coherent.reaches_of_extensionFrom served
  refine ⟨⟨reaches.nonempty, reaches.count, fun transaction member => ?_⟩, reaches.accumulator⟩
  obtain ⟨-, -, rfl⟩ := coherent.extensionFrom_eq_some_iff.mp served
  exact parseable transaction (List.mem_of_mem_drop member)

namespace Verification

variable {σ : Type} {proofs : Proofs} {commit : Committer σ} {pursuit : Pursuit} {peer : PeerId}
  {extension : Extension} {store after : σ} {verdict : Verdict}

/-- The check that decides on a response, and what the store is then. -/
inductive Decides (proofs : Proofs) (commit : Committer σ) (pursuit : Pursuit) (peer : PeerId)
    (extension : Extension) (store : σ) : Verdict → σ → Prop where
  | unsolicited {reason : Unsolicited} :
      checkSolicited pursuit peer extension = .error reason →
      Decides proofs commit pursuit peer extension store (.unsolicited reason) store
  | unproven {reason : Misconduct} :
      checkSolicited pursuit peer extension = .ok () →
      checkProof proofs extension = .error reason →
      Decides proofs commit pursuit peer extension store (.malicious reason) store
  | refused {refusal : Refusal} {after : σ} :
      checkSolicited pursuit peer extension = .ok () → checkProof proofs extension = .ok () →
      commit extension store = (.error refusal, after) →
      Decides proofs commit pursuit peer extension store (ofRefusal refusal) after
  | committed {after : σ} :
      checkSolicited pursuit peer extension = .ok () → checkProof proofs extension = .ok () →
      commit extension store = (.ok (), after) →
      Decides proofs commit pursuit peer extension store .accepted after

theorem decides_of_judge
    (judged : judge proofs commit pursuit peer extension store = (verdict, after)) :
    Decides proofs commit pursuit peer extension store verdict after := by
  unfold judge at judged
  split at judged
  next reason unsolicited => cases judged; exact .unsolicited unsolicited
  next solicited =>
    split at judged
    next reason unproven => cases judged; exact .unproven solicited unproven
    next proven =>
      split at judged
      next committed => cases judged; exact .committed solicited proven committed
      next refused => cases judged; exact .refused solicited proven refused

theorem judge_of_committed (solicited : checkSolicited pursuit peer extension = .ok ())
    (proven : checkProof proofs extension = .ok ())
    (committed : commit extension store = (.ok (), after)) :
    judge proofs commit pursuit peer extension store = (.accepted, after) := by
  simp only [judge, solicited, proven, committed]

theorem checkSolicited_eq_ok_iff :
    checkSolicited pursuit peer extension = .ok () ↔
      (∃ id, pursuit.pending = some ⟨peer, id⟩) ∧
        extension.start.version = pursuit.head.version := by
  unfold checkSolicited
  split
  next free => simp [free]
  next pending held =>
    obtain ⟨asked, id⟩ := pending
    by_cases sender : asked = peer <;>
      by_cases current : extension.start.version = pursuit.head.version <;>
        simp [held, sender, current]

theorem checkProof_eq_ok_iff :
    checkProof proofs extension = .ok () ↔
      extension.transactions ≠ [] ∧ extension.impliedVersion = extension.finish.version ∧
      proofs.hasQuorum extension.finish = true ∧
      proofs.signaturesMatch extension.finish = true := by
  unfold checkProof
  split
  next none => simp_all
  next some =>
    split
    next other => simp [other]
    next implied =>
      split
      next unsupported => simp_all
      next supported =>
        split <;> simp_all

theorem checkProof_of_reaches (reaches : extension.Reaches)
    (quorum : proofs.hasQuorum extension.finish = true)
    (signatures : proofs.signaturesMatch extension.finish = true) :
    checkProof proofs extension = .ok () :=
  checkProof_eq_ok_iff.mpr ⟨reaches.nonempty, extension.impliedVersion_of_count reaches.count,
    quorum, signatures⟩

theorem Decides.solicited
    (decides : Decides proofs commit pursuit peer extension store verdict after)
    (taken : ∀ reason, verdict ≠ .unsolicited reason) :
    checkSolicited pursuit peer extension = .ok () := by
  cases decides with
  | unsolicited unsolicited => exact absurd rfl (taken _)
  | unproven solicited | refused solicited | committed solicited => exact solicited

/-- A response that nothing has asked for does not get past the first check. -/
theorem Decides.of_unsolicited
    (decides : Decides proofs commit pursuit peer extension store verdict after)
    (unsolicited : checkSolicited pursuit peer extension ≠ .ok ()) :
    after = store ∧ ∃ reason, verdict = .unsolicited reason := by
  cases decides with
  | unsolicited failed => exact ⟨rfl, _, rfl⟩
  | unproven solicited | refused solicited | committed solicited =>
    exact absurd solicited unsolicited

theorem Decides.accepted
    (decides : Decides proofs commit pursuit peer extension store .accepted after) :
    checkSolicited pursuit peer extension = .ok () ∧ checkProof proofs extension = .ok () ∧
      commit extension store = (.ok (), after) := by
  generalize same : Verdict.accepted = verdict at decides
  cases decides with
  | unsolicited | unproven => cases same
  | @refused refusal => cases refusal <;> cases same
  | committed solicited proven committed => exact ⟨solicited, proven, committed⟩

/-! ## Ledgers -/

theorem committer_eq_ok_iff {ledger after : Ledger} :
    Ledger.committer extension ledger = (.ok (), after) ↔ ledger.commit extension = .ok after := by
  unfold Ledger.committer
  cases ledger.commit extension <;> simp

theorem committer_eq_error_iff {ledger after : Ledger} {refusal : Refusal} :
    Ledger.committer extension ledger = (.error refusal, after) ↔
      ledger.commit extension = .error refusal ∧ after = ledger := by
  unfold Ledger.committer
  cases ledger.commit extension <;> simp [eq_comm]

/-- A ledger refuses an extension that reaches its finish when its own head is elsewhere, and then
only for a transaction without payload. -/
theorem commit_eq_error_iff_of_reaches {ledger : Ledger} {refusal : Refusal}
    (reaches : extension.Reaches) :
    ledger.commit extension = .error refusal ↔
      (extension.start ≠ ledger.header ∧
        refusal = .startsElsewhere extension.start.version ledger.header.version) ∨
      (extension.start = ledger.header ∧ ∃ index, refusal = .unparseableTransaction index ∧
        extension.transactions.findIdx? (fun transaction => transaction.payload.isEmpty) =
          some index) := by
  unfold Ledger.commit
  by_cases current : extension.start = ledger.header
  · simp only [current, ne_eq, not_true, if_false, false_and, true_and, false_or]
    cases found : extension.transactions.findIdx? fun transaction => transaction.payload.isEmpty with
    | some index => simp [eq_comm]
    | none => simp [reaches.accumulator]
  · simp [current, eq_comm]

/-- What continues a ledger honestly takes it to the finish. -/
theorem commit_of_honest {ledger : Ledger} (honest : extension.Honest)
    (current : extension.start = ledger.header) :
    ledger.commit extension = .ok { ledger.store extension.transactions with
      header := extension.finish, unreported := ledger.unreported ++ [extension.finish] } :=
  Ledger.commit_eq_ok_iff.mpr ⟨current, honest.parseable, honest.accumulator, rfl⟩

theorem refusal_of_honest {ledger : Ledger} {refusal : Refusal} (honest : extension.Honest)
    (refused : ledger.commit extension = .error refusal) :
    refusal = .startsElsewhere extension.start.version ledger.header.version := by
  rcases (commit_eq_error_iff_of_reaches honest.reaches).mp refused with
    ⟨-, elsewhere⟩ | ⟨-, index, -, found⟩
  · exact elsewhere
  · rw [Extension.findIdx?_eq_none_of_parseable honest.parseable] at found
    cases found

theorem Decides.not_malicious {ledger after : Ledger}
    (decides : Decides proofs Ledger.committer pursuit peer extension ledger verdict after)
    (honest : extension.Honest) (quorum : proofs.hasQuorum extension.finish = true)
    (signatures : proofs.signaturesMatch extension.finish = true) (reason : Misconduct) :
    verdict ≠ .malicious reason := by
  have proven := checkProof_of_reaches honest.reaches quorum signatures
  cases decides with
  | unsolicited unsolicited => nofun
  | unproven solicited unproven => rw [proven] at unproven; cases unproven
  | refused solicited _ refused =>
    -- The refusal is about the start, and that speaks against no one.
    rw [refusal_of_honest honest (committer_eq_error_iff.mp refused).1]
    nofun
  | committed solicited _ committed => nofun

theorem Decides.ledger {ledger after : Ledger}
    (decides : Decides proofs Ledger.committer pursuit peer extension ledger verdict after) :
    after = ledger ∨ verdict = .accepted ∧ ledger.commit extension = .ok after := by
  cases decides with
  | unsolicited | unproven => exact .inl rfl
  | refused solicited proven refused => exact .inl (committer_eq_error_iff.mp refused).2
  | committed solicited proven committed => exact .inr ⟨rfl, committer_eq_ok_iff.mp committed⟩

end Verification

end Catchup
