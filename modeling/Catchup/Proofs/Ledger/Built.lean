import Catchup.Proofs.Verification

/-! The ledgers that come about: transactions are appended, responses are judged and committed, and
reports are handed over, in any order.

Such a ledger only grows, and it stays coherent while its versions fit into their words. What it
serves to others is never held against it, except for a transaction without payload: those can be
appended, but not committed. -/

set_option autoImplicit false

namespace Catchup

theorem Version.le_advance (version : Version) (count : Nat) : version ≤ version.advance count := by
  have bound := version.toNat_lt_size
  rw [Version.le_iff, Version.toNat_advance]
  omega

namespace Ledger

inductive Built : Ledger → Prop where
  | empty : Built .empty
  | append {ledger after : Ledger} {batch : List Transaction} {header : Header} :
      Built ledger → ledger.append batch = (.ok header, after) → Built after
  /-- A response is judged for whatever node the ledger belongs to. -/
  | judge {ledger after : Ledger} {proofs : Proofs} {pursuit : Pursuit} {peer : PeerId}
      {extension : Extension} {verdict : Verdict} : Built ledger →
      Verification.judge proofs committer pursuit peer extension ledger = (verdict, after) →
      Built after
  | takeUnreported {ledger : Ledger} : Built ledger → Built ledger.takeUnreported.2

/-- No transaction is lost and no version given up. -/
structure Precedes (earlier later : Ledger) : Prop where
  transactions : earlier.transactions <+: later.transactions
  version : earlier.version ≤ later.version

variable {ledger after : Ledger}

theorem Precedes.refl (ledger : Ledger) : ledger.Precedes ledger :=
  ⟨List.prefix_rfl, Version.le_refl _⟩

theorem Precedes.trans {earlier later : Ledger} (first : earlier.Precedes ledger)
    (second : ledger.Precedes later) : earlier.Precedes later :=
  ⟨first.transactions.trans second.transactions, Version.le_trans first.version second.version⟩

theorem precedes_of_append {batch : List Transaction} {header : Header}
    (appended : ledger.append batch = (.ok header, after)) : ledger.Precedes after := by
  obtain ⟨version, -, rfl⟩ := append_eq_ok appended
  refine ⟨List.prefix_append .., ?_⟩
  show ledger.version ≤ header.version
  rw [version]
  exact ledger.version.le_advance batch.length

theorem takeUnreported_of_reported (reported : ledger.unreported = []) :
    ledger.takeUnreported = ([], ledger) := by
  rw [takeUnreported, ← reported]

theorem precedes_takeUnreported (ledger : Ledger) : ledger.Precedes ledger.takeUnreported.2 :=
  ⟨List.prefix_rfl, Version.le_refl _⟩

section
variable {proofs : Proofs} {pursuit : Pursuit} {peer : PeerId} {extension : Extension}
  {verdict : Verdict}

theorem precedes_of_decides
    (decides : Verification.Decides proofs committer pursuit peer extension ledger verdict after) :
    ledger.Precedes after := by
  rcases decides.ledger with rfl | ⟨rfl, committed⟩
  · exact Precedes.refl after
  · obtain ⟨-, proven, -⟩ := decides.accepted
    obtain ⟨-, implied, -, -⟩ := Verification.checkProof_eq_ok_iff.mp proven
    obtain ⟨current, -, -, rfl⟩ := commit_eq_ok_iff.mp committed
    refine ⟨List.prefix_append .., ?_⟩
    show ledger.header.version ≤ extension.finish.version
    rw [← implied, ← current]
    exact extension.start.version.le_advance extension.transactions.length

/-- As long as the versions fit, a committed extension counts up to its finish. -/
theorem Coherent.count_of_accepted (coherent : ledger.Coherent)
    (decides : Verification.Decides proofs committer pursuit peer extension ledger .accepted after)
    (bounded : after.transactions.length < UInt64.size) :
    extension.start.version.toNat + extension.transactions.length =
      extension.finish.version.toNat := by
  obtain ⟨-, proven, done⟩ := decides.accepted
  obtain ⟨-, implied, -, -⟩ := Verification.checkProof_eq_ok_iff.mp proven
  obtain ⟨current, -, -, rfl⟩ := commit_eq_ok_iff.mp (Verification.committer_eq_ok_iff.mp done)
  have counted : ledger.header.version.toNat = ledger.transactions.length := coherent.version
  have room : (ledger.transactions ++ extension.transactions).length < UInt64.size := bounded
  apply Extension.count_of_impliedVersion implied
  rw [current, counted, ← List.length_append]
  exact room

theorem Coherent.of_decides (coherent : ledger.Coherent)
    (decides : Verification.Decides proofs committer pursuit peer extension ledger verdict after)
    (bounded : after.transactions.length < UInt64.size) : after.Coherent := by
  rcases decides.ledger with rfl | ⟨rfl, committed⟩
  · exact coherent
  · exact coherent.commit (coherent.count_of_accepted decides bounded) committed

end

theorem Built.coherent (built : ledger.Built)
    (bounded : ledger.transactions.length < UInt64.size) : ledger.Coherent := by
  induction built with
  | empty => exact coherent_empty
  | append _ appended ih =>
    have grown := (precedes_of_append appended).transactions.length_le
    have coherent := ih (Nat.lt_of_le_of_lt grown bounded)
    refine coherent.append ?_ appended
    obtain ⟨-, -, rfl⟩ := append_eq_ok appended
    rw [coherent.version, ← List.length_append]
    exact bounded
  | judge _ judged ih =>
    have decides := Verification.decides_of_judge judged
    have grown := (precedes_of_decides decides).transactions.length_le
    exact (ih (Nat.lt_of_le_of_lt grown bounded)).of_decides decides bounded
  | takeUnreported _ ih => exact (ih bounded).takeUnreported

/-! ## Serving -/

section
variable {start : Header} {extension : Extension} {proofs : Proofs}

theorem malicious_iff_of_reaches (reaches : extension.Reaches)
    (quorum : proofs.hasQuorum extension.finish = true)
    (signatures : proofs.signaturesMatch extension.finish = true) (pursuit : Pursuit)
    (peer : PeerId) (requester : Ledger) (reason : Misconduct) :
    (Verification.judge proofs committer pursuit peer extension requester).1 =
        .malicious reason ↔
      Verification.checkSolicited pursuit peer extension = .ok () ∧
      extension.start = requester.header ∧
      ∃ index, reason = .unparseableTransaction index ∧
        extension.transactions.findIdx? (fun transaction => transaction.payload.isEmpty) =
          some index := by
  have proven := Verification.checkProof_of_reaches reaches quorum signatures
  constructor
  · intro malicious
    rcases judged : Verification.judge proofs committer pursuit peer extension requester with
      ⟨verdict, after⟩
    rw [judged] at malicious
    subst malicious
    have decides := Verification.decides_of_judge judged
    have solicited := decides.solicited nofun
    generalize same : Verdict.malicious reason = verdict at decides
    cases decides with
    | unsolicited | committed => cases same
    | unproven _ unproven => rw [proven] at unproven; cases unproven
    | refused _ _ refused =>
      -- Only the refusal of a payload is held against the sender.
      have refusal := (Verification.committer_eq_error_iff.mp refused).1
      rcases (Verification.commit_eq_error_iff_of_reaches reaches).mp refusal with
        ⟨-, rfl⟩ | ⟨current, index, rfl, found⟩
      · cases same
      · cases same
        exact ⟨solicited, current, index, rfl, found⟩
  · rintro ⟨solicited, current, index, rfl, found⟩
    have refused : requester.commit extension = .error (.unparseableTransaction index) :=
      (Verification.commit_eq_error_iff_of_reaches reaches).mpr (.inr ⟨current, index, rfl, found⟩)
    have refusal := Verification.committer_eq_error_iff.mpr ⟨refused, rfl⟩
    simp only [Verification.judge, solicited, proven, refusal, Verification.ofRefusal]

/-- What a ledger serves is judged malicious exactly when it was asked for, continues the ledger of
the one who asked, and carries a transaction without payload, which is named then. Without such a
transaction it is accepted or ignored, whenever it arrives. -/
theorem Built.served_malicious_iff {source : Ledger} (built : source.Built)
    (bounded : source.transactions.length < UInt64.size)
    (served : source.extensionFrom start = some extension) (proofs : Proofs)
    (quorum : proofs.hasQuorum extension.finish = true)
    (signatures : proofs.signaturesMatch extension.finish = true) (pursuit : Pursuit)
    (peer : PeerId) (requester : Ledger) :
    (∀ reason, (Verification.judge proofs committer pursuit peer extension requester).1 =
        .malicious reason ↔
      Verification.checkSolicited pursuit peer extension = .ok () ∧
      extension.start = requester.header ∧
      ∃ index, reason = .unparseableTransaction index ∧
        extension.transactions.findIdx? (fun transaction => transaction.payload.isEmpty) =
          some index) ∧
    ((∀ transaction ∈ extension.transactions, transaction.payload ≠ []) →
      (Verification.judge proofs committer pursuit peer extension requester).1 = .accepted ∨
      ∃ reason, (Verification.judge proofs committer pursuit peer extension requester).1 =
        .unsolicited reason) := by
  have reaches := (built.coherent bounded).reaches_of_extensionFrom served
  have malicious := malicious_iff_of_reaches reaches quorum signatures pursuit peer requester
  refine ⟨malicious, fun parseable => ?_⟩
  cases verdict : (Verification.judge proofs committer pursuit peer extension requester).1 with
  | accepted => exact .inl rfl
  | unsolicited reason => exact .inr ⟨reason, rfl⟩
  | malicious reason =>
    obtain ⟨-, -, index, -, found⟩ := (malicious reason).mp verdict
    rw [Extension.findIdx?_eq_none_of_parseable parseable] at found
    cases found

end

/-- After the request that a node at genesis has sent to peer 1. -/
def askedFromGenesis (target : Header) : Pursuit :=
  ⟨.genesis, target, .ofList [⟨1⟩], some ⟨⟨1⟩, ⟨1⟩⟩⟩

/-- The second of two appended transactions has no payload. A node at genesis judges the two
malicious, a node that has moved on does not. -/
theorem served_malicious_iff_after_append :
    ∃ (source : Ledger) (extension : Extension),
      source.Built ∧ source.extensionFrom .genesis = some extension ∧
      (Verification.judge .trusting committer (askedFromGenesis source.header) ⟨1⟩ extension
        .empty).1 = .malicious (.unparseableTransaction 1) ∧
      ∀ reason, (Verification.judge .trusting committer (askedFromGenesis source.header) ⟨1⟩
        extension (empty.append [⟨[9]⟩]).2).1 ≠ .malicious reason := by
  have built : ((empty.append [⟨[7]⟩, ⟨[]⟩]).2).Built := Built.empty.append rfl
  have served : (empty.append [⟨[7]⟩, ⟨[]⟩]).2.extensionFrom .genesis =
      some ⟨.genesis, [⟨[7]⟩, ⟨[]⟩], (empty.append [⟨[7]⟩, ⟨[]⟩]).2.header⟩ := rfl
  have judged := built.served_malicious_iff (by decide) served .trusting rfl rfl
    (askedFromGenesis (empty.append [⟨[7]⟩, ⟨[]⟩]).2.header) ⟨1⟩
  refine ⟨_, _, built, served, ?_, fun reason malicious => ?_⟩
  · exact ((judged empty).1 _).mpr ⟨rfl, rfl, 1, rfl, rfl⟩
  · obtain ⟨-, current, -⟩ := ((judged (empty.append [⟨[9]⟩]).2).1 reason).mp malicious
    cases congrArg (·.timestamp) current

/-- Served in good faith and judged malicious all the same: one transaction without payload was
appended, and nothing else was done. -/
theorem served_malicious_without_payload :
    ∃ (source : Ledger) (extension : Extension),
      source.Built ∧ source.transactions.length < UInt64.size ∧
      source.extensionFrom .genesis = some extension ∧
      (Verification.judge .trusting committer (askedFromGenesis source.header) ⟨1⟩ extension
        .empty).1 = .malicious (.unparseableTransaction 0) := by
  have built : ((empty.append [⟨[]⟩]).2).Built := Built.empty.append rfl
  exact ⟨_, ⟨.genesis, [⟨[]⟩], (empty.append [⟨[]⟩]).2.header⟩, built, by decide, rfl, rfl⟩

end Ledger

end Catchup
