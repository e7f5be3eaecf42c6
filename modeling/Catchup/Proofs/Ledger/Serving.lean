import Catchup.Proofs.Ledger.Built

/-! What a ledger serves, and what becomes of it when another ledger commits it.

An append computes the header from what is stored, and a commit takes over the header that a peer
has sent. Either way the accumulators, the transactions and the header stay in step, so what is cut
out of them by version is the history that the header stands for. The ledger that has asked for it
can commit it, and is at the same head then. -/

set_option autoImplicit false

namespace Catchup.Ledger

variable {ledger source target after : Ledger} {start : Header} {extension : Extension}

/-! ## The accumulators by version -/

theorem Coherent.length_accumulators (coherent : ledger.Coherent) :
    ledger.accumulators.length = ledger.transactions.length + 1 := by
  rw [coherent.accumulators, List.length_cons, Digest.length_totals]

theorem Coherent.getElem?_accumulators (coherent : ledger.Coherent) {position : Nat}
    (reached : position ≤ ledger.transactions.length) :
    ledger.accumulators[position]? =
      some (Digest.zero.accumulateAll (ledger.transactions.take position)) := by
  rw [coherent.accumulators, Digest.getElem?_totals, if_pos reached]

/-- Each accumulator adds one transaction to the one before it. -/
theorem Coherent.accumulators_succ (coherent : ledger.Coherent) {position : Nat}
    (inside : position < ledger.transactions.length) :
    ∃ total, ledger.accumulators[position]? = some total ∧
      ledger.accumulators[position + 1]? =
        some (total.accumulate ledger.transactions[position].digest) := by
  refine ⟨_, coherent.getElem?_accumulators (Nat.le_of_lt inside), ?_⟩
  rw [coherent.getElem?_accumulators inside, List.take_succ_eq_append_getElem inside,
    Digest.accumulateAll_append]
  rfl

theorem Coherent.getLast?_accumulators (coherent : ledger.Coherent) :
    ledger.accumulators.getLast? = some ledger.header.accumulator := by
  rw [List.getLast?_eq_getElem?, coherent.length_accumulators, Nat.add_sub_cancel,
    coherent.getElem?_accumulators (Nat.le_refl _), List.take_length, coherent.accumulator]

/-! ## Serving -/

theorem Coherent.serves_iff (coherent : ledger.Coherent) (start : Header) :
    (∃ extension, ledger.extensionFrom start = some extension) ↔
      start.version < ledger.version ∧
        ledger.accumulators[start.version.toNat]? = some start.accumulator := by
  have reached (behind : start.version.toNat < ledger.version.toNat) :
      start.version.toNat ≤ ledger.transactions.length :=
    coherent.version ▸ Nat.le_of_lt behind
  simp only [coherent.extensionFrom_eq_some_iff, Version.lt_iff]
  constructor
  · rintro ⟨extension, behind, shared, -⟩
    exact ⟨behind, shared ▸ coherent.getElem?_accumulators (reached behind)⟩
  · rintro ⟨behind, shared⟩
    rw [coherent.getElem?_accumulators (reached behind)] at shared
    exact ⟨_, behind, (Option.some.inj shared).symm, rfl⟩

theorem extensionFrom_of_reached (reached : ledger.version ≤ start.version) :
    ledger.extensionFrom start = none := if_pos reached

/-! ## Committing what is served -/

/-- The ledger that has asked takes over the header at which it was served. -/
theorem Coherent.commit_of_served (coherent : source.Coherent)
    (served : source.extensionFrom target.header = some extension)
    (parseable : ∀ transaction ∈ extension.transactions, transaction.payload ≠ []) :
    target.commit extension = .ok { target.store extension.transactions with
      header := source.header, unreported := target.unreported ++ [source.header] } := by
  have reaches := coherent.reaches_of_extensionFrom served
  have honest : extension.Honest :=
    ⟨⟨reaches.nonempty, reaches.count, parseable⟩, reaches.accumulator⟩
  obtain ⟨-, -, rfl⟩ := coherent.extensionFrom_eq_some_iff.mp served
  exact Verification.commit_of_honest honest rfl

/-- What has taken a ledger further does not start at its head any more. -/
theorem commit_again (committed : ledger.commit extension = .ok after)
    (moved : extension.start ≠ extension.finish) :
    after.commit extension =
      .error (.startsElsewhere extension.start.version extension.finish.version) := by
  obtain ⟨-, -, -, rfl⟩ := commit_eq_ok_iff.mp committed
  exact if_pos moved

/-- A ledger that has committed what another one has served can serve it in turn. -/
theorem Coherent.serves_committed (coherent : target.Coherent)
    (bridged : extension.start.version.toNat + extension.transactions.length =
      extension.finish.version.toNat)
    (nonempty : extension.transactions ≠ [])
    (committed : target.commit extension = .ok after) :
    after.extensionFrom target.header = some extension := by
  have further := version_lt_of_commit nonempty bridged committed
  have stored := coherent.commit bridged committed
  obtain ⟨current, -, -, rfl⟩ := commit_eq_ok_iff.mp committed
  have counted : target.header.version.toNat = target.transactions.length := coherent.version
  refine stored.extensionFrom_eq_some_iff.mpr ⟨Version.lt_iff.mp further, ?_, ?_⟩
  · show target.header.accumulator = Digest.zero.accumulateAll
      ((target.transactions ++ extension.transactions).take target.header.version.toNat)
    rw [List.take_left' counted.symm, coherent.accumulator]
  · show extension = ⟨target.header,
      (target.transactions ++ extension.transactions).drop target.header.version.toNat,
      extension.finish⟩
    rw [List.drop_left' counted.symm, ← current]

/-- A batch that leads to its finish can be asked for, so its commit keeps a ledger among those that
come about. -/
theorem Built.commit (built : ledger.Built) (reaches : extension.Reaches)
    (committed : ledger.commit extension = .ok after) : after.Built := by
  let asked : Pursuit := ⟨extension.start, extension.finish, .ofList [⟨1⟩], some ⟨⟨1⟩, ⟨1⟩⟩⟩
  have solicited : Verification.checkSolicited asked ⟨1⟩ extension = .ok () :=
    Verification.checkSolicited_eq_ok_iff.mpr ⟨⟨⟨1⟩, rfl⟩, rfl⟩
  have proven : Verification.checkProof .trusting extension = .ok () :=
    Verification.checkProof_of_reaches reaches rfl rfl
  have done := Verification.committer_eq_ok_iff.mpr committed
  exact built.judge (Verification.judge_of_committed solicited proven done)

/-! ## Ledgers that come about -/

/-- However a ledger has come about, its accumulators add up its transactions one by one, and its
header names the last of them and counts them. It serves exactly those who are behind it on its own
history, and what it serves leads to its header, by version and by accumulator. -/
theorem Built.represents_history (built : ledger.Built)
    (bounded : ledger.transactions.length < UInt64.size) :
    ledger.accumulators.length = ledger.transactions.length + 1 ∧
    ledger.accumulators.head? = some .zero ∧
    (∀ position (inside : position < ledger.transactions.length), ∃ total,
      ledger.accumulators[position]? = some total ∧
      ledger.accumulators[position + 1]? =
        some (total.accumulate ledger.transactions[position].digest)) ∧
    ledger.version.toNat = ledger.transactions.length ∧
    ledger.accumulators.getLast? = some ledger.header.accumulator ∧
    ∀ start,
      ((∃ extension, ledger.extensionFrom start = some extension) ↔
        start.version < ledger.version ∧
          ledger.accumulators[start.version.toNat]? = some start.accumulator) ∧
      ∀ extension, ledger.extensionFrom start = some extension →
        extension =
          ⟨start, ledger.transactions.drop start.version.toNat, ledger.header⟩ ∧
        extension.transactions.length = ledger.version.toNat - start.version.toNat ∧
        1 ≤ extension.transactions.length ∧
        extension.impliedVersion = extension.finish.version ∧
        extension.computedAccumulator = extension.finish.accumulator := by
  have coherent := built.coherent bounded
  refine ⟨coherent.length_accumulators, ?_, fun _ => coherent.accumulators_succ,
    coherent.version, coherent.getLast?_accumulators, fun start => ⟨coherent.serves_iff start, ?_⟩⟩
  · rw [coherent.accumulators, List.head?_cons]
  · intro extension served
    have reaches := coherent.reaches_of_extensionFrom served
    have counted := reaches.count
    have same := (coherent.extensionFrom_eq_some_iff.mp served).2.2
    refine ⟨same, ?_, List.length_pos_iff.mpr reaches.nonempty,
      extension.impliedVersion_of_count counted, reaches.accumulator⟩
    rw [same] at counted ⊢
    exact Nat.eq_sub_of_add_eq' counted

/-- A peer's first transaction. -/
def withFirst : Ledger := (empty.append [⟨[7]⟩]).2

theorem built_withFirst : withFirst.Built := Built.empty.append rfl

/-- A node takes over the first version from a peer and appends the second, without payload. The
peer is behind then, and is served it. -/
theorem represents_history_after_commit :
    ∃ (ledger : Ledger) (extension : Extension),
      ledger.Built ∧ ledger.transactions = [⟨[7]⟩, ⟨[]⟩] ∧
      ledger.unreported = [withFirst.header] ∧
      (∃ total, ledger.accumulators[1]? = some total ∧
        ledger.accumulators[2]? = some (total.accumulate (Transaction.digest ⟨[]⟩))) ∧
      ledger.extensionFrom withFirst.header = some extension ∧
      extension.transactions.length = 1 ∧
      extension.computedAccumulator = extension.finish.accumulator := by
  have coherent := built_withFirst.coherent (by decide)
  have served : withFirst.extensionFrom empty.header =
      some ⟨.genesis, [⟨[7]⟩], withFirst.header⟩ := rfl
  have committed := coherent.commit_of_served served (by simp)
  have caughtUp := Built.empty.commit (coherent.reaches_of_extensionFrom served) committed
  have built := caughtUp.append (show Ledger.append _ [⟨[]⟩] = (.ok _, _) from rfl)
  obtain ⟨-, -, sums, -, -, serves⟩ := built.represents_history (by decide)
  obtain ⟨serves, whole⟩ := serves withFirst.header
  obtain ⟨extension, served⟩ := serves.mpr ⟨by decide, rfl⟩
  obtain ⟨-, length, -, -, reaches⟩ := whole extension served
  exact ⟨_, extension, built, rfl, rfl, sums 1 (by decide), served, length, reaches⟩

/-- What one ledger serves from the header of another, the other commits: it is at the same head
then, has nothing more to ask for, takes the same batch no second time, and can serve it itself. A
transaction without payload keeps it from that, and it stays as it was. -/
theorem Built.commits_served (sourceBuilt : source.Built)
    (sourceBounded : source.transactions.length < UInt64.size) (targetBuilt : target.Built)
    (targetBounded : target.transactions.length < UInt64.size)
    (served : source.extensionFrom target.header = some extension) :
    ((∀ transaction ∈ extension.transactions, transaction.payload ≠ []) →
      ∃ after, committer extension target = (.ok (), after) ∧
        after.header = source.header ∧
        after.transactions =
          target.transactions ++ source.transactions.drop target.version.toNat ∧
        after.unreported = target.unreported ++ [source.header] ∧
        source.extensionFrom after.header = none ∧
        committer extension after =
          (.error (.startsElsewhere target.version source.version), after) ∧
        after.Built ∧ after.extensionFrom target.header = some extension) ∧
    ((∃ transaction ∈ extension.transactions, transaction.payload = []) →
      ∃ index, ∃ inside : index < extension.transactions.length,
        extension.transactions[index].payload = [] ∧
        (∀ transaction ∈ extension.transactions.take index, transaction.payload ≠ []) ∧
        committer extension target = (.error (.unparseableTransaction index), target)) := by
  have coherent := sourceBuilt.coherent sourceBounded
  have reaches := coherent.reaches_of_extensionFrom served
  obtain ⟨-, -, same⟩ := coherent.extensionFrom_eq_some_iff.mp served
  constructor
  · intro parseable
    have committed := coherent.commit_of_served served parseable
    -- A batch that is served leads on by one version at least.
    have again := commit_again committed fun circular => by
      have counted := reaches.count
      have more := List.length_pos_iff.mpr reaches.nonempty
      rw [circular] at counted
      omega
    refine ⟨_, Verification.committer_eq_ok_iff.mpr committed, rfl, ?_, rfl, ?_, ?_,
      targetBuilt.commit reaches committed, ?_⟩
    · show target.transactions ++ extension.transactions = _
      rw [congrArg Extension.transactions same]
      rfl
    · exact extensionFrom_of_reached (Version.le_refl _)
    · refine Verification.committer_eq_error_iff.mpr ⟨again.trans ?_, rfl⟩
      rw [same]
      rfl
    · have targetCoherent := targetBuilt.coherent targetBounded
      exact targetCoherent.serves_committed reaches.count reaches.nonempty committed
  · intro empty
    obtain ⟨index, inside, found, here, before⟩ := Extension.exists_first_empty empty
    have refused : target.commit extension = .error (.unparseableTransaction index) :=
      (Verification.commit_eq_error_iff_of_reaches reaches).mpr
        (.inr ⟨congrArg Extension.start same, index, rfl, found⟩)
    exact ⟨index, inside, here, before, Verification.committer_eq_error_iff.mpr ⟨refused, rfl⟩⟩

/-- A node at version 1 is served version 2 and commits it. Another ledger serves it a second
transaction without payload, and it stays where it is. -/
theorem commits_served_at_first_version :
    ∃ (source other after : Ledger) (extension refused : Extension),
      source.Built ∧ source.extensionFrom withFirst.header = some extension ∧
      committer extension withFirst = (.ok (), after) ∧ after.header = source.header ∧
      after.transactions = [⟨[7]⟩, ⟨[8]⟩] ∧ after.extensionFrom withFirst.header = some extension ∧
      other.Built ∧ other.extensionFrom withFirst.header = some refused ∧
      committer refused withFirst = (.error (.unparseableTransaction 1), withFirst) := by
  have source : ((withFirst.append [⟨[8]⟩]).2).Built := built_withFirst.append rfl
  have other : ((withFirst.append [⟨[8]⟩, ⟨[]⟩]).2).Built := built_withFirst.append rfl
  have served := (source.coherent (by decide)).extensionFrom_eq_some_iff.mpr
    (show _ ∧ withFirst.header.accumulator = _ ∧ _ from ⟨by decide, rfl, rfl⟩)
  have empty := (other.coherent (by decide)).extensionFrom_eq_some_iff.mpr
    (show _ ∧ withFirst.header.accumulator = _ ∧ _ from ⟨by decide, rfl, rfl⟩)
  obtain ⟨commits, -⟩ := source.commits_served (by decide) built_withFirst (by decide) served
  obtain ⟨after, committed, head, stored, -, -, -, -, serves⟩ := commits (by decide)
  obtain ⟨-, refuses⟩ := other.commits_served (by decide) built_withFirst (by decide) empty
  obtain ⟨index, inside, here, -, refused⟩ := refuses ⟨⟨[]⟩, by decide, rfl⟩
  refine ⟨_, _, after, _, _, source, served, committed, head, stored, serves, other, empty, ?_⟩
  match index with
  | 0 => cases here
  | 1 => exact refused
  | later + 2 => exact absurd inside (Nat.not_lt.mpr (Nat.le_add_left 2 later))

end Catchup.Ledger
