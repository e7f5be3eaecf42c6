import Catchup.Proofs.Ledger.Representation
import Catchup.Proofs.Synchronizer.Transition
import Catchup.Responder

/-! How the two sides of a node follow the head of its ledger.

Both take up a reported header that is ahead of the one they hold, and nothing else moves them.
Versions alone decide what is ahead. A commit without transactions leaves the version as it is, so
its header is not taken up once the one before it has been: only their timestamps differ. -/

set_option autoImplicit false

namespace Catchup

namespace Header

/-- Take up a header that is ahead. -/
def adopt (held header : Header) : Header := if header.isAheadOf held then header else held

/-- The same point of the same history. The timestamps may differ unless `exact`. -/
structure Matches (exact : Prop) (header other : Header) : Prop where
  version : header.version = other.version
  epoch : header.epoch = other.epoch
  accumulator : header.accumulator = other.accumulator
  timestamp : exact → header.timestamp = other.timestamp

/-- Below the other header, or at the same point. -/
def Trails (exact : Prop) (header other : Header) : Prop :=
  header.version < other.version ∨ header.Matches exact other

variable {exact : Prop} {header held other last : Header}

theorem Matches.refl (header : Header) : header.Matches exact header :=
  ⟨rfl, rfl, rfl, fun _ => rfl⟩

theorem Matches.trans (first : header.Matches exact other) (second : other.Matches exact last) :
    header.Matches exact last where
  version := first.version.trans second.version
  epoch := first.epoch.trans second.epoch
  accumulator := first.accumulator.trans second.accumulator
  timestamp certain := (first.timestamp certain).trans (second.timestamp certain)

theorem Matches.eq (matching : header.Matches exact other) (certain : exact) : header = other := by
  obtain ⟨version, epoch, accumulator, timestamp⟩ := matching
  cases header
  cases other
  simp_all

theorem Trails.le (trails : header.Trails exact other) :
    header.version.toNat ≤ other.version.toNat := by
  rcases trails with below | matching
  · exact Nat.le_of_lt (Version.lt_iff.mp below)
  · exact Nat.le_of_eq (congrArg Version.toNat matching.version)

theorem Trails.matches_of_le (trails : header.Trails exact other)
    (reached : other.version.toNat ≤ header.version.toNat) : header.Matches exact other := by
  rcases trails with below | matching
  · exact absurd (Version.lt_iff.mp below) (Nat.not_lt.mpr reached)
  · exact matching

theorem Trails.trans (first : header.Trails exact other) (second : other.Trails exact last) :
    header.Trails exact last := by
  rcases second with below | matching
  · exact .inl (Version.lt_iff.mpr (Nat.lt_of_le_of_lt first.le (Version.lt_iff.mp below)))
  · rcases first with below | same
    · exact .inl (matching.version ▸ below)
    · exact .inr (same.trans matching)

theorem adopt_of_ahead (ahead : header.isAheadOf held = true) : held.adopt header = header :=
  if_pos ahead

theorem adopt_of_known (known : header.isAheadOf held = false) : held.adopt header = held :=
  if_neg (Bool.eq_false_iff.mp known)

theorem adopt_eq_or (held header : Header) :
    held.adopt header = held ∨ held.adopt header = header := by
  unfold adopt
  split
  · exact .inr rfl
  · exact .inl rfl

theorem le_adopt (held header : Header) : held.version ≤ (held.adopt header).version := by
  cases ahead : header.isAheadOf held with
  | true =>
    rw [adopt_of_ahead ahead]
    exact Version.le_of_lt (isAheadOf_iff_lt.mp ahead)
  | false =>
    rw [adopt_of_known ahead]
    exact Version.le_refl _

/-- Of two headers that trail a third, one of which is there already, the one taken up is there. -/
theorem adopt_matches (behind : held.Trails exact last) (reported : header.Trails exact last)
    (current : held.Matches exact last ∨ header.Matches exact last) :
    (held.adopt header).Matches exact last := by
  unfold adopt
  split
  next ahead =>
    have above := isAheadOf_iff.mp ahead
    rcases current with matching | matching
    · have same := congrArg Version.toNat matching.version
      have bound := reported.le
      omega
    · exact matching
  next known =>
    have below := mt isAheadOf_iff.mpr known
    rcases current with matching | matching
    · exact matching
    · have same := congrArg Version.toNat matching.version
      exact behind.matches_of_le (by omega)

end Header

/-- The head when the input has come in. -/
def Input.adopted (held : Header) : Input → Header
  | .ledgerUpdate header => held.adopt header
  | _ => held

theorem Input.adopted_of_ne {input : Input} (other : ∀ header, input ≠ .ledgerUpdate header)
    (held : Header) : input.adopted held = held := by
  cases input with
  | ledgerUpdate header => exact absurd rfl (other header)
  | _ => rfl

theorem Input.le_adopted (input : Input) (held : Header) :
    held.version ≤ (input.adopted held).version := by
  cases input with
  | ledgerUpdate header => exact held.le_adopt header
  | _ => exact Version.le_refl _

def Responder.Request.adopted (held : Header) : Responder.Request → Header
  | .ledgerUpdate header _ _ => held.adopt header
  | _ => held

/-! ## Reactions -/

namespace Synchronizer

variable {σ : Type} {judge : Judge σ} {directory : Directory} {store after : σ}
  {before : Synchronizer} {input : Input} {bare : Reaction}

theorem Pursues.head {pursuit : Pursuit} (pursues : Pursues directory before pursuit bare) :
    bare.synchronizer.head = pursuit.head := by
  cases pursues <;> rfl

theorem head_of_phase {phase : Phase} (here : before.phase = phase) : before.head = phase.head :=
  congrArg Phase.head here

theorem Closes.head {check : StatusCheck} (closes : Closes before input check) :
    check.head = input.adopted before.head := by
  cases closes with
  | lastAnswer phase waiting complete =>
    rw [StatusCheck.record_of_waiting waiting]
    exact (head_of_phase phase).symm
  | window phase => exact (head_of_phase phase).symm

theorem Resumes.head {pursuit : Pursuit} {metrics : List Metric}
    (resumes : Resumes directory before input pursuit metrics) :
    pursuit.head = input.adopted before.head := by
  cases resumes with
  | check closes finds => exact closes.head
  | timeout phase out => exact (head_of_phase phase).symm
  | @ledgerUpdate pursuit header phase ahead =>
    have same : before.head = _ := head_of_phase phase
    show header = before.head.adopt header
    rw [same]
    exact (Header.adopt_of_ahead ahead).symm
  | overdue phase late => exact (head_of_phase phase).symm
  | advertised phase known ahead => exact (head_of_phase phase).symm
  | raised phase known ahead => exact (head_of_phase phase).symm
  | requested ahead => rfl

theorem Ignores.head (ignores : Ignores directory before input) :
    before.head = input.adopted before.head := by
  cases ignores with
  | ledgerUpdate known => exact (Header.adopt_of_known known).symm
  | _ => rfl

/-- Only reports of the own ledger move the head. -/
theorem Transition.head (transition : Transition judge directory store before input bare after) :
    bare.synchronizer.head = input.adopted before.head := by
  cases transition with
  | ignored ignores => exact ignores.head
  | checkStarted phase window somebody number => exact (head_of_phase phase).symm
  | answered phase waiting incomplete =>
    show StatusCheck.head _ = before.head
    rw [StatusCheck.record_of_waiting waiting]
    exact (head_of_phase phase).symm
  | checkClosed closes nothing => exact closes.head
  | resumed resumes pursues => exact pursues.head.trans resumes.head
  | accepted phase judged => exact (head_of_phase phase).symm
  | adopted other ahead => exact (Phase.head_withHead ..).trans (Header.adopt_of_ahead ahead).symm
  | unasked | unsolicited | malicious | satisfied => rfl

end Synchronizer

theorem Responder.head_handle {α : Type} [Amount α] (ledger : Ledger) (directory : Directory)
    (responder : Responder α) (request : Responder.Request) :
    (responder.handle ledger directory request).responder.head =
      request.adopted responder.head := by
  cases request with
  | status peer => rfl
  | sync peer asked =>
    simp only [Responder.handle, Responder.onSyncRequest]
    split <;> rfl
  | ledgerUpdate header phase now =>
    simp only [Responder.handle, Responder.onLedgerUpdate, Request.adopted, Header.adopt]
    split
    next ahead =>
      split
      next => rfl
      next => exact head_tell ..
    next known => rfl

/-! ## Local commits -/

namespace Ledger

variable {ledger after : Ledger} {batch : List Transaction} {header : Header}

theorem epoch_of_append (appended : ledger.append batch = (.ok header, after)) :
    header.epoch = ledger.header.epoch := by
  unfold append at appended
  simp only at appended
  split at appended
  next timestamp _ => cases appended; rfl
  next => cases appended

/-- A batch takes the ledger further; without transactions only its timestamp moves. -/
theorem Coherent.trails_of_append (coherent : ledger.Coherent)
    (room : ledger.version.toNat + batch.length < UInt64.size)
    (appended : ledger.append batch = (.ok header, after)) {exact : Prop}
    (nonempty : exact → batch ≠ []) : ledger.header.Trails exact header := by
  have epoch := epoch_of_append appended
  obtain ⟨version, accumulator, -⟩ := append_eq_ok appended
  cases batch with
  | nil =>
    right
    refine ⟨?_, epoch.symm, ?_, fun certain => absurd rfl (nonempty certain)⟩
    · rw [version, ← Version.toNat_inj, Version.toNat_advance]
      show ledger.version.toNat = min (ledger.version.toNat + 0) (UInt64.size - 1)
      have bound := ledger.version.toNat_lt_size
      omega
    · rw [accumulator, coherent.lastAccumulator, coherent.accumulator, Digest.accumulateAll_nil]
  | cons first rest =>
    left
    rw [Version.lt_iff, version, Version.toNat_advance]
    show ledger.version.toNat < min (ledger.version.toNat + _) (UInt64.size - 1)
    rw [List.length_cons] at room ⊢
    omega

end Ledger

end Catchup
