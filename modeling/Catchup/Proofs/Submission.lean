import Catchup.Proofs.Verification

/-! What is handed to the committer.

An extension that was asked for is handed over only if its transactions count from its start to its
finish. The count stops at the largest version, so a batch of any size that reaches beyond it passes
for one that ends there. What does not count is held against its sender, and no committer hears of
it. -/

set_option autoImplicit false

namespace Catchup

namespace Extension

variable {extension : Extension}

/-- The transactions count up to the finish, or beyond the largest version where that is the
finish. -/
def Counts (extension : Extension) : Prop :=
  extension.start.version.toNat + extension.transactions.length =
      extension.finish.version.toNat ∨
    extension.finish.version.toNat + 1 = UInt64.size ∧
      UInt64.size ≤ extension.start.version.toNat + extension.transactions.length

theorem impliedVersion_eq_iff :
    extension.impliedVersion = extension.finish.version ↔ extension.Counts := by
  have bound := extension.finish.version.toNat_lt_size
  rw [← Version.toNat_inj, impliedVersion, Version.toNat_advance, Counts]
  omega

end Extension

namespace Verification

variable {σ : Type} {proofs : Proofs} {commit : Committer σ} {pursuit : Pursuit} {peer : PeerId}
  {extension : Extension} {store : σ} {noted : List Extension}

/-- A committer that notes what it is asked to commit. -/
def noting (commit : Committer σ) : Committer (σ × List Extension) :=
  fun extension (store, noted) =>
    ((commit extension store).1, (commit extension store).2, noted ++ [extension])

/-- Noting changes nothing else, and only what has passed both checks is noted. -/
theorem judge_noting_of_checked (solicited : checkSolicited pursuit peer extension = .ok ())
    (proven : checkProof proofs extension = .ok ()) :
    judge proofs (noting commit) pursuit peer extension (store, noted) =
      ((judge proofs commit pursuit peer extension store).1,
        (judge proofs commit pursuit peer extension store).2, noted ++ [extension]) := by
  simp only [judge, solicited, proven, noting]
  rcases commit extension store with ⟨⟨refusal⟩ | ⟨⟨⟩⟩, after⟩ <;> rfl

theorem judge_noting_of_unchecked (unchecked : checkSolicited pursuit peer extension = .ok () →
      checkProof proofs extension ≠ .ok ()) :
    judge proofs (noting commit) pursuit peer extension (store, noted) =
      ((judge proofs commit pursuit peer extension store).1,
        (judge proofs commit pursuit peer extension store).2, noted) := by
  unfold judge
  cases solicited : checkSolicited pursuit peer extension with
  | error reason => rfl
  | ok =>
    cases proven : checkProof proofs extension with
    | error reason => rfl
    | ok => exact absurd proven (unchecked solicited)

theorem judge_of_empty (solicited : checkSolicited pursuit peer extension = .ok ())
    (empty : extension.transactions = []) :
    judge proofs commit pursuit peer extension store = (.malicious .emptyResponse, store) := by
  have unproven : checkProof proofs extension = .error .emptyResponse :=
    if_pos (List.isEmpty_iff.mpr empty)
  simp only [judge, solicited, unproven]

theorem judge_of_miscount (solicited : checkSolicited pursuit peer extension = .ok ())
    (nonempty : extension.transactions ≠ []) (miscount : ¬ extension.Counts) :
    judge proofs commit pursuit peer extension store =
      (.malicious (.inconsistentCount extension.start.version extension.transactions.length
        extension.finish.version), store) := by
  have some : ¬ extension.transactions.isEmpty = true := mt List.isEmpty_iff.mp nonempty
  have other := mt Extension.impliedVersion_eq_iff.mp miscount
  have unproven : checkProof proofs extension = .error (.inconsistentCount extension.start.version
      extension.transactions.length extension.finish.version) :=
    (if_neg some).trans (if_pos other)
  simp only [judge, solicited, unproven]

/-- Whatever is judged, by whichever proofs and for whichever committer: the committer is called at
most once and with the extension itself, exactly if that was asked for, is not empty, counts from
its start to its finish and is proven. So nothing else is accepted, and of what was asked for an
empty or a miscounted batch is named as such. -/
theorem hands_over_counted (proofs : Proofs) (commit : Committer σ) (pursuit : Pursuit)
    (peer : PeerId) (extension : Extension) (store : σ) :
    ∃ noted, judge proofs (noting commit) pursuit peer extension (store, []) =
        ((judge proofs commit pursuit peer extension store).1,
          (judge proofs commit pursuit peer extension store).2, noted) ∧
      (noted = [] ∨ noted = [extension]) ∧
      (noted = [extension] ↔
        checkSolicited pursuit peer extension = .ok () ∧ extension.transactions ≠ [] ∧
        extension.Counts ∧ proofs.hasQuorum extension.finish = true ∧
        proofs.signaturesMatch extension.finish = true) ∧
      ((judge proofs commit pursuit peer extension store).1 = .accepted →
        noted = [extension]) ∧
      (checkSolicited pursuit peer extension = .ok () →
        (extension.transactions = [] →
          judge proofs commit pursuit peer extension store =
            (.malicious .emptyResponse, store)) ∧
        (extension.transactions ≠ [] → ¬ extension.Counts →
          judge proofs commit pursuit peer extension store =
            (.malicious (.inconsistentCount extension.start.version
              extension.transactions.length extension.finish.version), store))) := by
  have named (solicited : checkSolicited pursuit peer extension = .ok ()) :
      (extension.transactions = [] → judge proofs commit pursuit peer extension store = _) ∧
      (extension.transactions ≠ [] → ¬ extension.Counts →
        judge proofs commit pursuit peer extension store = _) :=
    ⟨judge_of_empty solicited, judge_of_miscount solicited⟩
  by_cases checked : checkSolicited pursuit peer extension = .ok () ∧
      checkProof proofs extension = .ok ()
  · obtain ⟨solicited, proven⟩ := checked
    obtain ⟨nonempty, implied, quorum, signatures⟩ := checkProof_eq_ok_iff.mp proven
    have counts := Extension.impliedVersion_eq_iff.mp implied
    exact ⟨[extension], judge_noting_of_checked solicited proven, .inr rfl,
      iff_of_true rfl ⟨solicited, nonempty, counts, quorum, signatures⟩, fun _ => rfl, named⟩
  · refine ⟨[], judge_noting_of_unchecked (not_and.mp checked), .inl rfl,
      iff_of_false (by simp) ?_, fun accepted => ?_, named⟩
    · rintro ⟨solicited, nonempty, counts, quorum, signatures⟩
      have implied := Extension.impliedVersion_eq_iff.mpr counts
      exact checked ⟨solicited, checkProof_eq_ok_iff.mpr ⟨nonempty, implied, quorum, signatures⟩⟩
    · rcases judged : judge proofs commit pursuit peer extension store with ⟨verdict, after⟩
      rw [judged] at accepted
      subst accepted
      obtain ⟨solicited, proven, -⟩ := (decides_of_judge judged).accepted
      exact absurd ⟨solicited, proven⟩ checked

/-- Peer 1 has been asked for what follows a version. -/
def askedFrom (version target : Version) : Pursuit :=
  ⟨⟨version, 0, 0, .zero⟩, ⟨target, 0, 0, .zero⟩, .ofList [⟨1⟩], some ⟨⟨1⟩, ⟨1⟩⟩⟩

/-- Two transactions that are said to lead from one version to another. -/
def twoFrom (version finish : Version) : Extension :=
  ⟨⟨version, 0, 0, .zero⟩, [⟨[1]⟩, ⟨[2]⟩], ⟨finish, 0, 0, .zero⟩⟩

def commitAll : Committer Unit := fun _ store => (.ok (), store)

/-- From version 5 two transactions lead to version 7. As a batch up to version 8 they are refused,
and the committer is not called. -/
theorem hands_over_counted_from_fifth :
    judge .trusting (noting commitAll) (askedFrom ⟨5⟩ ⟨9⟩) ⟨1⟩ (twoFrom ⟨5⟩ ⟨7⟩) ((), []) =
      (.accepted, (), [twoFrom ⟨5⟩ ⟨7⟩]) ∧
    checkSolicited (askedFrom ⟨5⟩ ⟨9⟩) ⟨1⟩ (twoFrom ⟨5⟩ ⟨8⟩) = .ok () ∧
    (twoFrom ⟨5⟩ ⟨8⟩).transactions ≠ [] ∧ ¬ (twoFrom ⟨5⟩ ⟨8⟩).Counts ∧
    judge .trusting commitAll (askedFrom ⟨5⟩ ⟨9⟩) ⟨1⟩ (twoFrom ⟨5⟩ ⟨8⟩) () =
      (.malicious (.inconsistentCount ⟨5⟩ 2 ⟨8⟩), ()) := by
  obtain ⟨noted, judged, -, handed, -⟩ :=
    hands_over_counted .trusting commitAll (askedFrom ⟨5⟩ ⟨9⟩) ⟨1⟩ (twoFrom ⟨5⟩ ⟨7⟩) ()
  obtain ⟨-, -, -, -, -, named⟩ :=
    hands_over_counted .trusting commitAll (askedFrom ⟨5⟩ ⟨9⟩) ⟨1⟩ (twoFrom ⟨5⟩ ⟨8⟩) ()
  have counts : (twoFrom ⟨5⟩ ⟨7⟩).Counts := .inl (by decide)
  have differs : ¬ (twoFrom ⟨5⟩ ⟨8⟩).Counts := by
    rintro (exact | ⟨last, -⟩)
    · exact absurd exact (by decide)
    · exact absurd last (by decide)
  obtain rfl := handed.mpr ⟨rfl, by decide, counts, rfl, rfl⟩
  exact ⟨judged, rfl, by decide, differs, (named rfl).2 (by decide) differs⟩

def largest : Version := ⟨18446744073709551615⟩

def secondLargest : Version := ⟨18446744073709551614⟩

/-- Two transactions that overshoot the largest version by one are handed over and accepted. If the
committer finds fault with a payload, then it is that which is held against the sender. -/
theorem miscount_handed_over :
    secondLargest.toNat + (twoFrom secondLargest largest).transactions.length ≠ largest.toNat ∧
    judge .trusting (noting commitAll) (askedFrom secondLargest largest) ⟨1⟩
        (twoFrom secondLargest largest) ((), []) =
      (.accepted, (), [twoFrom secondLargest largest]) ∧
    (judge .trusting (fun _ store => (.error (.unparseableTransaction 0), store))
        (askedFrom secondLargest largest) ⟨1⟩ (twoFrom secondLargest largest) ()).1 =
      .malicious (.unparseableTransaction 0) :=
  ⟨by decide, rfl, rfl⟩

end Verification

end Catchup
