import Catchup.Settings.Basic

/-! Which settings are accepted.

Accepted settings are the draft itself. A draft is refused for a limit of no peers, for a rate that
is not a positive number, or for a delay of zero, and the error names the first of these. How long a
ban lasts is not looked at. -/

set_option autoImplicit false

namespace Catchup.Settings

/-- No delay is zero. -/
structure Usable (settings : Settings) : Prop where
  checkInterval : 0 < settings.checkInterval
  statusWindow : 0 < settings.statusWindow
  requestTimeout : 0 < settings.requestTimeout
  commitTimeout : 0 < settings.commitTimeout

/-- The flaws that settings have, whichever of them is found first. -/
inductive Flawed (settings : Settings) : Flaw → Prop where
  | limit : settings.checkLimit = some 0 → Flawed settings (.zero "sync_check_max_peers")
  | rate : ¬ (settings.updateRate.isFinite = true ∧ 0 < settings.updateRate) →
      Flawed settings (.unusableRate settings.updateRate)
  | delay {field : String} : (field, 0) ∈ settings.delays → Flawed settings (.zero field)

variable {draft settings : Settings}

theorem usableRate_iff {rate : Float} :
    usableRate rate = true ↔ rate.isFinite = true ∧ 0 < rate := by
  simp [usableRate]

theorem flawed_of_validate {flaw : Flaw} (refused : draft.validate = .error flaw) :
    draft.Flawed flaw := by
  unfold validate at refused
  split at refused
  next limited => cases refused; exact .limit limited
  next =>
    split at refused
    next unusable =>
      cases refused
      refine .rate fun usable => ?_
      rw [usableRate_iff.mpr usable] at unusable
      cases unusable
    next =>
      split at refused
      next field delay found =>
        cases refused
        have zero : delay = 0 := by simpa using List.find?_some found
        exact .delay (zero ▸ List.mem_of_find?_eq_some found)
      next => cases refused

/-- What is accepted has no flaw and stays as it is. -/
theorem of_validate (accepted : draft.validate = .ok settings) :
    (∀ flaw, ¬ draft.Flawed flaw) ∧ settings = draft := by
  unfold validate at accepted
  split at accepted
  next => cases accepted
  next unlimited =>
    split at accepted
    next => cases accepted
    next usable =>
      split at accepted
      next => cases accepted
      next positive =>
        cases accepted
        refine ⟨fun flaw flawed => ?_, rfl⟩
        cases flawed with
        | limit limited => exact unlimited limited
        | rate unusable =>
          rw [← usableRate_iff] at unusable
          exact usable (by simpa using unusable)
        | delay listed => exact List.find?_eq_none.mp positive _ listed rfl

theorem refused_iff :
    (∃ flaw, draft.validate = .error flaw) ↔
      draft.checkLimit = some 0 ∨
      ¬ (draft.updateRate.isFinite = true ∧ 0 < draft.updateRate) ∨
      draft.checkInterval = 0 ∨ draft.statusWindow = 0 ∨ draft.requestTimeout = 0 ∨
      draft.commitTimeout = 0 := by
  constructor
  · rintro ⟨flaw, refused⟩
    cases flawed_of_validate refused with
    | limit limited => exact .inl limited
    | rate unusable => exact .inr (.inl unusable)
    | delay listed =>
      right; right
      simp only [delays, List.mem_cons, Prod.mk.injEq, List.not_mem_nil, or_false] at listed
      omega
  · intro flawed
    cases validated : draft.validate with
    | error flaw => exact ⟨flaw, rfl⟩
    | ok settings =>
      obtain ⟨flawless, -⟩ := of_validate validated
      have positive : ∀ delay ∈ draft.delays, delay.2 ≠ 0 :=
        fun (field, delay) listed zero => flawless (.zero field) (.delay (zero ▸ listed))
      simp only [delays, List.forall_mem_cons] at positive
      rcases flawed with limited | unusable | zero
      · exact (flawless _ (.limit limited)).elim
      · exact (flawless _ (.rate unusable)).elim
      · omega

theorem usable_of_validate (validated : draft.validate = .ok settings) : settings.Usable := by
  obtain ⟨-, rfl⟩ := of_validate validated
  have accepted : ¬ ∃ flaw, settings.validate = .error flaw := by simp [validated]
  rw [refused_iff] at accepted
  constructor <;> omega

end Catchup.Settings
