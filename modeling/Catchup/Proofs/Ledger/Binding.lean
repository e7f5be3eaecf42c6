import Catchup.Ledger.Extension

/-! An accumulator binds the history it was folded from: two histories of one length with one
accumulator are the same, or two different strings that were hashed on the way have one hash. -/

set_option autoImplicit false

namespace Catchup

namespace Blake3

def Clash (left right : List UInt8) : Prop := left ≠ right ∧ hash left = hash right

def Collides (strings : List (List UInt8)) : Prop :=
  ∃ left ∈ strings, ∃ right ∈ strings, Clash left right

theorem Collides.mono {strings more : List (List UInt8)} (collides : Collides strings)
    (subset : strings ⊆ more) : Collides more := by
  obtain ⟨left, inLeft, right, inRight, clash⟩ := collides
  exact ⟨left, subset inLeft, right, subset inRight, clash⟩

end Blake3

namespace Digest

theorem eq_or_clash {left right : List UInt8} (same : ofBytes left = ofBytes right) :
    left = right ∨ Blake3.Clash left right := by
  by_cases equal : left = right
  · exact .inl equal
  · exact .inr ⟨equal, congrArg Digest.bytes same⟩

theorem accumulate_eq (accumulator item : Digest) :
    accumulator.accumulate item = ofBytes (accumulator.toList ++ item.toList) := by
  simp [accumulate, ofParts]

/-- The strings that are hashed when transactions are folded into an accumulator. -/
def hashed (accumulator : Digest) : List Transaction → List (List UInt8)
  | [] => []
  | first :: rest =>
    first.payload :: (accumulator.toList ++ first.digest.toList) ::
      (accumulator.accumulate first.digest).hashed rest

theorem hashed_append (accumulator : Digest) (first second : List Transaction) :
    accumulator.hashed (first ++ second) =
      accumulator.hashed first ++ (accumulator.accumulateAll first).hashed second := by
  induction first generalizing accumulator with
  | nil => rfl
  | cons transaction rest ih =>
    simp only [List.cons_append, hashed, ih, accumulateAll_cons]

theorem accumulateAll_binds {left right : List Transaction} {first second : Digest}
    (length : left.length = right.length)
    (same : first.accumulateAll left = second.accumulateAll right) :
    (first = second ∧ left = right) ∨
      ∃ strings ∈ (first.hashed left).zip (second.hashed right),
        Blake3.Clash strings.1 strings.2 := by
  induction left generalizing right first second with
  | nil =>
    cases right with
    | nil => exact .inl ⟨same, rfl⟩
    | cons transaction rest => cases length
  | cons here left ih =>
    cases right with
    | nil => cases length
    | cons there right =>
      simp only [hashed, List.zip_cons_cons]
      rw [accumulateAll_cons, accumulateAll_cons] at same
      -- The last hash is undone first, so the rest of the fold comes before its first step.
      rcases ih (Nat.succ.inj length) same with ⟨totals, rfl⟩ | ⟨strings, member, clash⟩
      · rw [accumulate_eq, accumulate_eq] at totals
        rcases eq_or_clash totals with inputs | clash
        · obtain ⟨starts, digests⟩ := List.append_inj inputs (by simp)
          have items : ofBytes here.payload = ofBytes there.payload := toList_inj.mp digests
          rcases eq_or_clash items with payloads | clash
          · left
            cases here
            cases there
            cases payloads
            exact ⟨toList_inj.mp starts, rfl⟩
          · exact .inr ⟨_, List.mem_cons_self, clash⟩
        · exact .inr ⟨_, List.mem_cons_of_mem _ List.mem_cons_self, clash⟩
      · exact .inr ⟨strings, List.mem_cons_of_mem _ (List.mem_cons_of_mem _ member), clash⟩

/-- Seen from a store of strings that both folds have hashed. -/
theorem eq_or_collides {left right : List Transaction} {first second : Digest}
    {strings : List (List UInt8)} (length : left.length = right.length)
    (same : first.accumulateAll left = second.accumulateAll right)
    (hashedLeft : first.hashed left ⊆ strings) (hashedRight : second.hashed right ⊆ strings) :
    left = right ∨ Blake3.Collides strings := by
  rcases accumulateAll_binds length same with ⟨_, equal⟩ | ⟨⟨here, there⟩, member, clash⟩
  · exact .inl equal
  · obtain ⟨inLeft, inRight⟩ := List.of_mem_zip member
    exact .inr ⟨here, hashedLeft inLeft, there, hashedRight inRight, clash⟩

end Digest

end Catchup
