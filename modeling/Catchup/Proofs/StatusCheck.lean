import Catchup.StatusCheck
import Mathlib.Data.List.Induction

/-! A status check that gets all its answers, and the answer it decides for.

Answers come in the order in which the peers were asked, which is that of the directory. The best
one is the first of the highest, so that of the lowest-numbered peer that gave it. -/

set_option autoImplicit false

namespace Catchup

namespace PeerSet

theorem place_of_greatest {peer : PeerId} {peers : List PeerId}
    (greatest : ∀ other ∈ peers, other < peer) : place peer peers = peers ++ [peer] := by
  induction peers with
  | nil => rfl
  | cons first rest ih =>
    have before := PeerId.lt_iff.mp (greatest first List.mem_cons_self)
    have notBefore : ¬ peer < first := fun after =>
      Nat.lt_asymm before (PeerId.lt_iff.mp after)
    have other : peer ≠ first := fun same => Nat.lt_irrefl _ (same ▸ before)
    rw [place, if_neg notBefore, if_neg other,
      ih fun later member => greatest later (List.mem_cons_of_mem first member)]
    rfl

theorem toList_foldl_insert {peers : List PeerId} (set : PeerSet)
    (ascending : (set.toList ++ peers).Pairwise (· < ·)) :
    (peers.foldl insert set).toList = set.toList ++ peers := by
  induction peers generalizing set with
  | nil => simp
  | cons first rest ih =>
    have placed : (set.insert first).toList = set.toList ++ [first] :=
      place_of_greatest fun other member =>
        (List.pairwise_append.mp ascending).2.2 other member first List.mem_cons_self
    rw [List.foldl_cons, ih, placed, List.append_assoc, List.singleton_append]
    rw [placed, List.append_assoc, List.singleton_append]
    exact ascending

theorem toList_ofList {peers : List PeerId} (ascending : peers.Pairwise (· < ·)) :
    (ofList peers).toList = peers := toList_foldl_insert empty ascending

theorem erase_first {set : PeerSet} {first : PeerId} {rest : List PeerId}
    (listed : set.toList = first :: rest) : (set.erase first).toList = rest := by
  have ascending := set.ascending
  rw [listed] at ascending
  have later (other : PeerId) (member : other ∈ rest) : other ≠ first := by
    rintro rfl
    exact Nat.lt_irrefl _ (PeerId.lt_iff.mp ((List.pairwise_cons.mp ascending).1 other member))
  show set.toList.filter (· ≠ first) = rest
  rw [listed, List.filter_cons_of_neg (by simp), List.filter_eq_self]
  simpa using later

end PeerSet

namespace StatusCheck

/-- The peers heard have each answered with a head, and those waited for are still to come. -/
structure Gathers (heads : PeerId → Header) (head : Header) (heard waiting : List PeerId)
    (check : StatusCheck) : Prop where
  head : check.head = head
  waiting : check.waitingFor.toList = waiting
  answers : check.answers = heard.map fun peer => (peer, heads peer)

variable {heads : PeerId → Header} {head : Header} {heard waiting peers : List PeerId}
  {check : StatusCheck} {peer : PeerId}

theorem gathers_ofPeers (number : UInt64) (ascending : peers.Pairwise (· < ·)) :
    Gathers heads head [] peers (ofPeers number head peers) :=
  ⟨rfl, PeerSet.toList_ofList ascending, rfl⟩

theorem Gathers.isWaitingFor (gathers : Gathers heads head heard (peer :: waiting) check) :
    check.isWaitingFor peer = true :=
  isWaitingFor_iff.mpr (gathers.waiting ▸ List.mem_cons_self)

theorem Gathers.record (gathers : Gathers heads head heard (peer :: waiting) check) :
    Gathers heads head (heard ++ [peer]) waiting (check.record peer (heads peer)) := by
  rw [record_of_waiting gathers.isWaitingFor]
  refine ⟨gathers.head, PeerSet.erase_first gathers.waiting, ?_⟩
  rw [gathers.answers, List.map_append, List.map_singleton]

theorem Gathers.isComplete_iff (gathers : Gathers heads head heard waiting check) :
    check.isComplete = true ↔ waiting = [] := by
  rw [StatusCheck.isComplete_iff, gathers.waiting]

/-! ## The best answer -/

/-- Ahead of every answer before it, and no answer after it is ahead of it. -/
def FirstHighest (answers : List (PeerId × Header)) (answer : PeerId × Header) : Prop :=
  ∃ earlier later, answers = earlier ++ answer :: later ∧
    (∀ other ∈ earlier, other.2.version < answer.2.version) ∧
    ∀ other ∈ later, other.2.version ≤ answer.2.version

theorem FirstHighest.le {answers : List (PeerId × Header)} {answer other : PeerId × Header}
    (highest : FirstHighest answers answer) (member : other ∈ answers) :
    other.2.version ≤ answer.2.version := by
  obtain ⟨earlier, later, rfl, below, notAbove⟩ := highest
  rcases List.mem_append.mp member with before | after
  · exact Version.le_of_lt (below other before)
  · rcases List.mem_cons.mp after with rfl | after
    · exact Version.le_refl _
    · exact notAbove other after

theorem foldl_better (answers : List (PeerId × Header)) :
    (answers = [] ∧ answers.foldl better none = none) ∨
    ∃ answer, answers.foldl better none = some answer ∧ FirstHighest answers answer := by
  induction answers using List.reverseRecOn with
  | nil => exact .inl ⟨rfl, rfl⟩
  | append_singleton answers last ih =>
    right
    rw [List.foldl_append, List.foldl_cons, List.foldl_nil]
    rcases ih with ⟨rfl, none⟩ | ⟨held, best, highest⟩
    · exact ⟨last, by rw [none]; rfl, [], [], rfl, nofun, nofun⟩
    · rw [best]
      by_cases ahead : last.2.isAheadOf held.2 = true
      · refine ⟨last, if_pos ahead, answers, [], rfl, fun other member => ?_, nofun⟩
        exact Version.lt_of_le_of_lt (highest.le member) (Header.isAheadOf_iff_lt.mp ahead)
      · obtain ⟨earlier, later, rfl, below, notAbove⟩ := highest
        refine ⟨held, if_neg ahead, earlier, later ++ [last], by simp, below,
          fun other member => ?_⟩
        rcases List.mem_append.mp member with before | new
        · exact notAbove other before
        · cases List.mem_singleton.mp new
          exact Header.isAheadOf_eq_false_iff.mp (Bool.eq_false_iff.mpr ahead)

/-- A check decides for the lowest-numbered of the peers that gave the highest answer. -/
theorem Gathers.best? (gathers : Gathers heads head heard waiting check)
    (ascending : heard.Pairwise (· < ·)) :
    (heard = [] ∧ check.best? = none) ∨
    ∃ chosen ∈ heard, check.best? = some (chosen, heads chosen) ∧
      ∀ other ∈ heard, (heads other).version ≤ (heads chosen).version ∧
        (other < chosen → (heads other).version < (heads chosen).version) := by
  rw [StatusCheck.best?, gathers.answers]
  rcases foldl_better (heard.map fun peer => (peer, heads peer)) with
    ⟨nobody, none⟩ | ⟨⟨chosen, target⟩, best, highest⟩
  · exact .inl ⟨List.map_eq_nil_iff.mp nobody, none⟩
  have answered (other : PeerId) (member : other ∈ heard) :
      (other, heads other) ∈ heard.map fun peer => (peer, heads peer) :=
    List.mem_map.mpr ⟨other, member, rfl⟩
  obtain ⟨earlier, later, split, below, -⟩ := id highest
  obtain ⟨member, same⟩ : chosen ∈ heard ∧ target = heads chosen := by
    have given : (chosen, target) ∈ heard.map fun peer => (peer, heads peer) := split ▸ by simp
    obtain ⟨peer, member, same⟩ := List.mem_map.mp given
    cases same
    exact ⟨member, rfl⟩
  subst same
  refine .inr ⟨chosen, member, best, fun other told => ⟨highest.le (answered other told), ?_⟩⟩
  intro before
  refine below (other, heads other) ?_
  -- Whoever comes after the chosen peer has a larger number.
  rcases List.mem_append.mp (split ▸ answered other told) with earlier | later
  · exact earlier
  have ordered : (heard.map fun peer => (peer, heads peer)).Pairwise fun first second =>
      first.1 < second.1 := List.pairwise_map.mpr ascending
  rw [split] at ordered
  have after := (List.pairwise_cons.mp (List.pairwise_append.mp ordered).2.1).1
  rcases List.mem_cons.mp later with same | later
  · cases same
    exact absurd before (Nat.lt_irrefl _ ∘ PeerId.lt_iff.mp)
  · exact absurd (PeerId.lt_iff.mp before) (Nat.lt_asymm (PeerId.lt_iff.mp (after _ later)))

end StatusCheck

end Catchup
