import Catchup.Candidates
import Mathlib.Data.List.Infix
import Mathlib.Data.List.Nodup
import Mathlib.Data.List.Rotate

/-! A queue of candidates as a cycle.

Serving the front and moving it to the back turns the cycle by one place, so after one lap the queue
is what it was. A peer that is put in front, or dropped, joins or leaves the cycle at one place. The
peers that stay come round in the same order all the time, wherever the front is. -/

set_option autoImplicit false

namespace Catchup

/-- What is chosen from two forms of one cycle makes up one cycle again. -/
theorem isRotated_filter {α : Type} {items turned : List α} (same : items ~r turned)
    (chosen : α → Bool) : items.filter chosen ~r turned.filter chosen := by
  obtain ⟨places, rfl⟩ := same
  have halves := List.take_append_drop (places % items.length) items
  rw [List.rotate_eq_drop_append_take_mod, List.filter_append]
  nth_rewrite 1 [← halves]
  rw [List.filter_append]
  exact List.isRotated_append

namespace Candidates

variable {queue : Candidates} {peer other : PeerId}

/-! ## Turning -/

theorem peers_rotate (queue : Candidates) : queue.rotate.peers = queue.peers.rotate 1 := by
  obtain ⟨peers⟩ := queue
  cases peers with
  | nil => rfl
  | cons first rest => rw [List.rotate_cons_succ, List.rotate_zero, rotate_cons]

theorem isRotated_rotate (queue : Candidates) : queue.peers ~r queue.rotate.peers :=
  ⟨1, queue.peers_rotate.symm⟩

theorem isRotated_rotatePast (queue : Candidates) (peer : PeerId) :
    queue.peers ~r (queue.rotatePast peer).2.peers := by
  unfold rotatePast
  split
  · exact queue.isRotated_rotate
  · exact List.IsRotated.refl _

theorem perm_rotatePast (queue : Candidates) (peer : PeerId) :
    (queue.rotatePast peer).2.peers.Perm queue.peers :=
  (queue.isRotated_rotatePast peer).perm.symm

/-- Of distinct peers, one that stands both in front and at the back stands alone. -/
theorem rotatePast_of_last (distinct : queue.peers.Nodup)
    (last : queue.peers.getLast? = some peer) : (queue.rotatePast peer).2 = queue := by
  unfold rotatePast
  split
  next front =>
    obtain ⟨peers⟩ := queue
    cases peers with
    | nil => rfl
    | cons first rest =>
      obtain rfl : first = peer := Option.some.inj front
      cases rest with
      | nil => rfl
      | cons second rest =>
        have later : first ∈ second :: rest := List.mem_of_getLast? last
        exact absurd later (List.nodup_cons.mp distinct).1
  next => rfl

theorem moved_rotatePast (queue : Candidates) (peer : PeerId) :
    (queue.rotatePast peer).1 = decide (queue.front? = some peer) := by
  unfold rotatePast
  split
  next front => exact (decide_eq_true front).symm
  next behind => exact (decide_eq_false behind).symm

theorem peekNth?_rotate (queue : Candidates) (turns : Nat) :
    queue.rotate.peekNth? turns = queue.peekNth? (turns + 1) := by
  have lap : queue.rotate.size = queue.size := queue.isRotated_rotate.perm.length_eq.symm
  rw [peekNth?, peekNth?, lap, peers_rotate]
  rcases Nat.eq_zero_or_pos queue.size with empty | positive
  · rw [List.eq_nil_of_length_eq_zero empty]
    rfl
  · have within : turns % queue.size < queue.peers.length := Nat.mod_lt turns positive
    rw [List.getElem?_rotate within]
    exact congrArg (queue.peers[·]?) (Nat.mod_add_mod turns queue.size 1)

/-! ## Joining and leaving -/

theorem insert_of_mem (held : peer ∈ queue.peers) : queue.insert peer = queue :=
  if_pos (List.elem_iff.mpr held)

theorem peers_insert_of_not_mem (absent : peer ∉ queue.peers) :
    (queue.insert peer).peers = peer :: queue.peers := by
  have strange : ¬ queue.contains peer = true := mt List.elem_iff.mp absent
  rw [insert, if_neg strange]

theorem mem_insert : other ∈ (queue.insert peer).peers ↔ other = peer ∨ other ∈ queue.peers := by
  by_cases held : peer ∈ queue.peers
  · rw [insert_of_mem held, or_iff_right_of_imp]
    rintro rfl
    exact held
  · rw [peers_insert_of_not_mem held, List.mem_cons]

theorem count_le_count_insert (queue : Candidates) (other peer : PeerId) :
    queue.peers.count peer ≤ (queue.insert other).peers.count peer := by
  by_cases held : other ∈ queue.peers
  · rw [insert_of_mem held]
  · rw [peers_insert_of_not_mem held]
    exact List.count_le_count_cons

theorem count_insert_of_ne (different : other ≠ peer) :
    (queue.insert other).peers.count peer = queue.peers.count peer := by
  by_cases held : other ∈ queue.peers
  · rw [insert_of_mem held]
  · rw [peers_insert_of_not_mem held, List.count_cons_of_ne different]

theorem nodup_insert (distinct : queue.peers.Nodup) (peer : PeerId) :
    (queue.insert peer).peers.Nodup := by
  by_cases held : peer ∈ queue.peers
  · rw [insert_of_mem held]
    exact distinct
  · rw [peers_insert_of_not_mem held]
    exact List.nodup_cons.mpr ⟨held, distinct⟩

/-- A peer that is put in front moves the others back by one place. -/
theorem idxOf_insert_le (held : peer ∈ queue.peers) (other : PeerId) :
    (queue.insert other).peers.idxOf peer ≤
      queue.peers.idxOf peer + if other ∈ queue.peers then 0 else 1 := by
  by_cases known : other ∈ queue.peers
  · rw [insert_of_mem known, if_pos known]
    exact Nat.le_refl _
  · have different : other ≠ peer := fun same => known (same ▸ held)
    rw [peers_insert_of_not_mem known, List.idxOf_cons_ne _ different, if_neg known]

theorem dropped_retain (queue : Candidates) (keep : PeerId → Bool) :
    (queue.retain keep).1 = queue.peers.countP (!keep ·) := by
  have parts := List.length_eq_length_filter_add (l := queue.peers) keep
  rw [List.countP_eq_length_filter]
  show queue.peers.length - (queue.peers.filter keep).length = _
  omega

/-! ## Operations -/

/-- What is done to a queue. Each place is judged once by `retain`, so among distinct peers any
judgement is a function of the peer. -/
inductive Operation where
  | fetchNext
  | rotatePast (peer : PeerId)
  | insert (peer : PeerId)
  | retain (keep : PeerId → Bool)

inductive Answer where
  | served (peer? : Option PeerId)
  | moved (turned : Bool)
  | dropped (count : Nat)
  | done
  deriving DecidableEq, Repr

/-- What an operation answers, and the queue that it leaves; where there is nobody to serve, the
queue is left alone. -/
def perform (queue : Candidates) : Operation → Answer × Candidates
  | .fetchNext => (.served (queue.fetchNext.map Prod.fst), queue.fetchNext.elim queue Prod.snd)
  | .rotatePast peer => (queue.rotatePast peer).map .moved id
  | .insert peer => (.done, queue.insert peer)
  | .retain keep => (queue.retain keep).map .dropped id

/-- The answers to these operations, one after another. -/
def answers : Candidates → List Operation → List Answer
  | _, [] => []
  | queue, operation :: later =>
    (queue.perform operation).1 :: (queue.perform operation).2.answers later

/-- The queue that these operations leave behind. -/
def after (queue : Candidates) (operations : List Operation) : Candidates :=
  operations.foldl (fun queue operation => (queue.perform operation).2) queue

/-- The peer is in the queue at the start, and after each of the operations. -/
def Stays (queue : Candidates) (operations : List Operation) (peer : PeerId) : Prop :=
  ∀ earlier ∈ operations.inits, peer ∈ (queue.after earlier).peers

instance (queue : Candidates) (operations : List Operation) :
    DecidablePred (queue.Stays operations) :=
  fun _ => inferInstanceAs (Decidable (∀ earlier ∈ _, _ ∈ _))

/-- Who is in the queue after an operation, and what it answers. -/
inductive Changes (before : Candidates) : Operation → Answer × Candidates → Prop where
  | served {after : Candidates} :
      (∀ peer, peer ∈ after.peers ↔ peer ∈ before.peers) →
      Changes before .fetchNext (.served before.front?, after)
  | moved {peer : PeerId} {after : Candidates} :
      (∀ other, other ∈ after.peers ↔ other ∈ before.peers) →
      Changes before (.rotatePast peer) (.moved (before.front? = some peer), after)
  | known {peer : PeerId} : peer ∈ before.peers →
      Changes before (.insert peer) (.done, before)
  | joined {peer : PeerId} {after : Candidates} : peer ∉ before.peers →
      (∀ other, other ∈ after.peers ↔ other = peer ∨ other ∈ before.peers) →
      (after.perform .fetchNext).1 = .served (some peer) →
      Changes before (.insert peer) (.done, after)
  | dropped {keep : PeerId → Bool} {after : Candidates} :
      (∀ peer, peer ∈ after.peers ↔ peer ∈ before.peers ∧ keep peer = true) →
      Changes before (.retain keep) (.dropped (before.peers.countP (!keep ·)), after)

@[simp] theorem after_nil (queue : Candidates) : queue.after [] = queue := rfl

@[simp] theorem after_cons (queue : Candidates) (operation : Operation) (later : List Operation) :
    queue.after (operation :: later) = (queue.perform operation).2.after later := rfl

theorem perform_fetchNext (queue : Candidates) :
    queue.perform .fetchNext = (.served queue.front?, queue.rotate) := by
  obtain ⟨peers⟩ := queue
  cases peers <;> rfl

theorem stays_cons {operation : Operation} {later : List Operation} :
    queue.Stays (operation :: later) peer ↔
      peer ∈ queue.peers ∧ (queue.perform operation).2.Stays later peer := by
  simp [Stays]

theorem Stays.mem {operations : List Operation} (stays : queue.Stays operations peer) :
    peer ∈ queue.peers := by
  cases operations with
  | nil => exact stays [] (List.mem_singleton_self [])
  | cons operation later => exact (stays_cons.mp stays).1

/-! ## One operation -/

theorem changes_perform (queue : Candidates) (operation : Operation) :
    queue.Changes operation (queue.perform operation) := by
  cases operation with
  | fetchNext =>
    rw [perform_fetchNext]
    exact .served fun _ => queue.isRotated_rotate.mem_iff.symm
  | rotatePast peer =>
    rw [perform, Prod.map, moved_rotatePast]
    exact .moved fun _ => (queue.isRotated_rotatePast peer).mem_iff.symm
  | insert peer =>
    rw [perform]
    by_cases held : peer ∈ queue.peers
    · rw [insert_of_mem held]
      exact .known held
    · refine .joined held (fun _ => mem_insert) ?_
      rw [perform_fetchNext, front?, peers_insert_of_not_mem held, List.head?_cons]
  | retain keep =>
    rw [perform, Prod.map, dropped_retain]
    exact .dropped fun _ => List.mem_filter

theorem nodup_perform (distinct : queue.peers.Nodup) (operation : Operation) :
    (queue.perform operation).2.peers.Nodup := by
  cases operation with
  | fetchNext =>
    rw [perform_fetchNext]
    exact queue.isRotated_rotate.nodup_iff.mp distinct
  | rotatePast peer => exact (queue.isRotated_rotatePast peer).nodup_iff.mp distinct
  | insert peer => exact nodup_insert distinct peer
  | retain keep => exact distinct.filter keep

/-- Peers that are there both before and after an operation keep their order. -/
theorem isRotated_perform {chosen : PeerId → Bool} {operation : Operation}
    (before : ∀ peer, chosen peer = true → peer ∈ queue.peers)
    (after : ∀ peer, chosen peer = true → peer ∈ (queue.perform operation).2.peers) :
    queue.peers.filter chosen ~r (queue.perform operation).2.peers.filter chosen := by
  cases operation with
  | fetchNext =>
    rw [perform_fetchNext]
    exact isRotated_filter queue.isRotated_rotate chosen
  | rotatePast peer => exact isRotated_filter (queue.isRotated_rotatePast peer) chosen
  | insert peer =>
    by_cases held : peer ∈ queue.peers
    · rw [perform, insert_of_mem held]
    · -- The newcomer was not there before, so it is not among the chosen.
      have unchosen : ¬ chosen peer = true := mt (before peer) held
      rw [perform, peers_insert_of_not_mem held, List.filter_cons_of_neg unchosen]
  | retain keep =>
    have kept : (queue.peers.filter keep).filter chosen = queue.peers.filter chosen := by
      rw [List.filter_filter]
      apply List.filter_congr
      intro peer _
      cases picked : chosen peer with
      | false => rfl
      | true => exact (List.mem_filter.mp (after peer picked)).2
    rw [perform, Prod.map_snd, id, peers_retain, kept]

/-! ## Many operations -/

theorem peers_after_fetches (queue : Candidates) (calls : Nat) :
    (queue.after (List.replicate calls .fetchNext)).peers = queue.peers.rotate calls := by
  induction calls generalizing queue with
  | zero => exact (List.rotate_zero _).symm
  | succ calls ih =>
    rw [List.replicate_succ, after_cons, perform_fetchNext, ih, peers_rotate, List.rotate_rotate,
      Nat.add_comm]

theorem after_lap (queue : Candidates) :
    queue.after (List.replicate queue.size .fetchNext) = queue := by
  have lap := queue.peers_after_fetches queue.size
  rw [size, List.rotate_length] at lap
  exact congrArg Candidates.mk lap

theorem answers_fetches (queue : Candidates) (calls : Nat) :
    queue.answers (List.replicate calls .fetchNext) =
      (List.range calls).map fun turn => .served (queue.peekNth? turn) := by
  induction calls generalizing queue with
  | zero => rfl
  | succ calls ih =>
    -- The later calls are made of a queue that is one place on.
    rw [List.replicate_succ, answers, perform_fetchNext, ih, List.range_succ_eq_map, List.map_cons,
      List.map_map, peekNth?_zero]
    simp only [peekNth?_rotate]
    rfl

theorem nodup_after (distinct : queue.peers.Nodup) (operations : List Operation) :
    (queue.after operations).peers.Nodup := by
  induction operations generalizing queue with
  | nil => exact distinct
  | cons operation later ih => exact ih (nodup_perform distinct operation)

theorem isRotated_after {chosen : PeerId → Bool} {operations : List Operation}
    (stay : ∀ peer, chosen peer = true → queue.Stays operations peer) :
    queue.peers.filter chosen ~r (queue.after operations).peers.filter chosen := by
  induction operations generalizing queue with
  | nil => exact List.IsRotated.refl _
  | cons operation later ih =>
    have next peer (picked : chosen peer = true) := (stays_cons.mp (stay peer picked)).2
    have step := isRotated_perform (fun peer picked => (stay peer picked).mem)
      (fun peer picked => (next peer picked).mem)
    exact step.trans (ih next)

/-- Whoever is in the queue, and however often, successive calls serve the peers that `peekNth?`
foretells, and after one lap the queue is what it was. Whatever is done to a queue, distinct peers
stay distinct; serving and rotating leave the same peers there, `insert` puts a peer that is not
there in front and otherwise does nothing, and `retain` drops the peers that are refused and counts
them. The peers that stay all the time keep their cyclic order. -/
theorem turns_as_cycle (queue : Candidates) :
    (∀ calls, queue.answers (List.replicate calls .fetchNext) =
      (List.range calls).map fun turn => .served (queue.peekNth? turn)) ∧
    queue.after (List.replicate queue.size .fetchNext) = queue ∧
    ∀ operations,
      (queue.peers.Nodup → (queue.after operations).peers.Nodup) ∧
      (∀ operation, (queue.after operations).Changes operation
        ((queue.after operations).perform operation)) ∧
      ∀ chosen : PeerId → Bool, (∀ peer, chosen peer = true → queue.Stays operations peer) →
        queue.peers.filter chosen ~r (queue.after operations).peers.filter chosen := by
  refine ⟨queue.answers_fetches, queue.after_lap, fun operations => ⟨?_, ?_, ?_⟩⟩
  · intro distinct
    exact nodup_after distinct operations
  · intro operation
    exact changes_perform _ operation
  · intro chosen stay
    exact isRotated_after stay

/-- The queue turns, a newcomer is passed at once, and peer 9 leaves and comes back in front. The
three that have stayed keep their order; peer 9 now stands before peer 7 and not behind it. -/
theorem turns_as_cycle_past_return :
    let queue : Candidates := ⟨[⟨4⟩, ⟨7⟩, ⟨9⟩, ⟨11⟩]⟩
    let operations : List Operation := [.fetchNext, .insert ⟨2⟩, .rotatePast ⟨2⟩,
      .retain (· ≠ ⟨9⟩), .insert ⟨9⟩]
    let stayed : PeerId → Bool := [⟨4⟩, ⟨7⟩, ⟨11⟩].contains
    queue.answers operations = [.served (some ⟨4⟩), .done, .moved true, .dropped 1, .done] ∧
    (queue.after operations).peers = [⟨9⟩, ⟨7⟩, ⟨11⟩, ⟨4⟩, ⟨2⟩] ∧
    queue.peers.Nodup ∧ (queue.after operations).peers.Nodup ∧
    (queue.after operations).Changes .fetchNext
      (.served (some ⟨9⟩), ⟨[⟨7⟩, ⟨11⟩, ⟨4⟩, ⟨2⟩, ⟨9⟩]⟩) ∧
    (∀ peer, stayed peer = true → queue.Stays operations peer) ∧
    queue.peers.filter stayed ~r (queue.after operations).peers.filter stayed := by
  intro queue operations stayed
  have distinct : queue.peers.Nodup := by decide
  have stay : ∀ peer, stayed peer = true → queue.Stays operations peer := by
    have each : ∀ peer ∈ [⟨4⟩, ⟨7⟩, ⟨11⟩], queue.Stays operations peer := by decide
    exact fun peer picked => each peer (List.contains_iff_mem.mp picked)
  obtain ⟨-, -, kept⟩ := turns_as_cycle queue
  obtain ⟨apart, changes, order⟩ := kept operations
  exact ⟨rfl, rfl, distinct, apart distinct, changes .fetchNext, stay, order stayed stay⟩

end Candidates

end Catchup
