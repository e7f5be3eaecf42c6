import Catchup.Timers
import Mathlib.Data.List.Nodup
import Mathlib.Data.List.Perm.Subperm

/-! Timers, and what their table knows of them.

The table is told of a timer that has fired when its event is handled, and then forgets whichever
task stands for that timeout. If the timer has been set anew in between, that is the wrong one: it
has been overtaken, and sleeps on without an entry. Nothing else parts a sleeping task from the
table. -/

set_option autoImplicit false

namespace Catchup

/-- Timers on a clock, with the events that they have posted. -/
structure Timing where
  timers : Timers
  /-- What has been posted and not been handled, each event with the task that it comes from. -/
  posted : List Sleeper
  now : Nat
  deriving DecidableEq, Repr

namespace Timers

end Timers

namespace Timing

inductive Move where
  | schedule (timeout : Timeout) (delay : Nat)
  | wait (duration : Nat)
  | wake (tasks : List Nat)
  /-- The event at this place among the posted ones is handled. -/
  | handle (place : Nat)
  | cancel (timeout : Timeout)
  | cancelAll
  deriving DecidableEq, Repr

/-- The timer that a move sets. -/
def Move.set? : Move → Option Timeout
  | .schedule timeout _ => some timeout
  | _ => none

def take (timing : Timing) : Move → Timing
  | .schedule timeout delay =>
    { timing with timers := timing.timers.schedule timing.now timeout delay }
  | .wait duration => { timing with now := timing.now + duration }
  | .wake tasks =>
    let (woken, timers) := timing.timers.expireSome timing.now tasks
    { timing with timers, posted := timing.posted ++ woken }
  | .handle place =>
    match timing.posted[place]? with
    | some event =>
      { timing with
        timers := timing.timers.fired event.timeout, posted := timing.posted.eraseIdx place }
    | none => timing
  | .cancel timeout => { timing with timers := timing.timers.cancel timeout }
  | .cancelAll => { timing with timers := timing.timers.cancelAll }

/-- The timeout whose event a move handles. -/
def handled? (timing : Timing) : Move → Option Timeout
  | .handle place => timing.posted[place]?.map (·.timeout)
  | _ => none

/-- Where the moves lead, the last of them first. -/
def reached : List Move → Timing
  | [] => ⟨.empty, [], 0⟩
  | move :: earlier => (reached earlier).take move

/-- The timeouts whose events have been handled since the task was started. -/
def handledSince (task : Nat) : List Move → List Timeout
  | [] => []
  | move :: earlier =>
    if (reached earlier).timers.nextTask ≤ task then []
    else ((reached earlier).handled? move).toList ++ handledSince task earlier

/-- An event of the same timeout has been handled while the task was asleep; the table takes it for
the event of this task. -/
def Overtaken (moves : List Move) (sleeper : Sleeper) : Prop :=
  sleeper.timeout ∈ handledSince sleeper.task moves

instance (moves : List Move) : DecidablePred (Overtaken moves) :=
  fun _ => inferInstanceAs (Decidable (_ ∈ _))

/-- The timer has never been set while an event of it was waiting to be handled. -/
def Apart (timeout : Timeout) : List Move → Prop
  | [] => True
  | move :: earlier => Apart timeout earlier ∧
      (move.set? = some timeout → ∀ event ∈ (reached earlier).posted, event.timeout ≠ timeout)

instance decidableApart (timeout : Timeout) : (moves : List Move) → Decidable (Apart timeout moves)
  | [] => inferInstanceAs (Decidable True)
  | _ :: earlier =>
    have := decidableApart timeout earlier
    inferInstanceAs (Decidable (_ ∧ (_ → ∀ event ∈ (reached earlier).posted, _)))

end Timing

namespace Timers

/-! ## The table -/

/-- One task stands for a timeout, every task has a number of its own, and the table says of each
task that it names what it is for. -/
structure Sound (timers : Timers) : Prop where
  keys : (timers.table.map Prod.fst).Nodup
  tasks : (timers.sleepers.map (·.task)).Nodup
  named : ∀ entry ∈ timers.table, ∀ sleeper ∈ timers.sleepers,
    sleeper.task = entry.2 → sleeper.timeout = entry.1
  entered : ∀ entry ∈ timers.table, entry.2 < timers.nextTask
  started : ∀ sleeper ∈ timers.sleepers, sleeper.task < timers.nextTask

variable {timers smaller : Timers}

theorem mem_table_forget {timeout : Timeout} {entry : Timeout × Nat} :
    entry ∈ (timers.forget timeout).table ↔ entry ∈ timers.table ∧ entry.1 ≠ timeout := by
  simp [forget]

/-- What loses entries and sleepers and starts no task stays sound. -/
theorem Sound.of_sublist (sound : timers.Sound) (table : smaller.table.Sublist timers.table)
    (sleepers : smaller.sleepers.Sublist timers.sleepers)
    (same : smaller.nextTask = timers.nextTask) : smaller.Sound := by
  constructor
  · exact sound.keys.sublist (table.map _)
  · exact sound.tasks.sublist (sleepers.map _)
  · intro entry entered sleeper asleep
    exact sound.named entry (table.subset entered) sleeper (sleepers.subset asleep)
  · intro entry entered
    rw [same]
    exact sound.entered entry (table.subset entered)
  · intro sleeper asleep
    rw [same]
    exact sound.started sleeper (sleepers.subset asleep)

theorem Sound.eq_of_entries (sound : timers.Sound) {timeout : Timeout} {first second : Nat}
    (one : (timeout, first) ∈ timers.table) (other : (timeout, second) ∈ timers.table) :
    first = second :=
  congrArg Prod.snd (List.inj_on_of_nodup_map sound.keys one other rfl)

theorem Sound.lookup_eq_some_iff (sound : timers.Sound) {timeout : Timeout} {task : Nat} :
    timers.table.lookup timeout = some task ↔ (timeout, task) ∈ timers.table := by
  have stands {found : Nat} (looked : timers.table.lookup timeout = some found) :
      (timeout, found) ∈ timers.table := by
    obtain ⟨first, last, table, -⟩ := List.lookup_eq_some_iff.mp looked
    rw [table]
    exact List.mem_append_right first List.mem_cons_self
  constructor
  · exact stands
  · intro entered
    cases looked : timers.table.lookup timeout with
    | none => simpa using List.lookup_eq_none_iff.mp looked _ entered
    | some found => rw [sound.eq_of_entries (stands looked) entered]

/-! ## What each operation does to a sleeping task -/

theorem table_cancel (timers : Timers) (timeout : Timeout) :
    (timers.cancel timeout).table = (timers.forget timeout).table := by
  unfold cancel
  split
  next => rfl
  next missing =>
    have others := List.lookup_eq_none_iff.mp missing
    apply Eq.symm
    apply List.filter_eq_self.mpr
    intro entry entered
    have other : (timeout == entry.1) = false := by simpa using others entry entered
    exact decide_eq_true (beq_eq_false_iff_ne.mp other).symm

theorem mem_table_cancel {timeout : Timeout} {entry : Timeout × Nat} :
    entry ∈ (timers.cancel timeout).table ↔ entry ∈ timers.table ∧ entry.1 ≠ timeout := by
  rw [table_cancel, mem_table_forget]

theorem Sound.mem_sleepers_cancel (sound : timers.Sound) {timeout : Timeout} {sleeper : Sleeper} :
    sleeper ∈ (timers.cancel timeout).sleepers ↔
      sleeper ∈ timers.sleepers ∧ (timeout, sleeper.task) ∉ timers.table := by
  rw [← sound.lookup_eq_some_iff]
  unfold cancel
  split
  next task found =>
    rw [List.mem_filter, found, decide_eq_true_eq, ne_comm, ne_eq, Option.some_inj]
  next missing => simp [missing]

theorem sublist_cancel (timers : Timers) (timeout : Timeout) :
    (timers.cancel timeout).sleepers.Sublist timers.sleepers := by
  unfold cancel
  split
  · exact List.filter_sublist
  · exact List.Sublist.refl _

theorem nextTask_cancel (timers : Timers) (timeout : Timeout) :
    (timers.cancel timeout).nextTask = timers.nextTask := by
  unfold cancel
  split <;> rfl

theorem Sound.forget (sound : timers.Sound) (timeout : Timeout) :
    (timers.forget timeout).Sound :=
  sound.of_sublist List.filter_sublist (List.Sublist.refl _) rfl

theorem Sound.cancel (sound : timers.Sound) (timeout : Timeout) :
    (timers.cancel timeout).Sound := by
  apply sound.of_sublist
  · rw [table_cancel]
    exact List.filter_sublist
  · exact timers.sublist_cancel timeout
  · exact timers.nextTask_cancel timeout

theorem Sound.cancelAll (sound : timers.Sound) : timers.cancelAll.Sound :=
  sound.of_sublist (List.nil_sublist _) List.filter_sublist rfl

theorem Sound.expireSome (sound : timers.Sound) (now : Nat) (tasks : List Nat) :
    (timers.expireSome now tasks).2.Sound :=
  sound.of_sublist (List.Sublist.refl _) List.filter_sublist rfl

/-- A task may be started for a timeout that no other one stands for. -/
theorem Sound.start (sound : timers.Sound) {timeout : Timeout} (due : Nat)
    (vacant : ∀ entry ∈ timers.table, entry.1 ≠ timeout) :
    Sound ⟨timers.table ++ [(timeout, timers.nextTask)],
      timers.sleepers ++ [⟨timers.nextTask, timeout, due⟩], timers.nextTask + 1⟩ := by
  constructor
  · rw [List.map_append, List.nodup_append]
    refine ⟨sound.keys, List.nodup_singleton _, ?_⟩
    intro key member other new
    obtain ⟨entry, entered, rfl⟩ := List.mem_map.mp member
    rw [List.mem_singleton.mp new]
    exact vacant entry entered
  · rw [List.map_append, List.nodup_append]
    refine ⟨sound.tasks, List.nodup_singleton _, ?_⟩
    intro task member other new
    obtain ⟨sleeper, asleep, rfl⟩ := List.mem_map.mp member
    rw [List.mem_singleton.mp new]
    exact Nat.ne_of_lt (sound.started sleeper asleep)
  · intro entry listed sleeper asleep same
    -- The number of the new task is above all others, so it meets only the new entry.
    rcases List.mem_append.mp listed with listed | new <;>
      rcases List.mem_append.mp asleep with asleep | fresh
    · exact sound.named entry listed sleeper asleep same
    · rw [List.mem_singleton.mp fresh] at same
      exact absurd same (Nat.ne_of_gt (sound.entered entry listed))
    · rw [List.mem_singleton.mp new] at same
      exact absurd same (Nat.ne_of_lt (sound.started sleeper asleep))
    · rw [List.mem_singleton.mp new, List.mem_singleton.mp fresh]
  · intro entry listed
    rcases List.mem_append.mp listed with listed | new
    · exact Nat.lt_succ_of_lt (sound.entered entry listed)
    · rw [List.mem_singleton.mp new]
      exact Nat.lt_succ_self _
  · intro sleeper asleep
    rcases List.mem_append.mp asleep with asleep | fresh
    · exact Nat.lt_succ_of_lt (sound.started sleeper asleep)
    · rw [List.mem_singleton.mp fresh]
      exact Nat.lt_succ_self _

theorem Sound.schedule (sound : timers.Sound) (now : Nat) (timeout : Timeout) (delay : Nat) :
    (timers.schedule now timeout delay).Sound :=
  (sound.cancel timeout).start _ fun _ entered => (mem_table_cancel.mp entered).2

end Timers

namespace Timing

open Timers

/-! ## Moves -/

section
variable {timing : Timing} {move : Move} {sleeper event : Sleeper}

theorem sound_take (sound : timing.timers.Sound) (move : Move) :
    (timing.take move).timers.Sound := by
  cases move with
  | schedule timeout delay => exact sound.schedule _ timeout delay
  | wait duration => exact sound
  | wake tasks => exact sound.expireSome _ tasks
  | handle place =>
    simp only [take]
    split
    next event found => exact sound.forget _
    next none => exact sound
  | cancel timeout => exact sound.cancel timeout
  | cancelAll => exact sound.cancelAll

theorem nextTask_take (timing : Timing) (move : Move) :
    timing.timers.nextTask ≤ (timing.take move).timers.nextTask := by
  cases move with
  | schedule timeout delay =>
    simp only [take, Timers.schedule, nextTask_cancel]
    exact Nat.le_succ _
  | handle place =>
    simp only [take]
    split <;> exact Nat.le_refl _
  | cancel timeout => exact Nat.le_of_eq (nextTask_cancel _ timeout).symm
  | wait | wake | cancelAll => exact Nat.le_refl _

/-- A task that has been started before and still sleeps keeps its entry, unless an event of its
timeout is handled. -/
theorem kept_of_take (sound : timing.timers.Sound)
    (asleep : sleeper ∈ (timing.take move).timers.sleepers)
    (old : sleeper.task < timing.timers.nextTask) :
    sleeper ∈ timing.timers.sleepers ∧
      ((sleeper.timeout, sleeper.task) ∈ (timing.take move).timers.table ↔
        (sleeper.timeout, sleeper.task) ∈ timing.timers.table ∧
          timing.handled? move ≠ some sleeper.timeout) := by
  -- A task that survives a cancellation of its timeout had no entry to begin with.
  have survives {timeout : Timeout}
      (asleep : sleeper ∈ (timing.timers.cancel timeout).sleepers) :
      (sleeper.timeout, sleeper.task) ∈ (timing.timers.cancel timeout).table ↔
        (sleeper.timeout, sleeper.task) ∈ timing.timers.table := by
    have spared := (sound.mem_sleepers_cancel.mp asleep).2
    rw [mem_table_cancel, and_iff_left_iff_imp]
    rintro entered rfl
    exact spared entered
  cases move with
  | schedule timeout delay =>
    simp only [take, Timers.schedule, List.mem_append, List.mem_singleton, nextTask_cancel]
      at asleep
    rcases asleep with asleep | rfl
    · refine ⟨(sublist_cancel _ _).subset asleep, ?_⟩
      have other : (sleeper.timeout, sleeper.task) ≠ (timeout, timing.timers.nextTask) := by
        intro same
        exact Nat.ne_of_lt old (congrArg Prod.snd same)
      simp only [take, Timers.schedule, List.mem_append, List.mem_singleton, nextTask_cancel,
        other, or_false, survives asleep]
      simp [handled?]
    · exact absurd old (Nat.lt_irrefl _)
  | wait duration => exact ⟨asleep, by simp [take, handled?]⟩
  | wake tasks =>
    exact ⟨List.mem_of_mem_filter asleep, by simp [take, Timers.expireSome, handled?]⟩
  | handle place =>
    simp only [take, handled?] at asleep ⊢
    cases found : timing.posted[place]? with
    | none =>
      rw [found] at asleep
      exact ⟨asleep, by simp⟩
    | some event =>
      rw [found] at asleep
      refine ⟨asleep, ?_⟩
      simp only [fired, mem_table_forget, Option.map_some, ne_eq, Option.some_inj]
      rw [eq_comm (a := event.timeout)]
  | cancel timeout =>
    refine ⟨(sublist_cancel _ _).subset asleep, ?_⟩
    simp only [take, survives asleep]
    simp [handled?]
  | cancelAll =>
    obtain ⟨before, spared⟩ := List.mem_filter.mp asleep
    refine ⟨before, ?_⟩
    have missing : (sleeper.timeout, sleeper.task) ∉ timing.timers.table := by
      intro entered
      simp only [Bool.not_eq_true', List.any_eq_false, decide_eq_true_eq] at spared
      exact spared _ entered rfl
    simp [take, Timers.cancelAll, missing]

/-- Only setting a timer starts a task, which stands in the table. -/
theorem started_of_take (asleep : sleeper ∈ (timing.take move).timers.sleepers)
    (sound : timing.timers.Sound) (new : timing.timers.nextTask ≤ sleeper.task) :
    move.set? = some sleeper.timeout ∧
      (sleeper.timeout, sleeper.task) ∈ (timing.take move).timers.table := by
  have old {kept : List Sleeper} (sublist : kept.Sublist timing.timers.sleepers) :
      sleeper ∉ kept := by
    intro member
    exact absurd (sound.started sleeper (sublist.subset member)) (Nat.not_lt_of_le new)
  cases move with
  | schedule timeout delay =>
    simp only [take, Timers.schedule, List.mem_append, List.mem_singleton] at asleep ⊢
    rcases asleep with asleep | rfl
    · exact absurd asleep (old (sublist_cancel _ _))
    · exact ⟨rfl, .inr rfl⟩
  | wait duration => exact absurd asleep (old (List.Sublist.refl _))
  | wake tasks => exact absurd asleep (old List.filter_sublist)
  | handle place =>
    simp only [take] at asleep
    split at asleep <;> exact absurd asleep (old (List.Sublist.refl _))
  | cancel timeout => exact absurd asleep (old (sublist_cancel _ _))
  | cancelAll => exact absurd asleep (old List.filter_sublist)

/-- Only a task that wakes up posts an event. -/
theorem posted_of_take (posted : event ∈ (timing.take move).posted) :
    event ∈ timing.posted ∨
      (event ∈ timing.timers.sleepers ∧ event ∉ (timing.take move).timers.sleepers) := by
  cases move with
  | wake tasks =>
    rcases List.mem_append.mp posted with posted | woken
    · exact .inl posted
    · obtain ⟨asleep, woken⟩ := List.mem_filter.mp woken
      refine .inr ⟨asleep, fun still => ?_⟩
      have unwoken := (List.mem_filter.mp still).2
      simp only [woken, Bool.not_true, Bool.false_eq_true] at unwoken
  | handle place =>
    left
    simp only [take] at posted
    split at posted
    · exact (List.eraseIdx_sublist _ _).subset posted
    · exact posted
  | schedule | wait | cancel | cancelAll => exact .inl posted

theorem posted_of_set {timeout : Timeout} (set : move.set? = some timeout) :
    (timing.take move).posted = timing.posted := by
  cases move with
  | schedule => rfl
  | wait | wake | handle | cancel | cancelAll => cases set

theorem posted_of_handled {timeout : Timeout} (handled : timing.handled? move = some timeout) :
    ∃ event ∈ timing.posted, event.timeout = timeout := by
  cases move with
  | handle place =>
    obtain ⟨event, found, same⟩ := Option.map_eq_some_iff.mp handled
    exact ⟨event, List.mem_of_getElem? found, same⟩
  | schedule | wait | wake | cancel | cancelAll => cases handled

end

/-! ## Sequences of moves -/

theorem sound_reached (moves : List Move) : (reached moves).timers.Sound := by
  induction moves with
  | nil => constructor <;> simp [reached, empty]
  | cons move earlier ih => exact sound_take ih move

/-- A sleeping task is in the table unless it has been overtaken. -/
theorem entered_iff (moves : List Move) :
    ∀ sleeper ∈ (reached moves).timers.sleepers,
      (sleeper.timeout, sleeper.task) ∈ (reached moves).timers.table ↔
        ¬ Overtaken moves sleeper := by
  induction moves with
  | nil => simp [reached, empty]
  | cons move earlier ih =>
    intro sleeper asleep
    have sound := sound_reached earlier
    unfold Overtaken handledSince
    by_cases new : (reached earlier).timers.nextTask ≤ sleeper.task
    · simp only [new, if_true, List.not_mem_nil, not_false_iff, iff_true]
      exact (started_of_take asleep sound new).2
    · obtain ⟨before, kept⟩ := kept_of_take sound asleep (Nat.lt_of_not_le new)
      rw [reached, kept, ih sleeper before, if_neg new, List.mem_append, not_or, and_comm,
        Option.mem_toList]
      rfl

/-- What a timeout has in the table stands there for its only sleeping task. -/
theorem unique_entered (moves : List Move) {one other : Sleeper}
    (here : one ∈ (reached moves).timers.sleepers)
    (there : other ∈ (reached moves).timers.sleepers) (same : one.timeout = other.timeout)
    (entered : (one.timeout, one.task) ∈ (reached moves).timers.table)
    (also : (other.timeout, other.task) ∈ (reached moves).timers.table) : one = other := by
  have sound := sound_reached moves
  rw [← same] at also
  have task : one.task = other.task := sound.eq_of_entries entered also
  exact List.inj_on_of_nodup_map sound.tasks here there task

/-- As long as a timer is not set in the gap between its event and the handling of that, no event of
it is waiting while a task of it sleeps, and that task is in the table. -/
theorem quiet_of_apart {timeout : Timeout} {moves : List Move} (apart : Apart timeout moves) :
    ∀ sleeper ∈ (reached moves).timers.sleepers, sleeper.timeout = timeout →
      (sleeper.timeout, sleeper.task) ∈ (reached moves).timers.table ∧
        ∀ event ∈ (reached moves).posted, event.timeout ≠ timeout := by
  induction moves with
  | nil => simp [reached, empty]
  | cons move earlier ih =>
    obtain ⟨before, gap⟩ := apart
    intro sleeper asleep same
    have sound := sound_reached earlier
    by_cases new : (reached earlier).timers.nextTask ≤ sleeper.task
    · obtain ⟨set, entered⟩ := started_of_take asleep sound new
      rw [reached, posted_of_set set]
      exact ⟨entered, gap (set.trans (congrArg some same))⟩
    · obtain ⟨slept, kept⟩ := kept_of_take sound asleep (Nat.lt_of_not_le new)
      obtain ⟨entered, none⟩ := ih before sleeper slept same
      constructor
      · refine kept.mpr ⟨entered, fun handled => ?_⟩
        obtain ⟨event, posted, other⟩ := posted_of_handled handled
        exact none event posted (other.trans same)
      · intro event posted other
        rcases posted_of_take posted with posted | ⟨woken, gone⟩
        · exact none event posted other
        · -- The task that has just woken up would be the one that still sleeps.
          have alike : event = sleeper := unique_entered earlier woken slept
            (other.trans same.symm) (ih before event woken other).1 entered
          exact gone (alike ▸ asleep)

theorem cancelAll_reached (moves : List Move) :
    (reached moves).timers.cancelAll.sleepers =
      (reached moves).timers.sleepers.filter (Overtaken moves) := by
  apply List.filter_congr
  intro sleeper asleep
  rw [Bool.eq_iff_iff, Bool.not_eq_true', List.any_eq_false, decide_eq_true_eq]
  simp only [decide_eq_true_eq]
  constructor
  · intro spared
    by_contra fresh
    exact spared _ ((entered_iff moves sleeper asleep).mpr fresh) rfl
  · intro overtaken entry entered same
    have timeout := (sound_reached moves).named entry entered sleeper asleep same.symm
    have own : entry = (sleeper.timeout, sleeper.task) := Prod.ext timeout.symm same
    exact (entered_iff moves sleeper asleep).mp (own ▸ entered) overtaken

/-- At most one task of a timeout has not been overtaken. -/
theorem length_fresh_le_one (moves : List Move) (timeout : Timeout) :
    ((reached moves).timers.sleepers.filter fun sleeper =>
      sleeper.timeout = timeout ∧ ¬ Overtaken moves sleeper).length ≤ 1 := by
  have each {sleeper : Sleeper} (member : sleeper ∈ (reached moves).timers.sleepers.filter
      fun sleeper => sleeper.timeout = timeout ∧ ¬ Overtaken moves sleeper) :
      sleeper ∈ (reached moves).timers.sleepers ∧ sleeper.timeout = timeout ∧
        (sleeper.timeout, sleeper.task) ∈ (reached moves).timers.table := by
    obtain ⟨asleep, fresh⟩ := List.mem_filter.mp member
    obtain ⟨same, fresh⟩ := of_decide_eq_true fresh
    exact ⟨asleep, same, (entered_iff moves sleeper asleep).mpr fresh⟩
  have distinct := ((sound_reached moves).tasks.of_map _).filter
    fun sleeper => decide (sleeper.timeout = timeout ∧ ¬ Overtaken moves sleeper)
  cases kept : (reached moves).timers.sleepers.filter fun sleeper =>
      sleeper.timeout = timeout ∧ ¬ Overtaken moves sleeper with
  | nil => exact Nat.zero_le 1
  | cons first rest =>
    cases rest with
    | nil => exact Nat.le_refl 1
    | cons second rest =>
      rw [kept] at each distinct
      obtain ⟨here, same, entered⟩ := each List.mem_cons_self
      obtain ⟨there, alike, also⟩ := each (List.mem_cons_of_mem _ List.mem_cons_self)
      have one := unique_entered moves here there (same.trans alike.symm) entered also
      exact absurd (one ▸ List.mem_cons_self) (List.nodup_cons.mp distinct).1

theorem length_fresh_le_activeCount (moves : List Move) :
    ((reached moves).timers.sleepers.filter fun sleeper => ¬ Overtaken moves sleeper).length ≤
      (reached moves).timers.activeCount := by
  -- The tasks that have not been overtaken are numbered apart, and each number is in the table.
  have distinct := (List.filter_sublist (p := fun sleeper => decide ¬ Overtaken moves sleeper)
    |>.map (·.task)).nodup (sound_reached moves).tasks
  have listed : (((reached moves).timers.sleepers.filter fun sleeper =>
      ¬ Overtaken moves sleeper).map (·.task)) ⊆ (reached moves).timers.table.map Prod.snd := by
    intro task member
    obtain ⟨sleeper, kept, rfl⟩ := List.mem_map.mp member
    obtain ⟨asleep, fresh⟩ := List.mem_filter.mp kept
    have entered := (entered_iff moves sleeper asleep).mpr (of_decide_eq_true fresh)
    exact List.mem_map_of_mem entered
  have fewer := (distinct.subperm listed).length_le
  rwa [List.length_map, List.length_map] at fewer

/-- Whatever is posted later was posted before, or comes from a task that was asleep then, or from
one that was started later. -/
theorem posted_later (later moves : List Move) :
    (∀ sleeper ∈ (reached (later ++ moves)).timers.sleepers,
      sleeper ∈ (reached moves).timers.sleepers ∨
        (reached moves).timers.nextTask ≤ sleeper.task) ∧
    (reached moves).timers.nextTask ≤ (reached (later ++ moves)).timers.nextTask ∧
    ∀ event ∈ (reached (later ++ moves)).posted,
      event ∈ (reached moves).posted ∨ event ∈ (reached moves).timers.sleepers ∨
        (reached moves).timers.nextTask ≤ event.task := by
  induction later with
  | nil => exact ⟨fun _ => .inl, Nat.le_refl _, fun _ => .inl⟩
  | cons move later ih =>
    obtain ⟨asleep, counted, posted⟩ := ih
    have sound := sound_reached (later ++ moves)
    refine ⟨fun sleeper still => ?_, ?_, fun event new => ?_⟩
    · by_cases started : (reached (later ++ moves)).timers.nextTask ≤ sleeper.task
      · exact .inr (Nat.le_trans counted started)
      · exact asleep sleeper (kept_of_take sound still (Nat.lt_of_not_le started)).1
    · exact Nat.le_trans counted (nextTask_take _ move)
    · rcases posted_of_take new with old | ⟨woken, -⟩
      · exact posted event old
      · exact .inr (asleep event woken)

/-- The table parts from the sleeping tasks only where a timer is set anew between the event of an
identical one and the handling of that: the handling takes the new task out of the table and leaves
it asleep. All other tasks are in the table, one for a timeout at most, so they are counted, and
cancelling all timers stops them; from then on only the tasks so overtaken, and those started later,
post an event. -/
theorem loses_overtaken_only (moves : List Move) :
    (∀ sleeper ∈ (reached moves).timers.sleepers,
      ((sleeper.timeout, sleeper.task) ∈ (reached moves).timers.table ↔
        ¬ Overtaken moves sleeper) ∧
      (Apart sleeper.timeout moves → ¬ Overtaken moves sleeper)) ∧
    (∀ timeout, ((reached moves).timers.sleepers.filter fun sleeper =>
      sleeper.timeout = timeout ∧ ¬ Overtaken moves sleeper).length ≤ 1) ∧
    ((reached moves).timers.sleepers.filter fun sleeper => ¬ Overtaken moves sleeper).length ≤
      (reached moves).timers.activeCount ∧
    (reached moves).timers.cancelAll.sleepers =
      (reached moves).timers.sleepers.filter (Overtaken moves) ∧
    ∀ later, ∀ event ∈ (reached (later ++ .cancelAll :: moves)).posted,
      event ∈ (reached moves).posted ∨
      (event ∈ (reached moves).timers.sleepers ∧ Overtaken moves event) ∨
      (reached moves).timers.nextTask ≤ event.task := by
  refine ⟨fun sleeper asleep => ⟨entered_iff moves sleeper asleep, fun apart => ?_⟩,
    length_fresh_le_one moves, length_fresh_le_activeCount moves, cancelAll_reached moves,
    fun later event posted => ?_⟩
  · exact (entered_iff moves sleeper asleep).mp (quiet_of_apart apart sleeper asleep rfl).1
  · rcases (posted_later later (.cancelAll :: moves)).2.2 event posted with old | asleep | new
    · exact .inl old
    · have spared : event ∈ (reached moves).timers.cancelAll.sleepers := asleep
      rw [cancelAll_reached, List.mem_filter, decide_eq_true_eq] at spared
      exact .inr (.inl spared)
    · exact .inr (.inr new)

/-- The watch over a commit is set again while its event is still waiting: the table forgets the
second task, all timers are cancelled, and its event comes all the same. -/
theorem posts_after_cancelAll :
    let set : List Move := [.handle 0, .schedule (.commit ⟨1⟩) 10_000_000, .wake [0],
      .wait 10_000_000, .schedule (.commit ⟨1⟩) 10_000_000]
    (reached set).timers.sleepers = [⟨1, .commit ⟨1⟩, 20_000_000⟩] ∧
      (reached set).timers.table = [] ∧ (reached set).timers.activeCount = 0 ∧
      (reached set).posted = [] ∧
      (reached (.wake [1] :: .wait 10_000_000 :: .cancelAll :: set)).posted =
        [⟨1, .commit ⟨1⟩, 20_000_000⟩] := by
  decide

/-- Where the event has been handled before the watch is set again, the table has its task. -/
theorem loses_overtaken_only_when_handled_in_time :
    let moves : List Move := [.schedule (.commit ⟨1⟩) 10_000_000, .handle 0, .wake [0],
      .wait 10_000_000, .schedule (.commit ⟨1⟩) 10_000_000]
    (reached moves).timers.sleepers = [⟨1, .commit ⟨1⟩, 20_000_000⟩] ∧
      Apart (.commit ⟨1⟩) moves ∧ ¬ Overtaken moves ⟨1, .commit ⟨1⟩, 20_000_000⟩ ∧
      (.commit ⟨1⟩, 1) ∈ (reached moves).timers.table ∧
      (reached moves).timers.cancelAll.sleepers = [] := by
  intro moves
  have asleep : (reached moves).timers.sleepers = [⟨1, .commit ⟨1⟩, 20_000_000⟩] := by decide
  have apart : Apart (.commit ⟨1⟩) moves := by decide
  obtain ⟨entered, -, -, left, -⟩ := loses_overtaken_only moves
  obtain ⟨listed, fresh⟩ := entered ⟨1, .commit ⟨1⟩, 20_000_000⟩ (asleep ▸ List.mem_cons_self)
  refine ⟨asleep, apart, fresh apart, listed.mpr (fresh apart), ?_⟩
  rw [left, asleep, List.filter_cons_of_neg]
  · rfl
  · exact fun overtaken => fresh apart (of_decide_eq_true overtaken)

end Timing

end Catchup
