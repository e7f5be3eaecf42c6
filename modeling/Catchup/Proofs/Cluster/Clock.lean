import Catchup.Proofs.Cluster.Reached
import Catchup.Proofs.Cluster.Timetable
import Mathlib.Data.List.TakeWhile

/-! The clock of a cluster, and what a run up to a deadline keeps.

A run counts beforehand how many events are due at an instant. Processing one of them takes one off
that count and never another, so the clock does not move past the instant; and where everything that
is entered is due later, it takes exactly one off, so the instant comes to an end. -/

set_option autoImplicit false

namespace Catchup.Cluster

variable {cluster middle next : Cluster}

/-! ## Order -/

/-- The timetable is in the order of time, and nothing in it is past. -/
structure Ordered (cluster : Cluster) : Prop where
  sorted : cluster.timetable.Pairwise fun first second => first.1 ≤ second.1
  coming : ∀ entry ∈ cluster.timetable, cluster.now ≤ entry.1

section
variable {table planned : List (Nat × Event)} {due time now : Nat} {event : Event}

theorem lt_of_mem_dropWhile (sorted : table.Pairwise fun first second => first.1 ≤ second.1)
    {entry : Nat × Event} (later : entry ∈ table.dropWhile (·.1 ≤ due)) : due < entry.1 := by
  induction table with
  | nil => cases later
  | cons first rest ih =>
    obtain ⟨least, ordered⟩ := List.pairwise_cons.mp sorted
    by_cases early : first.1 ≤ due
    · rw [List.dropWhile_cons_of_pos (by simpa using early)] at later
      exact ih ordered later
    · rw [List.dropWhile_cons_of_neg (by simpa using early)] at later
      rcases List.mem_cons.mp later with rfl | member
      · exact Nat.not_le.mp early
      · exact Nat.lt_of_lt_of_le (Nat.not_le.mp early) (least entry member)

theorem sorted_enter (sorted : table.Pairwise fun first second => first.1 ≤ second.1) :
    (enter table due event).Pairwise fun first second => first.1 ≤ second.1 := by
  have early (entry : Nat × Event) (member : entry ∈ table.takeWhile (·.1 ≤ due)) :
      entry.1 ≤ due := by simpa using List.mem_takeWhile_imp member
  have late (entry : Nat × Event) (member : entry ∈ table.dropWhile (·.1 ≤ due)) :
      due ≤ entry.1 := Nat.le_of_lt (lt_of_mem_dropWhile sorted member)
  refine List.pairwise_append.mpr ⟨sorted.sublist (List.takeWhile_sublist _),
    List.pairwise_cons.mpr ⟨late, sorted.sublist (List.dropWhile_sublist _)⟩, ?_⟩
  intro first before second after
  rcases List.mem_cons.mp after with rfl | after
  · exact early first before
  · exact Nat.le_trans (early first before) (late second after)

theorem sorted_enterAll (sorted : table.Pairwise fun first second => first.1 ≤ second.1) :
    (enterAll table now planned).Pairwise fun first second => first.1 ≤ second.1 := by
  induction planned generalizing table with
  | nil => exact sorted
  | cons plan rest ih => exact ih (sorted_enter sorted)

/-- An event counts among what is due by a time exactly if it is due by then. -/
theorem length_takeWhile_enter : ((enter table due event).takeWhile (·.1 ≤ time)).length =
    (table.takeWhile (·.1 ≤ time)).length + if due ≤ time then 1 else 0 := by
  induction table with
  | nil => by_cases early : due ≤ time <;> simp [enter, early]
  | cons first rest ih =>
    by_cases before : first.1 ≤ due
    · have entered : enter (first :: rest) due event = first :: enter rest due event := by
        simp [enter, before]
      rw [entered]
      by_cases early : first.1 ≤ time
      · simp only [List.takeWhile_cons, early, decide_true, if_true, List.length_cons, ih]
        omega
      · have late : ¬ due ≤ time := fun reached => early (Nat.le_trans before reached)
        simp [early, late]
    · have entered : enter (first :: rest) due event = (due, event) :: first :: rest := by
        simp [enter, before]
      rw [entered]
      by_cases early : due ≤ time
      · simp [early]
      · have late : ¬ first.1 ≤ time := by omega
        simp [early, late]

theorem length_takeWhile_enterAll : (table.takeWhile (·.1 ≤ time)).length ≤
    ((enterAll table now planned).takeWhile (·.1 ≤ time)).length := by
  induction planned generalizing table with
  | nil => exact Nat.le_refl _
  | cons plan rest ih =>
    rw [enterAll_cons]
    refine Nat.le_trans ?_ ih
    rw [length_takeWhile_enter]
    exact Nat.le_add_right ..

theorem length_takeWhile_enterAll_of_late (late : ∀ plan ∈ planned, time < now + plan.1) :
    ((enterAll table now planned).takeWhile (·.1 ≤ time)).length =
      (table.takeWhile (·.1 ≤ time)).length := by
  induction planned generalizing table with
  | nil => rfl
  | cons plan rest ih =>
    have after : ¬ now + plan.1 ≤ time := Nat.not_le.mpr (late plan List.mem_cons_self)
    rw [enterAll_cons, ih fun other member => late other (List.mem_cons_of_mem _ member),
      length_takeWhile_enter, if_neg after, Nat.add_zero]

end

theorem dueBy_eq (cluster : Cluster) (time : Nat) :
    cluster.dueBy time = (cluster.timetable.takeWhile (·.1 ≤ time)).length := by
  rw [dueBy, timetable, List.takeWhile_map, List.length_map]
  rfl

theorem nextDue?_eq (cluster : Cluster) :
    cluster.nextDue? = cluster.timetable.head?.map (·.1) := by
  rw [nextDue?, timetable, List.head?_map, Option.map_map]
  rfl

theorem Ordered.plans {planned : List (Nat × Event)} (ordered : Ordered cluster)
    (plans : Plans cluster next planned) : Ordered next := by
  refine ⟨?_, fun entry member => ?_⟩
  · rw [plans.timetable]
    exact sorted_enterAll ordered.sorted
  · rw [plans.now]
    rcases plans.mem_timetable.mp member with earlier | ⟨plan, _, rfl⟩
    · exact ordered.coming entry earlier
    · exact Nat.le_add_right ..

theorem timetable_of_agenda {first : Scheduled} {rest : List Scheduled}
    (agenda : cluster.agenda = first :: rest) :
    cluster.timetable = (first.due, first.event) :: (cluster.pop first rest).timetable := by
  rw [timetable, agenda]
  rfl

theorem Ordered.pop {first : Scheduled} {rest : List Scheduled} (ordered : Ordered cluster)
    (agenda : cluster.agenda = first :: rest) : Ordered (cluster.pop first rest) := by
  have sorted := ordered.sorted
  rw [timetable_of_agenda agenda] at sorted
  obtain ⟨least, sorted⟩ := List.pairwise_cons.mp sorted
  exact ⟨sorted, least⟩

theorem Ordered.step (ordered : Ordered cluster) (done : cluster.step = .ok next) :
    Ordered next := by
  rcases step_eq_ok done with ⟨-, rfl⟩ | ⟨first, rest, agenda, done⟩
  · exact ordered
  · obtain ⟨planned, plans⟩ := (processes_of_process done).plans
    exact (ordered.pop agenda).plans plans

theorem Ordered.least (ordered : Ordered cluster) {first : Nat}
    (begins : cluster.nextDue? = some first) : ∀ entry ∈ cluster.timetable, first ≤ entry.1 := by
  intro entry member
  have sorted := ordered.sorted
  rw [nextDue?_eq] at begins
  cases table : cluster.timetable with
  | nil =>
    rw [table] at member
    cases member
  | cons head rest =>
    rw [table] at begins member sorted
    cases begins
    rcases List.mem_cons.mp member with rfl | member
    · exact Nat.le_refl _
    · exact (List.pairwise_cons.mp sorted).1 entry member

theorem Ordered.late (ordered : Ordered cluster) {time : Nat}
    (later : ∀ due, cluster.nextDue? = some due → time < due) :
    ∀ entry ∈ cluster.timetable, time < entry.1 := by
  intro entry member
  cases begins : cluster.nextDue? with
  | none =>
    rw [nextDue?_eq, Option.map_eq_none_iff, List.head?_eq_none_iff] at begins
    rw [begins] at member
    cases member
  | some first => exact Nat.lt_of_lt_of_le (later first begins) (ordered.least begins entry member)

theorem Ordered.elapse {deadline : Nat} (ordered : Ordered cluster)
    (later : ∀ due, cluster.nextDue? = some due → deadline < due) :
    Ordered { cluster with now := deadline } :=
  ⟨ordered.sorted, fun entry member => Nat.le_of_lt (ordered.late later entry member)⟩

/-! ## Runs -/

theorem dueBy_of_agenda {first : Scheduled} {rest : List Scheduled}
    (agenda : cluster.agenda = first :: rest) (time : Nat) : cluster.dueBy time =
      if first.due ≤ time then (cluster.pop first rest).dueBy time + 1 else 0 := by
  rw [dueBy_eq, dueBy_eq, timetable_of_agenda agenda, List.takeWhile_cons]
  split <;> simp_all

/-- Processing an event that is due by a time takes no other such event off the agenda. -/
theorem dueBy_of_step {time : Nat} (some : 0 < cluster.dueBy time)
    (done : cluster.step = .ok next) :
    next.now ≤ time ∧ cluster.dueBy time ≤ next.dueBy time + 1 := by
  rcases step_eq_ok done with ⟨empty, -⟩ | ⟨first, rest, agenda, done⟩
  · simp [dueBy, empty] at some
  · obtain ⟨planned, plans⟩ := (processes_of_process done).plans
    rw [dueBy_of_agenda agenda] at some ⊢
    by_cases early : first.due ≤ time
    · rw [if_pos early, dueBy_eq, dueBy_eq, plans.timetable]
      exact ⟨plans.now.symm ▸ early, Nat.add_le_add_right length_takeWhile_enterAll 1⟩
    · rw [if_neg early] at some
      cases some

/-- Kept by every event, and by the clock as it moves forward while nothing is due. -/
structure Paced (holds : Cluster → Prop) : Prop where
  step {cluster next : Cluster} : holds cluster → cluster.step = .ok next → holds next
  elapse {cluster : Cluster} {deadline : Nat} : holds cluster → cluster.now ≤ deadline →
    (∀ due, cluster.nextDue? = some due → deadline < due) → holds { cluster with now := deadline }

section
variable {holds : Cluster → Prop} {deadline : Nat}

theorem Paced.steps {time count : Nat} (paced : Paced holds) (before : holds cluster)
    (now : cluster.now ≤ deadline) (early : time ≤ deadline) (due : count ≤ cluster.dueBy time)
    (done : cluster.steps count = .ok next) : holds next ∧ next.now ≤ deadline := by
  induction count generalizing cluster with
  | zero => cases done; exact ⟨before, now⟩
  | succ count ih =>
    obtain ⟨middle, first, rest⟩ := exists_of_bind_eq_ok done
    obtain ⟨reached, left⟩ := dueBy_of_step (Nat.lt_of_lt_of_le (Nat.succ_pos count) due) first
    exact ih (paced.step before first) (Nat.le_trans reached early)
      (Nat.le_of_succ_le_succ (Nat.le_trans due left)) rest

theorem Paced.settle {instant rounds : Nat} (paced : Paced holds) (before : holds cluster)
    (now : cluster.now ≤ deadline) (early : instant ≤ deadline)
    (done : cluster.settle instant rounds = .ok next) : holds next ∧ next.now ≤ deadline := by
  induction rounds generalizing cluster with
  | zero => cases done; exact ⟨before, now⟩
  | succ rounds ih =>
    obtain ⟨middle, first, rest⟩ := exists_of_bind_eq_ok done
    obtain ⟨kept, reached⟩ := paced.steps before now early (Nat.le_refl _) first
    exact ih kept reached rest

theorem Paced.runUntil (paced : Paced holds) (before : holds cluster)
    (now : cluster.now ≤ deadline) (done : cluster.runUntil deadline = .ok next) : holds next := by
  fun_induction Cluster.runUntil deadline cluster with
  | case1 cluster found =>
    cases done
    exact paced.elapse before now fun due first => by simp [found] at first
  | case2 cluster due found reaches fault failed => cases done
  | case3 cluster due found reaches settled instant progress ih =>
    obtain ⟨kept, reached⟩ := paced.settle before now reaches instant
    exact ih kept reached done
  | case4 cluster due found reaches settled instant stuck => cases done
  | case5 cluster due found later =>
    cases done
    refine paced.elapse before now fun first same => ?_
    cases found.symm.trans same
    exact Nat.not_le.mp later

end

/-! ## Progress -/

section
variable {holds : Cluster → Prop} {deadline : Nat}

/-- The event is processed, and plans nothing for the same instant. -/
def Completes (holds : Cluster → Prop) (cluster : Cluster) (event : Event) : Prop :=
  ∃ next planned, cluster.process event = .ok next ∧ holds next ∧ Plans cluster next planned ∧
    ∀ plan ∈ planned, 0 < plan.1

/-- What takes a step as long as something is due. -/
def Proceeds (holds : Cluster → Prop) (deadline : Nat) : Prop :=
  ∀ {cluster first rest}, holds cluster → cluster.agenda = first :: rest → first.due ≤ deadline →
    (cluster.pop first rest).Completes holds first.event

theorem dueBy_eq_zero_iff {time : Nat} : cluster.dueBy time = 0 ↔
    ∀ due, cluster.nextDue? = some due → time < due := by
  cases agenda : cluster.agenda with
  | nil => simp [dueBy, nextDue?, agenda]
  | cons first rest => simp [dueBy_of_agenda agenda, nextDue?, agenda]

/-- What is due at an instant is processed, and nothing else is due by then afterwards. -/
theorem Proceeds.exists_steps {instant count : Nat} (proceeds : Proceeds holds deadline)
    (before : holds cluster) (ordered : Ordered cluster) (reaches : instant ≤ deadline)
    (least : ∀ entry ∈ cluster.timetable, instant ≤ entry.1) (due : cluster.dueBy instant = count) :
    ∃ next, cluster.steps count = .ok next ∧ holds next ∧ Ordered next ∧
      next.dueBy instant = 0 := by
  induction count generalizing cluster with
  | zero => exact ⟨cluster, rfl, before, ordered, due⟩
  | succ count ih =>
    cases agenda : cluster.agenda with
    | nil => simp [dueBy, agenda] at due
    | cons first rest =>
      have table := timetable_of_agenda agenda
      have early : first.due ≤ instant := by
        by_contra late
        rw [dueBy_of_agenda agenda, if_neg late] at due
        cases due
      have exact : instant ≤ first.due := least (first.due, first.event) (by simp [table])
      obtain ⟨next, planned, done, kept, plans, positive⟩ :=
        proceeds before agenda (Nat.le_trans early reaches)
      have taken : cluster.step = .ok next := by
        rw [step, agenda]
        exact done
      -- The event leads to nothing at the same instant, so one less is due then.
      have late (plan : Nat × Event) (member : plan ∈ planned) :
          instant < (cluster.pop first rest).now + plan.1 := by
        have delay := positive plan member
        show instant < first.due + plan.1
        omega
      have left : next.dueBy instant = count := by
        rw [dueBy_of_agenda agenda, if_pos early] at due
        rw [dueBy_eq, plans.timetable, length_takeWhile_enterAll_of_late late, ← dueBy_eq]
        exact Nat.succ.inj due
      have coming (entry : Nat × Event) (member : entry ∈ next.timetable) : instant ≤ entry.1 := by
        rcases plans.mem_timetable.mp member with old | ⟨plan, new, rfl⟩
        · exact least entry (table ▸ List.mem_cons_of_mem _ old)
        · exact Nat.le_of_lt (late plan new)
      obtain ⟨last, done, rest⟩ := ih kept (ordered.step taken) coming left
      refine ⟨last, ?_, rest⟩
      rw [steps, taken]
      exact done

theorem settle_of_settled {instant rounds : Nat} (settled : cluster.dueBy instant = 0) :
    cluster.settle instant rounds = .ok cluster := by
  induction rounds with
  | zero => rfl
  | succ rounds ih =>
    rw [Cluster.settle, settled]
    exact ih

/-- One round is enough for an instant. -/
theorem Proceeds.exists_settle (rounds : Nat) {instant : Nat} (proceeds : Proceeds holds deadline)
    (before : holds cluster) (ordered : Ordered cluster) (reaches : instant ≤ deadline)
    (begins : cluster.nextDue? = some instant) :
    ∃ next, cluster.settle instant (rounds + 1) = .ok next ∧ holds next ∧ Ordered next ∧
      next.dueBy instant = 0 := by
  obtain ⟨next, done, kept, sorted, settled⟩ :=
    proceeds.exists_steps before ordered reaches (ordered.least begins) rfl
  refine ⟨next, ?_, kept, sorted, settled⟩
  rw [Cluster.settle, done]
  exact settle_of_settled settled

/-- A run comes to its deadline, with nothing due by then. -/
theorem Proceeds.exists_runUntil (proceeds : Proceeds holds deadline) (before : holds cluster)
    (ordered : Ordered cluster) :
    ∃ reached, cluster.runUntil deadline = .ok { reached with now := deadline } ∧ holds reached ∧
      ∀ entry ∈ reached.timetable, deadline < entry.1 := by
  fun_induction Cluster.runUntil deadline cluster with
  | case1 cluster found =>
    exact ⟨cluster, rfl, before, ordered.late fun due first => by simp [found] at first⟩
  | case2 cluster due found reaches fault failed =>
    obtain ⟨next, done, -⟩ := proceeds.exists_settle 3 before ordered reaches found
    cases failed.symm.trans done
  | case3 cluster due found reaches settled instant progress ih =>
    obtain ⟨next, done, kept, sorted, -⟩ :=
      proceeds.exists_settle 3 before ordered reaches found
    cases instant.symm.trans done
    exact ih kept sorted
  | case4 cluster due found reaches settled instant stuck =>
    obtain ⟨next, done, -, -, quiet⟩ :=
      proceeds.exists_settle 3 before ordered reaches found
    cases instant.symm.trans done
    -- Whatever comes next is due later, so the run is not broken off.
    refine absurd ?_ stuck
    cases next : settled.nextDue? with
    | none => rfl
    | some first => exact decide_eq_true (dueBy_eq_zero_iff.mp quiet first next)
  | case5 cluster due found later =>
    refine ⟨cluster, rfl, before, ordered.late fun first same => ?_⟩
    cases found.symm.trans same
    exact Nat.not_le.mp later

end

end Catchup.Cluster
