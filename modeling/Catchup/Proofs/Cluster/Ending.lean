import Catchup.Proofs.Cluster.Agenda

/-! How a run of a cluster ends.

A run takes the first entry off the agenda as long as one is due by the deadline. Whatever that
leads to is due later, so the entries come up in order and every instant comes to an end; and since
an instant is a whole nanosecond, so does the run. What has been processed and what is left on the
agenda make up, entry by entry, what was there at first and what has been filed since. -/

set_option autoImplicit false

namespace Catchup.Cluster

variable {cluster middle last next : Cluster} {deadline instant : Nat}
  {passed later added : List Scheduled}

/-- One entry after another is processed that is due by the deadline, the first of the agenda each
time. -/
inductive Drains (deadline : Nat) : Cluster → List Scheduled → Cluster → Prop where
  | done {cluster : Cluster} : Drains deadline cluster [] cluster
  | next {cluster middle last : Cluster} {first : Scheduled} {rest passed : List Scheduled} :
      cluster.agenda = first :: rest → first.due ≤ deadline → cluster.step = .ok middle →
      Drains deadline middle passed last → Drains deadline cluster (first :: passed) last

/-- What has been processed, in order, and what is left are together what was on the agenda and what
has been filed since, each entry under a number of its own. -/
structure Balances (cluster last : Cluster) (passed added : List Scheduled) : Prop where
  whole : (passed ++ last.agenda).Perm (cluster.agenda ++ added)
  order : passed.Pairwise Scheduled.Before
  numbers : added.map (·.number) = List.range' (cluster.scheduled + 1) added.length
  scheduled : last.scheduled = cluster.scheduled + added.length
  late : ∀ entry ∈ added, cluster.now < entry.due

theorem Drains.trans (drains : Drains deadline cluster passed middle)
    (more : Drains deadline middle later last) :
    Drains deadline cluster (passed ++ later) last := by
  induction drains with
  | done => exact more
  | next agenda due taken _ ih => exact .next agenda due taken (ih more)

theorem Drains.due (drains : Drains deadline cluster passed last) :
    ∀ entry ∈ passed, entry.due ≤ deadline := by
  induction drains with
  | done => exact nofun
  | next agenda due taken _ ih => exact List.forall_mem_cons.mpr ⟨due, ih⟩

section
variable {settings : Settings} {versions : List UInt64} {allowed : Input → Prop}

theorem Drains.reached (drains : Drains deadline cluster passed last)
    (reached : Reached settings versions allowed cluster) :
    Reached settings versions allowed last := by
  induction drains with
  | done => exact reached
  | next agenda due taken _ ih => exact ih (reached.step taken)

theorem Drains.balances (drains : Drains deadline cluster passed last)
    (reached : Reached settings versions allowed cluster) (usable : settings.Usable) :
    ∃ added, Balances cluster last passed added := by
  induction drains with
  | done => exact ⟨[], by rw [List.append_nil]; rfl, .nil, rfl, rfl, nofun⟩
  | @next cluster middle last first rest passed agenda due taken drains ih =>
    obtain ⟨filed, files⟩ := reached.files usable agenda taken
    obtain ⟨added, whole, order, numbers, scheduled, late⟩ := ih (reached.step taken)
    obtain ⟨sorted, -, -, coming⟩ := reached.filed usable
    rw [agenda] at sorted coming
    have least := (List.pairwise_cons.mp sorted).1
    have begun : cluster.now ≤ first.due := coming first List.mem_cons_self
    have clock : middle.now = first.due := files.now
    have count : middle.scheduled = cluster.scheduled + filed.length := files.scheduled
    refine ⟨filed ++ added, ?_, ?_, ?_, ?_, ?_⟩
    · have listed := whole.trans (files.agenda.append_right added)
      rw [agenda, ← List.append_assoc]
      exact listed.cons first
    · -- Everything that comes up later was behind the first entry, or has been filed since.
      refine List.pairwise_cons.mpr ⟨fun entry member => ?_, order⟩
      rcases List.mem_append.mp (whole.subset (List.mem_append_left _ member)) with listed | new
      · rcases List.mem_append.mp (files.agenda.subset listed) with old | new
        · exact least entry old
        · exact .inl (files.late entry new)
      · exact .inl (clock ▸ late entry new)
    · have own : filed.map (·.number) = List.range' (cluster.scheduled + 1) filed.length :=
        files.numbers
      rw [List.map_append, List.length_append, own, numbers, count, Nat.add_right_comm,
        List.range'_append_1]
    · rw [scheduled, count, List.length_append, Nat.add_assoc]
    · intro entry member
      rcases List.mem_append.mp member with new | new
      · exact Nat.lt_of_le_of_lt begun (files.late entry new)
      · exact Nat.lt_of_le_of_lt begun (clock ▸ late entry new)

theorem Balances.distinct (balances : Balances cluster last passed added) (filed : Filed cluster) :
    ((cluster.agenda ++ added).map (·.number)).Nodup := by
  rw [List.map_append, List.nodup_append, balances.numbers]
  refine ⟨filed.distinct, List.nodup_range', ?_⟩
  intro number old other new
  obtain ⟨entry, listed, rfl⟩ := List.mem_map.mp old
  have given := filed.numbered entry listed
  have above := (List.mem_range'_1.mp new).1
  omega

/-- The clock never goes back. -/
theorem Balances.coming (balances : Balances cluster last passed added) (filed : Filed cluster) :
    ∀ entry ∈ passed, cluster.now ≤ entry.due := by
  intro entry member
  rcases List.mem_append.mp (balances.whole.subset (List.mem_append_left _ member)) with old | new
  · exact filed.coming entry old
  · exact Nat.le_of_lt (balances.late entry new)

/-! ## Runs -/

/-- The result of a part of a run: it has drained the cluster until nothing is due by an instant, or
processing an entry has broken it off. -/
inductive Ends (deadline instant : Nat) (cluster : Cluster) : Except Fault Cluster → Prop where
  | ok {last : Cluster} {passed : List Scheduled} :
      Drains deadline cluster passed last → last.dueBy instant = 0 →
      Ends deadline instant cluster (.ok last)
  | error {last : Cluster} {passed : List Scheduled} {due : Nat} {fault : Fault} :
      Drains deadline cluster passed last → last.nextDue? = some due → due ≤ deadline →
      last.step = .error fault → Ends deadline instant cluster (.error fault)

theorem Drains.ends {result : Except Fault Cluster}
    (drains : Drains deadline cluster passed middle) (ends : Ends deadline instant middle result) :
    Ends deadline instant cluster result := by
  cases ends with
  | ok more quiet => exact .ok (drains.trans more) quiet
  | error more begins due failed => exact .error (drains.trans more) begins due failed

theorem countP_due_eq_zero {entries : List Scheduled} {time : Nat}
    (late : ∀ entry ∈ entries, time < entry.due) : entries.countP (·.due ≤ time) = 0 := by
  apply List.countP_eq_zero.mpr
  intro entry member
  simp only [decide_eq_true_eq]
  exact Nat.not_le.mpr (late entry member)

/-- The entries due by an instant are at the front of the agenda. -/
theorem Filed.dueBy_eq (filed : Filed cluster) (time : Nat) :
    cluster.dueBy time = cluster.agenda.countP (·.due ≤ time) := by
  have sorted := filed.sorted
  unfold dueBy
  generalize cluster.agenda = agenda at sorted
  induction agenda with
  | nil => rfl
  | cons first rest ih =>
    obtain ⟨least, sorted⟩ := List.pairwise_cons.mp sorted
    by_cases early : first.due ≤ time
    · simp [early, ih sorted]
    · have none : rest.countP (·.due ≤ time) = 0 :=
        countP_due_eq_zero fun entry member =>
          Nat.lt_of_lt_of_le (Nat.lt_of_not_le early) (least entry member).le
      simp [early, none]

/-- As many steps as there are entries due at an instant leave none of them. -/
theorem Reached.ends_steps {count : Nat} (reached : Reached settings versions allowed cluster)
    (usable : settings.Usable) (reaches : instant ≤ deadline)
    (coming : ∀ entry ∈ cluster.agenda, instant ≤ entry.due)
    (due : cluster.dueBy instant = count) :
    Ends deadline instant cluster (cluster.steps count) := by
  induction count generalizing cluster with
  | zero => exact .ok .done due
  | succ count ih =>
    cases agenda : cluster.agenda with
    | nil => simp [dueBy, agenda] at due
    | cons first rest =>
      have early : first.due ≤ instant := by
        by_contra late
        rw [dueBy_of_agenda agenda, if_neg late] at due
        cases due
      have begins : cluster.nextDue? = some first.due := by rw [nextDue?, agenda]; rfl
      have within := Nat.le_trans early reaches
      cases taken : cluster.step with
      | error fault =>
        rw [steps, taken]
        exact .error .done begins within taken
      | ok middle =>
        obtain ⟨filed, files⟩ := reached.files usable agenda taken
        have onward := reached.step taken
        rw [agenda] at coming
        have exact : instant ≤ first.due := coming first List.mem_cons_self
        have late (entry : Scheduled) (member : entry ∈ filed) : instant < entry.due :=
          Nat.lt_of_le_of_lt exact (files.late entry member)
        have left : middle.dueBy instant = count := by
          have none : filed.countP (·.due ≤ instant) = 0 := countP_due_eq_zero late
          have counted := (reached.filed usable).dueBy_eq instant
          have refiled := files.agenda.countP_eq (p := fun entry => entry.due ≤ instant)
          rw [agenda, List.countP_cons_of_pos (by simpa using early), due] at counted
          rw [(onward.filed usable).dueBy_eq, refiled, List.countP_append, none, Nat.add_zero]
          exact (Nat.succ.inj counted).symm
        have coming (entry : Scheduled) (member : entry ∈ middle.agenda) :
            instant ≤ entry.due := by
          rcases List.mem_append.mp (files.agenda.subset member) with old | new
          · exact coming entry (List.mem_cons_of_mem first old)
          · exact Nat.le_of_lt (late entry new)
        have rest := ih onward coming left
        rw [steps, taken]
        exact (Drains.next agenda within taken .done).ends rest

/-- One round is enough for an instant. -/
theorem Reached.ends_settle (reached : Reached settings versions allowed cluster)
    (usable : settings.Usable) (rounds : Nat) (reaches : instant ≤ deadline)
    (begins : cluster.nextDue? = some instant) :
    Ends deadline instant cluster (cluster.settle instant (rounds + 1)) := by
  have ends := reached.ends_steps usable reaches ((reached.filed usable).least begins) rfl
  rw [Cluster.settle]
  cases taken : cluster.steps (cluster.dueBy instant) with
  | error fault => rw [taken] at ends; exact ends
  | ok settled =>
    rw [taken] at ends
    cases ends with
    | ok drains quiet =>
      show Ends deadline instant cluster (settled.settle instant rounds)
      rw [settle_of_settled quiet]
      exact .ok drains quiet

/-- A run drains the cluster up to its deadline, and then sets the clock. -/
theorem Reached.ends_runUntil (reached : Reached settings versions allowed cluster)
    (usable : settings.Usable) :
    ∃ result, Ends deadline deadline cluster result ∧
      cluster.runUntil deadline = result.map fun last => { last with now := deadline } := by
  fun_induction Cluster.runUntil deadline cluster with
  | case1 cluster found =>
    refine ⟨.ok cluster, .ok .done (dueBy_eq_zero_iff.mpr fun due begins => ?_), rfl⟩
    cases found.symm.trans begins
  | case2 cluster due found reaches fault failed =>
    have ends := reached.ends_settle usable 3 reaches found
    rw [show (3 + 1) = roundLimit from rfl, failed] at ends
    cases ends with
    | error drains begins within broken =>
      exact ⟨.error fault, .error drains begins within broken, rfl⟩
  | case3 cluster due found reaches settled instant progress ih =>
    have ends := reached.ends_settle usable 3 reaches found
    rw [show (3 + 1) = roundLimit from rfl, instant] at ends
    cases ends with
    | ok drains quiet =>
      obtain ⟨result, more, same⟩ := ih (drains.reached reached)
      exact ⟨result, drains.ends more, same⟩
  | case4 cluster due found reaches settled instant stuck =>
    have ends := reached.ends_settle usable 3 reaches found
    rw [show (3 + 1) = roundLimit from rfl, instant] at ends
    cases ends with
    | ok drains quiet =>
      -- Whatever comes next is due later, so the run is not broken off.
      refine absurd ?_ stuck
      cases next : settled.nextDue? with
      | none => rfl
      | some first => exact decide_eq_true (dueBy_eq_zero_iff.mp quiet first next)
  | case5 cluster due found later =>
    refine ⟨.ok cluster, .ok .done (dueBy_eq_zero_iff.mpr fun first begins => ?_), rfl⟩
    cases found.symm.trans begins
    exact Nat.not_le.mp later

/-- A step breaks off only after the numbers of the agenda have been used up. -/
theorem Reached.overflow (reached : Reached settings versions allowed cluster)
    (few : versions.length < UInt64.size / 2) {fault : Fault}
    (failed : cluster.step = .error fault) :
    fault = .additionOverflow ∧ UInt64.size ≤ cluster.scheduled := by
  unfold Cluster.step at failed
  split at failed
  next => cases failed
  next first rest agenda =>
    have fits : (cluster.pop first rest).Fits settings versions.length := reached.fits
    exact fits.overflow few failed

/-- A run ends, in order and without loss. It takes finitely many entries off the agenda, one after
another, by their dues and then by their numbers. All entries, those of the agenda and those filed
during the run, have numbers of their own, and each of them has been processed or is left. The run
comes to its deadline, and what is left is due after it, unless a counter of a node overflows; that
does not happen before 2 ^ 64 events have been scheduled. -/
theorem Reached.run_ends {draft : Settings} (reached : Reached settings versions allowed cluster)
    (validated : draft.validate = .ok settings) (few : versions.length < UInt64.size / 2)
    (duration : Nat) :
    ∃ passed added last, Drains (cluster.now + duration) cluster passed last ∧
      Balances cluster last passed added ∧
      ((cluster.agenda ++ added).map (·.number)).Nodup ∧
      (∀ entry ∈ passed, cluster.now ≤ entry.due ∧ entry.due ≤ cluster.now + duration) ∧
      ((cluster.runFor duration = .ok { last with now := cluster.now + duration } ∧
          ∀ entry ∈ last.agenda, cluster.now + duration < entry.due) ∨
        (cluster.runFor duration = .error .additionOverflow ∧
          last.step = .error .additionOverflow ∧ UInt64.size ≤ last.scheduled)) := by
  have usable := Settings.usable_of_validate validated
  have filed := reached.filed usable
  obtain ⟨result, ends, ran⟩ :
      ∃ result, Ends (cluster.now + duration) (cluster.now + duration) cluster result ∧
        cluster.runFor duration = result.map fun last =>
          { last with now := cluster.now + duration } := reached.ends_runUntil usable
  have accounted {last : Cluster} {passed : List Scheduled}
      (drains : Drains (cluster.now + duration) cluster passed last) :
      ∃ added, Balances cluster last passed added ∧
        ((cluster.agenda ++ added).map (·.number)).Nodup ∧
        ∀ entry ∈ passed, cluster.now ≤ entry.due ∧ entry.due ≤ cluster.now + duration := by
    obtain ⟨added, balances⟩ := drains.balances reached usable
    refine ⟨added, balances, balances.distinct filed, fun entry member => ⟨?_, ?_⟩⟩
    · exact balances.coming filed entry member
    · exact drains.due entry member
  cases ends with
  | @ok last passed drains quiet =>
    obtain ⟨added, balances, distinct, between⟩ := accounted drains
    refine ⟨passed, added, last, drains, balances, distinct, between, .inl ⟨ran, ?_⟩⟩
    exact ((drains.reached reached).filed usable).late (dueBy_eq_zero_iff.mp quiet)
  | @error last passed due fault drains begins within failed =>
    obtain ⟨added, balances, distinct, between⟩ := accounted drains
    obtain ⟨rfl, full⟩ := (drains.reached reached).overflow few failed
    exact ⟨passed, added, last, drains, balances, distinct, between, .inr ⟨ran, failed, full⟩⟩

end

/-- Of two nodes one begins a status check. Within 15 milliseconds its request is delivered; the
answer to it and the end of the check are still to come. -/
theorem run_ends_amid_check :
    let cluster := (start {} [0, 0]).input ⟨0⟩ .checkDue
    ∃ passed last, Drains 15_000_000 cluster passed last ∧
      cluster.runFor 15_000_000 = .ok { last with now := 15_000_000 } ∧
      passed.map (·.number) = [1, 2] ∧ last.agenda.map (·.number) = [4, 3] ∧
      ∀ entry ∈ last.agenda, 15_000_000 < entry.due := by
  have reached : Reached {} [0, 0] (fun _ => True) ((start {} [0, 0]).input ⟨0⟩ .checkDue) :=
    .input _ _ .start trivial
  have usable : Settings.validate {} = .ok {} := rfl
  obtain ⟨passed, _, last, drains, -, -, -, ended⟩ := reached.run_ends usable (by decide) 15_000_000
  -- The loop cannot stop before the second entry, nor take the third.
  have taken := drains
  cases drains with
  | done =>
    rcases ended with ⟨-, after⟩ | ⟨-, failed, -⟩
    · exact absurd (after _ List.mem_cons_self) (by decide)
    · cases failed
  | next agenda due step drains =>
    cases agenda
    cases step
    cases drains with
    | done =>
      rcases ended with ⟨-, after⟩ | ⟨-, failed, -⟩
      · exact absurd (after _ List.mem_cons_self) (by decide)
      · cases failed
    | next agenda due step drains =>
      cases agenda
      cases step
      cases drains with
      | done =>
        rcases ended with ⟨ran, after⟩ | ⟨-, failed, -⟩
        · exact ⟨_, _, taken, ran, by decide +kernel, by decide +kernel, after⟩
        · cases failed
      | next agenda due step drains =>
        cases agenda
        exact absurd due (by decide +kernel)

end Catchup.Cluster
