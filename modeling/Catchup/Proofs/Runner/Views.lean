import Catchup.Proofs.Runner.Turn

/-! Both sides of a running node stay in step with its ledger.

Whatever is committed is reported before the event is done with. At every moment between, what the
agenda still holds is exactly what either side has not been told of yet. -/

set_option autoImplicit false

namespace Catchup.Runner

open Synchronizer (History)

variable {runner later : Runner} {task : Task} {records history : History Ledger}
  {served requests : List Responder.Request} {new rest agenda : List Task}

/-- What the agenda still holds brings both sides to the head of the ledger, and is all that they
have not been told of. -/
structure InStep (history : History Ledger) (requests : List Responder.Request)
    (agenda : List Task) (runner : Runner) : Prop where
  built : runner.node.ledger.Built
  silent : runner.node.ledger.unreported = []
  hears : (agenda.filterMap Task.heard?).foldl Header.adopt runner.node.synchronizer.head =
    runner.node.ledger.header
  serves : (agenda.filterMap Task.announced?).foldl Header.adopt runner.node.responder.head =
    runner.node.ledger.header
  heard : history.committed.map Extension.finish =
    (agenda.filterMap Task.heard?).reverse ++ history.inputs.filterMap Input.reported?
  announced : history.committed.map Extension.finish =
    (agenda.filterMap Task.announced?).reverse ++
      requests.filterMap Responder.Request.reported?
  published : .publish ∈ agenda ∨ runner.published = runner.node.synchronizer.status
  /-- Only a report is taken while something else is still to be done. -/
  alone : ∀ input, .take input ∈ agenda → input.reported? = none → agenda = [.take input]

theorem Keeps.inStep (keeps : runner.Keeps later) (inStep : InStep history requests agenda runner) :
    InStep history requests agenda later := by
  obtain ⟨built, silent, hears, serves, heard, announced, published, alone⟩ := inStep
  obtain ⟨ledger, synchronizer, responder, -, status⟩ := keeps
  rw [← ledger] at built silent hears serves
  rw [← synchronizer] at hears published
  rw [← responder] at serves
  rw [← status] at published
  exact ⟨built, silent, hears, serves, heard, announced, published, alone⟩

theorem InStep.publish (inStep : InStep history requests (.publish :: rest) runner) :
    InStep history requests rest runner.publish := by
  obtain ⟨built, silent, hears, serves, heard, announced, -, alone⟩ := inStep
  refine ⟨built, silent, hears, serves, heard, announced, .inr rfl, fun input member other => ?_⟩
  cases alone input (List.mem_cons_of_mem _ member) other

theorem InStep.enqueue {task : Task} (inStep : InStep history requests [] runner)
    (heard : task.heard? = none) (announced : task.announced? = none) :
    InStep history requests [task] runner := by
  obtain ⟨built, silent, hears, serves, told, served, published, -⟩ := inStep
  have nothingHeard : [task].filterMap Task.heard? = [] := List.filterMap_cons_none heard
  have nothingServed : [task].filterMap Task.announced? = [] := List.filterMap_cons_none announced
  refine ⟨built, silent, ?_, ?_, ?_, ?_, .inr (published.resolve_left nofun), ?_⟩
  · rw [nothingHeard]
    exact hears
  · rw [nothingServed]
    exact serves
  · rw [nothingHeard]
    exact told
  · rw [nothingServed]
    exact served
  · intro input member _
    rw [List.mem_singleton.mp member]

/-- A request is served, and the responder is told of what it reports. -/
theorem InStep.serve (inStep : InStep history requests (task :: rest) runner)
    {request : Responder.Request} (told : task.announced? = request.reported?)
    (quiet : task.heard? = none) (other : task ≠ .publish) :
    InStep history (request :: requests) rest (runner.serve request) := by
  obtain ⟨built, silent, hears, serves, heard, announced, published, alone⟩ := inStep
  refine (keeps_serve runner request).inStep ⟨built, silent, ?_, ?_, ?_, ?_, ?_, ?_⟩
  · rwa [List.filterMap_cons_none quiet] at hears
  · show List.foldl Header.adopt (runner.node.responder.handle _ _ request).responder.head _ = _
    rw [Responder.head_handle]
    cases request with
    | ledgerUpdate header phase now => rwa [List.filterMap_cons_some told] at serves
    | status | sync => rwa [List.filterMap_cons_none told] at serves
  · rwa [List.filterMap_cons_none quiet] at heard
  · cases reported : request.reported? with
    | some header =>
      rw [List.filterMap_cons_some (told.trans reported), List.reverse_cons, List.append_assoc]
        at announced
      rwa [List.filterMap_cons_some reported]
    | none =>
      rw [List.filterMap_cons_none (told.trans reported)] at announced
      rwa [List.filterMap_cons_none reported]
  · rcases published with member | same
    · exact .inl ((List.mem_cons.mp member).resolve_left other.symm)
    · exact .inr same
  · intro input member unreported
    cases alone input (List.mem_cons_of_mem _ member) unreported
    cases member

section
variable {input : Input} {reaction : Reaction} {stored : Ledger}

/-- An input that commits nothing. If it is a report, the synchronizer has been told by now. -/
theorem InStep.hear (inStep : InStep history requests (.take input :: rest) runner)
    (head : reaction.synchronizer.head = input.adopted runner.node.synchronizer.head) :
    InStep (runner.taken input reaction runner.node.ledger :: history) requests (.publish :: rest)
      { runner with node := { runner.node with synchronizer := reaction.synchronizer } } := by
  obtain ⟨built, silent, hears, serves, heard, announced, -, alone⟩ := inStep
  refine ⟨built, silent, ?_, serves, ?_, ?_, .inl List.mem_cons_self, ?_⟩
  · show List.foldl Header.adopt reaction.synchronizer.head (rest.filterMap Task.heard?) = _
    rw [head]
    cases input with
    | ledgerUpdate header => exact hears
    | _ => exact hears
  · rw [History.committed_of_same history rfl, heard]
    cases input with
    | ledgerUpdate header =>
      simp [taken, History.inputs, List.filterMap_cons, Task.heard?, Input.reported?]
    | _ => rfl
  · rw [History.committed_of_same history rfl]
    exact announced
  · intro other member unreported
    have later : .take other ∈ rest := by simpa using member
    cases alone other (List.mem_cons_of_mem _ later) unreported
    cases later

/-- An extension is committed, and the report of it is all that is to be done then. -/
theorem InStep.commit {peer : PeerId} {extension : Extension}
    (inStep : InStep history requests (.take (.syncResponse peer extension) :: rest) runner)
    (commits : Synchronizer.Commits runner.node.synchronizer runner.node.ledger peer extension
      reaction.synchronizer stored) (stays : stored.Built)
    (head : reaction.synchronizer.head = runner.node.synchronizer.head) :
    InStep (runner.taken (.syncResponse peer extension) reaction stored :: history) requests
      (stored.unreported.flatMap report ++ .publish :: rest)
      { runner with node := { runner.node with
        ledger := stored.takeUnreported.2, synchronizer := reaction.synchronizer } } := by
  obtain ⟨-, silent, hears, serves, heard, announced, -, alone⟩ := inStep
  cases alone _ List.mem_cons_self rfl
  have ahead : extension.finish.isAheadOf runner.node.ledger.header = true := by
    rw [Header.isAheadOf_iff, ← commits.header]
    exact Version.lt_iff.mp commits.version
  have adopted : runner.node.ledger.header.adopt extension.finish = stored.header :=
    (if_pos ahead).trans commits.header.symm
  have unreported : stored.unreported = [extension.finish] := by
    rw [commits.unreported, silent, List.nil_append]
  have committed : History.committed (runner.taken (.syncResponse peer extension) reaction stored ::
      history) = extension :: history.committed :=
    history.committed_of_response rfl commits.changes
  rw [unreported]
  refine ⟨stays.takeUnreported, rfl, ?_, ?_, ?_, ?_, .inl ?_, ?_⟩
  · show reaction.synchronizer.head.adopt extension.finish = stored.header
    rw [head, ← adopted]
    exact congrArg (Header.adopt · extension.finish) hears
  · show runner.node.responder.head.adopt extension.finish = stored.header
    rw [← adopted]
    exact congrArg (Header.adopt · extension.finish) serves
  · rw [committed, List.map_cons, heard]
    rfl
  · rw [committed, List.map_cons, announced]
    rfl
  · exact List.mem_append_right _ List.mem_cons_self
  · intro input member silent
    have told : input = .ledgerUpdate extension.finish := by simpa [report] using member
    rw [told] at silent
    cases silent

end

/-- The reports that are still to be made stay right in every turn. -/
theorem Turn.inStep (turn : Turn runner task records served new later)
    (inStep : InStep history requests (task :: rest) runner)
    (bounded : later.node.ledger.transactions.length < UInt64.size) :
    InStep (records ++ history) (served ++ requests) (new ++ rest) later := by
  cases turn with
  | published => exact inStep.publish
  | announced told =>
    refine inStep.serve ?_ rfl nofun
    rw [told]
    rfl
  | served => exact inStep.serve rfl rfl nofun
  | @took input reaction stored committed later done absorbed =>
    obtain ⟨rfl, keeps⟩ := keeps_of_absorb done absorbed
    rw [List.append_assoc, List.singleton_append]
    refine keeps.inStep ?_
    have room : stored.transactions.length < UInt64.size :=
      (congrArg (·.transactions.length) keeps.ledger).symm.trans_lt bounded
    obtain ⟨bare, transition, rfl⟩ := Synchronizer.transition_of_handle done
    rcases transition.commit_cases with
      ⟨same, -⟩ | ⟨pursuit, peer, extension, rfl, phase, judged, freed, -⟩
    · have nothing := Ledger.takeUnreported_of_reported inStep.silent
      rw [same, inStep.silent, nothing]
      exact inStep.hear transition.head
    · have coherent := inStep.built.coherent
        (transition.precedes.transactions.length_le.trans_lt room)
      have commits := Synchronizer.commits_of_accepted coherent room phase judged freed
      exact inStep.commit commits (inStep.built.judge judged) transition.head

end Catchup.Runner
