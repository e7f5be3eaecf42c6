import Catchup.Proofs.Cluster.Exchange
import Catchup.Proofs.Cluster.Honesty

/-! What a peer that was banned has still on its way to the node that banned it.

Responses of one peer to one node arrive in the order in which they were sent. Once a peer is
malicious it forges every response, so behind one it was banned for there are only forgeries. -/

set_option autoImplicit false

namespace Catchup

def Extension.Forged (extension : Extension) : Prop :=
  Cluster.forgedTransaction ∈ extension.transactions

def Event.answer? (node peer : PeerId) : Event → Option Extension
  | .deliver sender receiver (.syncResponse response) =>
    if sender = peer ∧ receiver = node then some response.extension else none
  | _ => none

namespace Cluster

variable {cluster middle next : Cluster} {node peer target : PeerId}

/-! ## Order of arrival -/

section
variable {β : Type} {view : Event → Option β} {table planned : List (Nat × Event)} {now due : Nat}
  {event : Event}

theorem filterMap_enter_of_none (unseen : view event = none) :
    (enter table due event).filterMap (fun entry => view entry.2) =
      table.filterMap fun entry => view entry.2 := by
  have whole := List.takeWhile_append_dropWhile (l := table) (p := (·.1 ≤ due))
  conv => rhs; rw [← whole, List.filterMap_append]
  rw [enter, List.filterMap_append]
  simp only [List.filterMap_cons, unseen]

theorem filterMap_enter_of_prompt (sorted : table.Pairwise fun first second => first.1 ≤ second.1)
    (prompt : ∀ entry ∈ table, view entry.2 ≠ none → entry.1 ≤ due) :
    (enter table due event).filterMap (fun entry => view entry.2) =
      (table.filterMap fun entry => view entry.2) ++ (view event).toList := by
  have behind : (table.dropWhile (·.1 ≤ due)).filterMap (fun entry => view entry.2) = [] := by
    refine List.filterMap_eq_nil_iff.mpr fun entry member => ?_
    by_contra seen
    have within := (List.dropWhile_sublist _).subset member
    exact Nat.not_le.mpr (lt_of_mem_dropWhile sorted member) (prompt entry within seen)
  conv => rhs; rw [← List.takeWhile_append_dropWhile (l := table) (p := (·.1 ≤ due))]
  rw [enter, List.filterMap_append, List.filterMap_append, behind, List.append_nil,
    List.filterMap_cons]
  cases view event <;> simp [behind]

/-- What is seen arrives in the order in which it was planned, if it always takes the same time. -/
theorem filterMap_enterAll {delay : Nat}
    (sorted : table.Pairwise fun first second => first.1 ≤ second.1)
    (prompt : ∀ entry ∈ table, view entry.2 ≠ none → entry.1 ≤ now + delay)
    (delays : ∀ plan ∈ planned, view plan.2 ≠ none → plan.1 = delay) :
    (enterAll table now planned).filterMap (fun entry => view entry.2) =
      (table.filterMap fun entry => view entry.2) ++ planned.filterMap fun plan => view plan.2 := by
  induction planned generalizing table with
  | nil => simp
  | cons plan rest ih =>
    have here := delays plan List.mem_cons_self
    have later (entry : Nat × Event) (member : entry ∈ enter table (now + plan.1) plan.2)
        (seen : view entry.2 ≠ none) : entry.1 ≤ now + delay := by
      rcases List.mem_cons.mp ((enter_perm ..).mem_iff.mp member) with rfl | old
      · exact Nat.le_of_eq (congrArg (now + ·) (here seen))
      · exact prompt entry old seen
    rw [enterAll_cons, ih (sorted_enter sorted) later fun other member =>
      delays other (List.mem_cons_of_mem _ member)]
    cases seen : view plan.2 with
    | none =>
      rw [filterMap_enter_of_none seen]
      simp [seen]
    | some item =>
      have arrives : now + plan.1 = now + delay := congrArg (now + ·) (here (by simp [seen]))
      rw [arrives, filterMap_enter_of_prompt sorted prompt]
      simp [seen]

end

/-- The responses on their way from the peer to the node, the next to arrive first. -/
def trail (cluster : Cluster) (node peer : PeerId) : List Extension :=
  cluster.timetable.filterMap fun entry => entry.2.answer? node peer

/-- What is known of the responses on their way while the clock only moves forward. -/
structure Trails (node peer : PeerId) (cluster : Cluster) : Prop where
  prompt : ∀ entry ∈ cluster.timetable, entry.2.answer? node peer ≠ none →
    entry.1 ≤ cluster.now + latency
  kinds : ∀ extension ∈ cluster.trail node peer, extension.Honest ∨
    extension.Forged ∧ cluster.malicious.contains peer = true
  lasting : (cluster.trail node peer).Pairwise fun first second =>
    ¬ first.Honest → second.Forged

/-- Whatever the peer has sent to the node, and whatever it will send, is forged. -/
structure Tainted (node peer : PeerId) (cluster : Cluster) : Prop where
  malicious : cluster.malicious.contains peer = true
  forged : ∀ extension ∈ cluster.trail node peer, extension.Forged

/-! ## Inputs -/

section
variable {planned : List (Nat × Event)}

theorem Trails.of_plans (trails : Trails node peer cluster) (ordered : Ordered cluster)
    (plans : Plans cluster next planned)
    (malicious : cluster.malicious.contains peer = true → next.malicious.contains peer = true)
    (delays : ∀ plan ∈ planned, plan.2.answer? node peer ≠ none → plan.1 = latency)
    (new : ∀ extension ∈ planned.filterMap fun plan => plan.2.answer? node peer,
      (cluster.malicious.contains peer = true → extension.Forged) ∧
        (cluster.malicious.contains peer = false → extension.Honest)) :
    Trails node peer next ∧ next.trail node peer = cluster.trail node peer ++
      planned.filterMap fun plan => plan.2.answer? node peer := by
  -- Every message takes the same time, so what is new comes behind all that is on its way.
  have arrives : next.trail node peer = cluster.trail node peer ++
      planned.filterMap fun plan => plan.2.answer? node peer := by
    rw [trail, plans.timetable]
    exact filterMap_enterAll ordered.sorted trails.prompt delays
  refine ⟨⟨fun entry member seen => ?_, fun extension member => ?_, ?_⟩, arrives⟩
  · rw [plans.now]
    rcases plans.mem_timetable.mp member with old | ⟨plan, entered, rfl⟩
    · exact trails.prompt entry old seen
    · exact Nat.le_of_eq (congrArg (cluster.now + ·) (delays plan entered seen))
  · rcases List.mem_append.mp (arrives ▸ member) with old | sent
    · exact (trails.kinds extension old).imp_right fun forged => ⟨forged.1, malicious forged.2⟩
    · obtain ⟨forged, honest⟩ := new extension sent
      cases told : cluster.malicious.contains peer with
      | true => exact .inr ⟨forged told, malicious told⟩
      | false => exact .inl (honest told)
  · rw [arrives]
    have forges (extension : Extension) (other : ¬ extension.Honest)
        (member : extension ∈ cluster.trail node peer ++
          planned.filterMap fun plan => plan.2.answer? node peer) :
        cluster.malicious.contains peer = true := by
      rcases List.mem_append.mp member with old | sent
      · exact ((trails.kinds extension old).resolve_left other).2
      · by_contra told
        exact other ((new extension sent).2 (Bool.eq_false_iff.mpr told))
    have forged (first second : Extension) (before : first ∈ cluster.trail node peer ++
          planned.filterMap fun plan => plan.2.answer? node peer)
        (sent : second ∈ planned.filterMap fun plan => plan.2.answer? node peer)
        (other : ¬ first.Honest) : second.Forged :=
      (new second sent).1 (forges first other before)
    refine List.pairwise_append.mpr ⟨trails.lasting, ?_, fun first old second sent =>
      forged first second (List.mem_append_left _ old) sent⟩
    exact List.pairwise_of_forall_mem_list fun first before second sent =>
      forged first second (List.mem_append_right _ before) sent

theorem answer?_of_planned? {output : Output} {plan : Nat × Event}
    (planned : output.planned? target = some plan) : plan.2.answer? node peer = none := by
  obtain ⟨event, caused, rfl⟩ := Option.map_eq_some_iff.mp planned
  cases output <;> cases caused <;> rfl

theorem answers_conclude (target node peer : PeerId) (outcome : Node.Outcome) :
    (outcome.outputs.filterMap (Output.planned? target) ++ outcome.committed.map fun header =>
      (commitDelay, Event.ledgerUpdate target header)).filterMap
        (fun plan => plan.2.answer? node peer) = [] := by
  refine List.filterMap_eq_nil_iff.mpr fun plan member => ?_
  rcases List.mem_append.mp member with sent | reported
  · obtain ⟨output, -, planned⟩ := List.mem_filterMap.mp sent
    exact answer?_of_planned? planned
  · obtain ⟨header, -, rfl⟩ := List.mem_map.mp reported
    rfl

theorem Trails.applyInput (trails : Trails node peer cluster) (ordered : Ordered cluster)
    {given : Input} (done : cluster.applyInput target given = .ok next) :
    Trails node peer next ∧ next.trail node peer = cluster.trail node peer := by
  rcases applyInput_eq_ok done with ⟨-, rfl⟩ | ⟨held, outcome, found, step, rfl⟩
  · exact ⟨trails, rfl⟩
  · have quiet := answers_conclude target node peer outcome
    have result := trails.of_plans ordered plans_conclude (by rw [malicious_conclude]; exact id)
      (fun plan member seen => absurd (List.filterMap_eq_nil_iff.mp quiet plan member) seen)
      (fun extension member => by rw [quiet] at member; cases member)
    rw [quiet, List.append_nil] at result
    exact result

/-- A ban is for a response that is not honest. -/
theorem dishonest_of_ban {directory : Directory} {ledger after : Ledger} {before : Synchronizer}
    {given : Input} {bare : Reaction}
    (transition : Synchronizer.Transition (Verification.judge .trusting Ledger.committer) directory
      ledger before given bare after)
    (banned : 0 < (bare.outputs.filterMap (Output.ban? target)).countP
      fun ban => ban.node = node ∧ ban.peer = peer) :
    target = node ∧ ∃ extension, given = .syncResponse peer extension ∧ ¬ extension.Honest := by
  rcases transition.judged target with
    ⟨-, none⟩ | ⟨pursuit, sender, extension, verdict, rfl, judged, bans⟩
  · rw [none] at banned
    cases banned
  · rw [bans] at banned
    cases verdict with
    | malicious reason =>
      obtain ⟨rfl, rfl⟩ : target = node ∧ sender = peer := by
        by_contra other
        simp [Verdict.misconduct?, other] at banned
      refine ⟨rfl, extension, rfl, fun honest => ?_⟩
      exact (Verification.decides_of_judge judged).not_malicious honest rfl rfl reason rfl
    | accepted | unsolicited => cases banned

/-- Behind the response that a peer is banned for, everything is forged. -/
theorem tainted_of_applyInput {given : Input} (trails : Trails node peer cluster)
    (ordered : Ordered cluster) (done : cluster.applyInput target given = .ok next)
    (tainted : 0 < cluster.bansOf node peer → Tainted node peer cluster)
    (awaiting : ∀ extension, target = node → given = .syncResponse peer extension →
      ¬ extension.Honest → Tainted node peer cluster)
    (banned : 0 < next.bansOf node peer) : Tainted node peer next := by
  have quiet := (trails.applyInput ordered done).2
  rcases applyInput_eq_ok done with ⟨-, rfl⟩ | ⟨held, outcome, found, step, rfl⟩
  · exact tainted banned
  have before : Tainted node peer cluster := by
    obtain ⟨bare, ledger, transition, -, outputs, -⟩ := Node.handle_eq_ok step
    rw [bansOf_conclude, outputs] at banned
    rcases Nat.add_pos_iff_pos_or_pos.mp banned with earlier | now
    · exact tainted earlier
    · -- What is behind a dishonest response is forged as well.
      obtain ⟨here, extension, same, dishonest⟩ := dishonest_of_ban transition now
      exact awaiting extension here same dishonest
  refine ⟨?_, quiet ▸ before.forged⟩
  rw [malicious_conclude]
  exact before.malicious

end

/-! ## Requests -/

theorem answer?_mail (malicious : PeerSet) (letter : Letter) :
    (mail malicious target letter).answer? node peer =
      if target = peer ∧ letter.peer = node then
        letter.message.served?.map fun served =>
          if malicious.contains target then forge served else served
      else none := by
  obtain ⟨receiver, message⟩ := letter
  cases told : malicious.contains target <;> cases message <;>
    simp [mail, told, tamper, Event.answer?, Message.served?]

theorem forged_forge {extension : Extension} (nonempty : extension.transactions ≠ []) :
    (forge extension).Forged := by
  obtain ⟨start, transactions, finish⟩ := extension
  cases transactions with
  | nil => exact absurd rfl nonempty
  | cons first rest => exact List.mem_cons_self

theorem answers_of_serve (target node peer : PeerId) (malicious : PeerSet) {held : Node}
    {request : Responder.Request}
    (honest : ∀ served, request.served? held.ledger = some served → served.Honest) :
    ∀ extension ∈ ((held.serve request).2.1.map fun letter =>
        (latency, mail malicious target letter)).filterMap fun plan => plan.2.answer? node peer,
      (malicious.contains peer = true → extension.Forged) ∧
        (malicious.contains peer = false → extension.Honest) := by
  intro extension member
  obtain ⟨plan, sent, answers⟩ := List.mem_filterMap.mp member
  obtain ⟨letter, posted, rfl⟩ := List.mem_map.mp sent
  simp only [answer?_mail, Option.ite_none_right_eq_some, Option.map_eq_some_iff] at answers
  obtain ⟨⟨rfl, -⟩, served, carried, rfl⟩ := answers
  have listed : served ∈ (request.served? held.ledger).toList :=
    served_of_serve held request ▸ List.mem_filterMap.mpr ⟨letter, posted, carried⟩
  have sincere := honest served (Option.mem_toList.mp listed)
  refine ⟨fun told => ?_, fun untold => ?_⟩
  · rw [if_pos told]
    exact forged_forge sincere.nonempty
  · rw [if_neg (Bool.eq_false_iff.mp untold)]
    exact sincere

theorem Trails.applyRequest (trails : Trails node peer cluster) (ordered : Ordered cluster)
    (target : PeerId) (request : Responder.Request)
    (honest : ∀ held, cluster.node? target = some held →
      ∀ served, request.served? held.ledger = some served → served.Honest) :
    Trails node peer (cluster.applyRequest target request) ∧
      (Tainted node peer cluster → Tainted node peer (cluster.applyRequest target request)) := by
  cases found : cluster.node? target with
  | none =>
    rw [applyRequest_of_missing found]
    exact ⟨trails, id⟩
  | some held =>
    have plans := plans_serve found request
    have new := answers_of_serve target node peer cluster.malicious (honest held found)
    obtain ⟨after, arrives⟩ := trails.of_plans ordered plans
      (by rw [malicious_applyRequest]; exact id)
      (fun plan member _ => by
        obtain ⟨letter, -, rfl⟩ := List.mem_map.mp member
        rfl) new
    refine ⟨after, fun tainted => ⟨?_, fun extension member => ?_⟩⟩
    · rw [malicious_applyRequest]
      exact tainted.malicious
    rw [arrives] at member
    rcases List.mem_append.mp member with old | sent
    · exact tainted.forged extension old
    · exact (new extension sent).1 tainted.malicious

/-! ## Events -/

/-- What a step does to the responses on their way, and to what is known of them after a ban. -/
theorem Processes.trails {event : Event} (processes : Processes cluster event next)
    (trails : Trails node peer cluster) (ordered : Ordered cluster) (sound : Sound cluster)
    (fair : ∀ name given, event = .input name given → given.response? = none)
    (tainted : 0 < cluster.bansOf node peer → Tainted node peer cluster)
    (awaiting : ∀ extension, event.answer? node peer = some extension → ¬ extension.Honest →
      Tainted node peer cluster) :
    Trails node peer next ∧ (0 < next.bansOf node peer → Tainted node peer next) := by
  cases processes with
  | lost errand => exact ⟨trails, tainted⟩
  | @served sender receiver message request errand =>
    have honest (held : Node) (found : cluster.node? receiver = some held) (served : Extension)
        (asked : request.served? held.ledger = some served) : served.Honest := by
      obtain ⟨coherent, parseable⟩ := sound.ledgers _ (mem_ledgers found)
      cases request with
      | sync peer request => exact coherent.honest_of_extensionFrom parseable asked
      | status | ledgerUpdate => cases asked
    obtain ⟨after, kept⟩ := trails.applyRequest ordered receiver request honest
    refine ⟨after, fun banned => kept (tainted ?_)⟩
    rwa [bansOf, bans_applyRequest] at banned
  | @taken sender receiver message given next errand done =>
    refine ⟨(trails.applyInput ordered done).1,
      tainted_of_applyInput trails ordered done tainted ?_⟩
    rintro extension rfl rfl dishonest
    refine awaiting extension ?_ dishonest
    cases message <;> cases errand
    simp [Event.answer?]
  | @given name given next done =>
    refine ⟨(trails.applyInput ordered done).1,
      tainted_of_applyInput trails ordered done tainted ?_⟩
    rintro extension - rfl
    cases fair name _ rfl
  | @reported name header middle phase now heard =>
    obtain ⟨planned, plans⟩ := plans_of_applyInput heard
    have between := tainted_of_applyInput trails ordered heard tainted
      (fun extension _ same => by cases same)
    obtain ⟨after, kept⟩ := (trails.applyInput ordered heard).1.applyRequest (ordered.plans plans)
      name (.ledgerUpdate header phase now) (fun held _ served asked => by cases asked)
    refine ⟨after, fun banned => kept (between ?_)⟩
    rwa [bansOf, bans_applyRequest] at banned

theorem trail_of_agenda (node peer : PeerId) {first : Scheduled} {rest : List Scheduled}
    (agenda : cluster.agenda = first :: rest) : cluster.trail node peer =
      (first.event.answer? node peer).toList ++ (cluster.pop first rest).trail node peer := by
  rw [trail, timetable_of_agenda agenda, List.filterMap_cons]
  cases first.event.answer? node peer <;> rfl

theorem Trails.pop {first : Scheduled} {rest : List Scheduled} (trails : Trails node peer cluster)
    (ordered : Ordered cluster) (agenda : cluster.agenda = first :: rest) :
    Trails node peer (cluster.pop first rest) ∧
      ∀ extension, first.event.answer? node peer = some extension → ¬ extension.Honest →
        Tainted node peer (cluster.pop first rest) := by
  have table := timetable_of_agenda agenda
  obtain ⟨prompt, kinds, lasting⟩ := trails
  rw [trail_of_agenda node peer agenda] at kinds lasting
  obtain ⟨-, lasting, after⟩ := List.pairwise_append.mp lasting
  refine ⟨⟨fun entry member seen => ?_, fun extension member => ?_, lasting⟩,
    fun extension arrives dishonest => ⟨?_, fun other member => ?_⟩⟩
  · have later : cluster.now ≤ first.due :=
      ordered.coming (first.due, first.event) (by simp [table])
    exact Nat.le_trans (prompt entry (table ▸ List.mem_cons_of_mem _ member) seen)
      (Nat.add_le_add_right later latency)
  · exact kinds extension (List.mem_append_right _ member)
  · exact ((kinds extension (by simp [arrives])).resolve_left dishonest).2
  · exact after extension (by simp [arrives]) other member dishonest

end Cluster

end Catchup
