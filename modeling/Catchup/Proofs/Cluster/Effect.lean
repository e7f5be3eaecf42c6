import Catchup.Proofs.Cluster.Step
import Catchup.Proofs.Verification

/-! The part of a cluster that decides what its ledgers hold and whom it bans, and what an event can
do to that part.

It consists of the ledgers, the bans, and the responses in flight. A node may hand over its reports,
judge a response, or serve one; everything else that happens leaves no trace here. -/

set_option autoImplicit false

namespace Catchup

def Message.served? : Message → Option Extension
  | .syncResponse response => some response.extension
  | _ => none

def Responder.Request.served? (ledger : Ledger) : Responder.Request → Option Extension
  | .sync _ asked => ledger.extensionFrom asked.after
  | _ => none

namespace Cluster

/-- The responses on their way, each with its sender. -/
def inFlight (cluster : Cluster) : List (PeerId × Extension) :=
  cluster.agenda.filterMap fun entry => entry.event.response?

variable {cluster middle next : Cluster} {name : PeerId} {flying : List (PeerId × Extension)}

theorem Adds.inFlight {events : List Event} (adds : Adds cluster next events) :
    next.inFlight ⊆ events.filterMap Event.response? ++ cluster.inFlight := by
  intro response member
  obtain ⟨entry, on, brings⟩ := List.mem_filterMap.mp member
  rw [List.mem_append]
  rcases adds entry on with earlier | added
  · exact .inr (List.mem_filterMap.mpr ⟨entry, earlier, brings⟩)
  · exact .inl (List.mem_filterMap.mpr ⟨entry.event, added, brings⟩)

/-- What may become of the ledgers and the bans, and which response is new. -/
inductive Effect (malicious : PeerSet) (flying : List (PeerId × Extension)) (ledgers : List Ledger)
    (bans : List Ban) : List Ledger → List Ban → List (PeerId × Extension) → Prop where
  | quiet : Effect malicious flying ledgers bans ledgers bans []
  | reported {position : Nat} {ledger : Ledger} :
      ledgers[position]? = some ledger →
      Effect malicious flying ledgers bans (ledgers.set position ledger.takeUnreported.2) bans []
  | judged {position : Nat} {ledger after : Ledger} {pursuit : Pursuit} {name peer : PeerId}
      {extension : Extension} {verdict : Verdict} :
      ledgers[position]? = some ledger → (peer, extension) ∈ flying →
      Verification.Decides .trusting Ledger.committer pursuit peer extension ledger verdict after →
      Effect malicious flying ledgers bans (ledgers.set position after.takeUnreported.2)
        (bans ++ verdict.misconduct?.toList.map fun reason => ⟨name, peer, reason⟩) []
  | served {ledger : Ledger} {sender : PeerId} {start : Header} {served : Extension} :
      ledger ∈ ledgers → ledger.extensionFrom start = some served →
      Effect malicious flying ledgers bans ledgers bans
        [(sender, if malicious.contains sender then forge served else served)]

structure Advances (flying : List (PeerId × Extension)) (cluster next : Cluster) : Prop where
  malicious : next.malicious = cluster.malicious
  effect : ∃ new, next.inFlight ⊆ new ++ flying ∧ Effect cluster.malicious flying cluster.ledgers
    cluster.bans next.ledgers next.bans new

theorem Advances.refl (known : cluster.inFlight ⊆ flying) : Advances flying cluster cluster :=
  ⟨rfl, [], known, .quiet⟩

/-! ## Inputs -/

theorem advances_of_applyInput {input : Input} (done : cluster.applyInput name input = .ok next)
    (known : cluster.inFlight ⊆ flying)
    (brought : ∀ response, input.response? = some response → response ∈ flying) :
    Advances flying cluster next := by
  rcases applyInput_eq_ok done with ⟨-, rfl⟩ | ⟨node, outcome, found, step, rfl⟩
  · exact Advances.refl known
  obtain ⟨bare, ledger, transition, after, outputs, -⟩ := Node.handle_eq_ok step
  have held := getElem?_ledgers found
  -- Outputs and reports bring no response, so nothing new is in flight.
  have silent : (cluster.conclude name outcome).inFlight ⊆ [] ++ flying := by
    intro response member
    have flown := adds_conclude.inFlight member
    simp only [List.filterMap_append, List.filterMap_flatMap, List.mem_append, List.mem_flatMap,
      List.mem_filterMap, Option.mem_toList] at flown
    rcases flown with
      (⟨output, _, event, caused, brings⟩ | ⟨header, _, event, caused, brings⟩) | before
    · rw [Output.response?_of_event? caused] at brings
      cases brings
    · cases List.mem_singleton.mp caused
      cases brings
    · exact known before
  refine ⟨malicious_conclude, [], silent, ?_⟩
  rw [ledgers_conclude, bans_conclude, after, outputs]
  rcases transition.judged name with
    ⟨rfl, none⟩ | ⟨pursuit, peer, extension, verdict, rfl, judged, bans⟩
  · rw [none, List.append_nil]
    exact .reported held
  · rw [bans]
    exact .judged held (brought (peer, extension) rfl) (Verification.decides_of_judge judged)

/-! ## Requests -/

theorem response?_mail (malicious : PeerSet) (letter : Letter) :
    (mail malicious name letter).response? = letter.message.served?.map fun served =>
      (name, if malicious.contains name then forge served else served) := by
  obtain ⟨peer, message⟩ := letter
  cases told : malicious.contains name <;> cases message <;>
    simp [mail, told, tamper, Event.response?, Message.errand, Input.response?, Message.served?]

/-- Only a sync request is answered with a response, and with one at most. -/
theorem served_of_serve (node : Node) (request : Responder.Request) :
    (node.serve request).2.1.filterMap (fun letter => letter.message.served?) =
      (request.served? node.ledger).toList := by
  cases request with
  | status peer => rfl
  | sync peer asked =>
    simp only [Node.serve, Responder.handle, Responder.onSyncRequest, Responder.Request.served?]
    split
    next served found =>
      rw [found]
      rfl
    next nothing =>
      rw [nothing]
      rfl
  | ledgerUpdate header phase now =>
    simp only [Node.serve, Responder.handle, Responder.onLedgerUpdate]
    split
    next ahead =>
      split
      next => rfl
      next =>
        refine List.filterMap_eq_nil_iff.mpr fun letter sent => ?_
        rw [Responder.message_of_tell sent]
        rfl
    next known => rfl

/-- The response that a node gives, as it is sent. -/
def answer? (cluster : Cluster) (name : PeerId) (request : Responder.Request) :
    Option (PeerId × Extension) :=
  (cluster.node? name).bind fun node => (request.served? node.ledger).map fun served =>
    (name, if cluster.malicious.contains name then forge served else served)

theorem inFlight_applyRequest (cluster : Cluster) (name : PeerId) (request : Responder.Request) :
    (cluster.applyRequest name request).inFlight ⊆
      (cluster.answer? name request).toList ++ cluster.inFlight := by
  rcases adds_applyRequest cluster name request with adds | ⟨node, found, adds⟩
  · exact fun response member => List.mem_append_right _ (adds.inFlight member)
  · have answered : ((node.serve request).2.1.map (mail cluster.malicious name)).filterMap
        Event.response? = (cluster.answer? name request).toList := by
      have served := served_of_serve node request
      rw [List.filterMap_map]
      simp only [Function.comp_def, response?_mail, ← List.map_filterMap, served, answer?, found,
        Option.bind_some]
      cases request.served? node.ledger <;> rfl
    exact answered ▸ adds.inFlight

theorem advances_of_applyRequest (cluster : Cluster) (name : PeerId) (request : Responder.Request)
    (known : cluster.inFlight ⊆ flying) :
    Advances flying cluster (cluster.applyRequest name request) := by
  have flown : (cluster.applyRequest name request).inFlight ⊆
      (cluster.answer? name request).toList ++ flying := by
    intro response member
    rcases List.mem_append.mp (inFlight_applyRequest cluster name request member) with new | before
    · exact List.mem_append_left _ new
    · exact List.mem_append_right _ (known before)
  refine ⟨malicious_applyRequest, _, flown, ?_⟩
  rw [ledgers_applyRequest, bans_applyRequest]
  cases found : cluster.node? name with
  | none =>
    rw [answer?, found]
    exact .quiet
  | some node =>
    cases asked : request.served? node.ledger with
    | none =>
      rw [answer?, found, Option.bind_some, asked]
      exact .quiet
    | some served =>
      have held := mem_ledgers found
      rw [answer?, found, Option.bind_some, asked]
      cases request with
      | sync peer request => exact .served held asked
      | status | ledgerUpdate => cases asked

/-! ## Events -/

/-- A change that these parts do not see may follow. -/
theorem Advances.trans_quiet (advances : Advances flying cluster middle)
    (malicious : next.malicious = middle.malicious) (ledgers : next.ledgers = middle.ledgers)
    (bans : next.bans = middle.bans) (less : next.inFlight ⊆ middle.inFlight) :
    Advances flying cluster next := by
  obtain ⟨same, new, adds, effect⟩ := advances
  refine ⟨malicious.trans same, new, fun response member => adds (less member), ?_⟩
  rw [ledgers, bans]
  exact effect

theorem Processes.advances {event : Event} (processes : Processes cluster event next)
    (known : cluster.inFlight ⊆ flying)
    (brought : ∀ response, event.response? = some response → response ∈ flying) :
    Advances flying cluster next := by
  cases processes with
  | lost errand => exact Advances.refl known
  | served errand => exact advances_of_applyRequest cluster _ _ known
  | taken errand done =>
    simp only [Event.response?, errand] at brought
    exact advances_of_applyInput done known brought
  | given done => exact advances_of_applyInput done known brought
  | @reported name header middle phase now heard =>
    have advances : Advances flying cluster middle := by
      apply advances_of_applyInput heard known
      intro response brings
      cases brings
    -- The responder hears of the update as well, and gives no response to it.
    refine advances.trans_quiet malicious_applyRequest ledgers_applyRequest bans_applyRequest ?_
    have flown := inFlight_applyRequest middle name (.ledgerUpdate header phase now)
    have unanswered : middle.answer? name (.ledgerUpdate header phase now) = none := by
      cases found : middle.node? name <;> simp [answer?, found, Responder.Request.served?]
    rw [unanswered] at flown
    exact flown

/-- Processing the first event has one effect, with all that was in flight before it. -/
theorem advances_of_step (done : cluster.step = .ok next) :
    Advances cluster.inFlight cluster next := by
  rcases step_eq_ok done with ⟨-, rfl⟩ | ⟨first, rest, agenda, done⟩
  · exact Advances.refl (List.Subset.refl _)
  · -- The first event is off the agenda by now, but what it brings was in flight before.
    have popped : Advances cluster.inFlight (cluster.pop first rest) next := by
      apply (processes_of_process done).advances
      · intro response member
        obtain ⟨entry, on, brings⟩ := List.mem_filterMap.mp member
        exact List.mem_filterMap.mpr ⟨entry, agenda ▸ List.mem_cons_of_mem first on, brings⟩
      · intro response brings
        exact List.mem_filterMap.mpr ⟨first, agenda ▸ List.mem_cons_self, brings⟩
    exact ⟨popped.malicious, popped.effect⟩

end Cluster

end Catchup
