import Catchup.Proofs.Head
import Catchup.Proofs.Rotation

/-! Whom a node tells of its new heads.

A report that is ahead of what the responder holds is told to a window of the connected peers, as
far as the limiter lets it through. The next window begins one peer later, whatever the limiter has
refused, so over one lap of the directory every peer is in the same number of windows. -/

set_option autoImplicit false

namespace Catchup.Responder

/-- A report that the ledger has committed up to a header, and what the responder meets then. -/
structure Report where
  directory : Directory
  header : Header
  phase : PhaseKind
  now : Nat

section
variable {α : Type}

/-- The reports that peers are told of. -/
structure Announces (responder : Responder α) (report : Report) : Prop where
  ahead : report.header.isAheadOf responder.head = true
  idle : report.phase = .idle
  somebody : report.directory.peers ≠ []

theorem announces_iff {responder : Responder α} {report : Report} :
    responder.Announces report ↔ report.header.isAheadOf responder.head = true ∧
      report.phase = .idle ∧ report.directory.peers ≠ [] :=
  ⟨fun announces => ⟨announces.ahead, announces.idle, announces.somebody⟩,
    fun ⟨ahead, idle, somebody⟩ => ⟨ahead, idle, somebody⟩⟩

instance (responder : Responder α) (report : Report) : Decidable (responder.Announces report) :=
  decidable_of_iff _ announces_iff.symm

theorem window_eq_segment (responder : Responder α) {peers : List PeerId} (somebody : peers ≠ []) :
    responder.window peers = segment peers responder.announced.toNat
      (min peers.length responder.updateLimit) := by
  rw [window, take_rotateLeft somebody (Nat.min_le_left ..), segment_mod]

end

variable {α : Type} [Amount α]

def hear (ledger : Ledger) (responder : Responder α) (report : Report) : Reply α :=
  responder.handle ledger report.directory (.ledgerUpdate report.header report.phase report.now)

def hearAll (ledger : Ledger) (responder : Responder α) (reports : List Report) : Responder α :=
  reports.foldl (fun responder report => (responder.hear ledger report).responder) responder

/-- The windows of the reports that peers are told of, the first one first. -/
def windows (ledger : Ledger) : Responder α → List Report → List (List PeerId)
  | _, [] => []
  | responder, report :: later =>
    let rest := windows ledger (responder.hear ledger report).responder later
    if responder.Announces report then responder.window report.directory.peers :: rest else rest

/-- How a report is told to a window of peers: each of them is put before the limiter once, and
either it is told or the refusal is counted. -/
structure Tells (responder : Responder α) (report : Report) (window : List PeerId)
    (reply : Reply α) : Prop where
  consecutive : window = segment report.directory.peers responder.announced.toNat
    (min report.directory.peers.length responder.updateLimit)
  length : window.length = min report.directory.peers.length responder.updateLimit
  limiter : reply.responder.limiter =
    (fun limiter => (limiter.tryConsume report.now).2)^[window.length] responder.limiter
  peers : (reply.letters.map (·.peer)).Sublist window
  messages : ∀ letter ∈ reply.letters, letter.message = .statusUpdate ⟨reply.responder.head⟩
  accounted : reply.letters.length + reply.metrics.count .updateRateLimited = window.length
  sent : reply.metrics.filter (· ≠ .updateRateLimited) = [.updatesSent reply.letters.length]
  announced : reply.responder.announced = responder.announced + 1

variable {ledger : Ledger} {responder : Responder α} {report : Report} {peers : List PeerId}

/-! ## One report -/

/-- Telling the peers moves nothing but the limiter, which is asked once for each of them. -/
theorem responder_tell (news : Message) (now : Nat) (peers : List PeerId)
    (responder : Responder α) :
    (responder.tell news now peers).responder =
      { responder with limiter :=
          (fun limiter => (limiter.tryConsume now).2)^[peers.length] responder.limiter } := by
  induction peers generalizing responder with
  | nil => rfl
  | cons peer rest ih =>
    simp only [tell, List.length_cons, Function.iterate_succ, Function.comp_apply]
    split <;> exact ih _

/-- Each peer of the window is either told or counted as refused, and in its turn. -/
theorem tell_accounts (news : Message) (now : Nat) (window : List PeerId)
    (responder : Responder α) :
    let reply := responder.tell news now window
    (reply.letters.map (·.peer)).Sublist window ∧
      reply.metrics.filter (· ≠ .updateRateLimited) = [] ∧
      reply.letters.length + reply.metrics.count .updateRateLimited = window.length := by
  induction window generalizing responder with
  | nil => simp [tell]
  | cons peer rest ih =>
    obtain ⟨inTurn, refusals, accounted⟩ :=
      ih { responder with limiter := (responder.limiter.tryConsume now).2 }
    simp only [tell, List.length_cons]
    split
    case isTrue allowed =>
      refine ⟨inTurn.cons_cons peer, refusals, ?_⟩
      rw [List.length_cons, Nat.add_right_comm, accounted]
    case isFalse refused =>
      refine ⟨inTurn.cons peer, refusals, ?_⟩
      rw [List.count_cons_self, ← Nat.add_assoc, accounted]

theorem hear_of_announces (announces : responder.Announces report) :
    responder.hear ledger report =
      let reply := { responder with
          head := report.header, announced := responder.announced + 1 }.tell
        (.statusUpdate ⟨report.header⟩) report.now (responder.window report.directory.peers)
      { reply with metrics := reply.metrics ++ [.updatesSent reply.letters.length] } := by
  have somebody : report.directory.peers.isEmpty = false := by simpa using announces.somebody
  simp only [hear, handle, onLedgerUpdate, announces.ahead, announces.idle, somebody, if_true,
    ne_eq, not_true_eq_false, Bool.false_eq_true, or_self, if_false]
  rfl

theorem hear_of_not_announces (untold : ¬ responder.Announces report) :
    responder.hear ledger report =
      ⟨{ responder with head := responder.head.adopt report.header }, [], []⟩ := by
  simp only [hear, handle, onLedgerUpdate]
  split
  next ahead =>
    rw [Header.adopt_of_ahead ahead]
    split
    next => rfl
    next talkative =>
      -- An idle node with peers would have told them.
      simp only [ne_eq, not_or, not_not, List.isEmpty_iff] at talkative
      exact absurd ⟨ahead, talkative.1, talkative.2⟩ untold
  next known => rw [Header.adopt_of_known (Bool.eq_false_iff.mpr known)]

@[simp] theorem head_hear (ledger : Ledger) (responder : Responder α) (report : Report) :
    (responder.hear ledger report).responder.head = responder.head.adopt report.header :=
  head_handle ledger report.directory responder _

@[simp] theorem updateLimit_hear (ledger : Ledger) (responder : Responder α) (report : Report) :
    (responder.hear ledger report).responder.updateLimit = responder.updateLimit := by
  by_cases announces : responder.Announces report
  · rw [hear_of_announces announces, responder_tell]
  · rw [hear_of_not_announces announces]

/-- Only a report that peers are told of moves the next window on. -/
theorem announced_hear (ledger : Ledger) (responder : Responder α) (report : Report) :
    (responder.hear ledger report).responder.announced =
      if responder.Announces report then responder.announced + 1 else responder.announced := by
  by_cases announces : responder.Announces report
  · rw [hear_of_announces announces, responder_tell, if_pos announces]
  · rw [hear_of_not_announces announces, if_neg announces]

theorem tells_of_announces (ledger : Ledger) (announces : responder.Announces report) :
    responder.Tells report (responder.window report.directory.peers)
      (responder.hear ledger report) := by
  have window := window_eq_segment responder announces.somebody
  obtain ⟨inTurn, refusals, accounted⟩ :=
    tell_accounts (.statusUpdate ⟨report.header⟩) report.now
      (responder.window report.directory.peers)
      { responder with head := report.header, announced := responder.announced + 1 }
  rw [hear_of_announces announces]
  constructor
  case consecutive => exact window
  case length => rw [window, length_segment announces.somebody]
  case limiter => rw [responder_tell]
  case peers => exact inTurn
  case messages =>
    rw [responder_tell]
    exact fun letter sent => message_of_tell sent
  case accounted =>
    rw [List.count_append]
    exact accounted
  case sent =>
    rw [List.filter_append, refusals]
    rfl
  case announced => rw [responder_tell]

/-! ## Many reports -/

theorem le_head_hearAll (ledger : Ledger) (responder : Responder α) (reports : List Report) :
    responder.head.version ≤ (responder.hearAll ledger reports).head.version := by
  induction reports generalizing responder with
  | nil => exact Version.le_refl _
  | cons report later ih =>
    apply Version.le_trans _ (ih _)
    rw [head_hear]
    exact Header.le_adopt ..

/-- With the directory unchanged the windows slide along it, one place at a time. -/
theorem windows_eq_sliding {reports : List Report}
    (unchanged : ∀ report ∈ reports, report.directory.peers = peers)
    (room : responder.announced.toNat + (responder.windows ledger reports).length < UInt64.size) :
    responder.windows ledger reports = sliding peers responder.announced.toNat
      (min peers.length responder.updateLimit) (responder.windows ledger reports).length := by
  induction reports generalizing responder with
  | nil => rfl
  | cons report later ih =>
    obtain ⟨here, unchanged⟩ := List.forall_mem_cons.mp unchanged
    by_cases announces : responder.Announces report
    · simp only [windows, announces, if_true, List.length_cons] at room ⊢
      have next : (responder.hear ledger report).responder.announced.toNat =
          responder.announced.toNat + 1 := by
        rw [announced_hear, if_pos announces, UInt64.toNat_add]
        apply Nat.mod_eq_of_lt
        simp only [UInt64.size] at room
        simp only [UInt64.toNat_one]
        omega
      have slide := @ih (responder.hear ledger report).responder unchanged
        (by rw [next]; omega)
      rw [next, updateLimit_hear] at slide
      rw [sliding_succ, ← slide, window_eq_segment responder announces.somebody, here]
    · have kept : (responder.hear ledger report).responder.announced = responder.announced := by
        rw [announced_hear, if_neg announces]
      simp only [windows, announces, if_false] at room ⊢
      have slide := @ih (responder.hear ledger report).responder unchanged
        (by rw [kept]; exact room)
      rwa [kept, updateLimit_hear] at slide

/-- A report makes the responder take up a header that is ahead, in any phase. Peers are told of it
only if the node is idle and has peers: a window of them, all different, is put before the limiter,
and each one is told or counted as refused. As long as the directory stays the same and the count of
announcements does not wrap, every peer is in as many of the windows of one lap as a window has
places. -/
theorem tells_in_turn (ledger : Ledger) (responder : Responder α) :
    (∀ report, (responder.hear ledger report).responder.head =
        responder.head.adopt report.header ∧
      (¬ responder.Announces report → (responder.hear ledger report).letters = [] ∧
        (responder.hear ledger report).metrics = []) ∧
      (responder.Announces report →
        responder.Tells report (responder.window report.directory.peers)
          (responder.hear ledger report) ∧
        (report.directory.peers.Nodup → (responder.window report.directory.peers).Nodup ∧
          ((responder.hear ledger report).letters.map (·.peer)).Nodup))) ∧
    (∀ reports, responder.head.version ≤ (responder.hearAll ledger reports).head.version) ∧
    ∀ (peers : List PeerId) (reports : List Report), peers.Nodup →
      (∀ report ∈ reports, report.directory.peers = peers) →
      responder.announced.toNat + (responder.windows ledger reports).length < UInt64.size →
      ∀ lap, lap <:+: responder.windows ledger reports → lap.length = peers.length →
        ∀ peer ∈ peers, lap.countP (peer ∈ ·) = min peers.length responder.updateLimit := by
  refine ⟨fun report => ⟨head_hear .., fun untold => ?_, fun announces => ?_⟩,
    le_head_hearAll ledger responder, ?_⟩
  · rw [hear_of_not_announces untold]
    exact ⟨rfl, rfl⟩
  · have tells := tells_of_announces ledger announces
    refine ⟨tells, fun distinct => ?_⟩
    have apart : (responder.window report.directory.peers).Nodup := by
      rw [tells.consecutive]
      exact nodup_segment distinct (Nat.min_le_left ..) _
    exact ⟨apart, tells.peers.nodup apart⟩
  · intro peers reports distinct unchanged room lap within whole peer member
    rw [windows_eq_sliding unchanged room] at within
    obtain ⟨offset, slid⟩ := exists_of_infix_sliding within
    rw [slid, whole]
    exact countP_sliding distinct (Nat.min_le_left ..) member offset

/-- A report to a node with three peers. -/
def threeTold (version : UInt64) (phase : PhaseKind) : Report :=
  ⟨PeerSet.ofList [⟨4⟩, ⟨7⟩, ⟨9⟩], ⟨⟨version⟩, 0, 0, .zero⟩, phase, 0⟩

/-- Two of three peers may hear of each head, at one message a second. The limiter lets the first
one through and refuses the next, and then all of the windows that follow in the same second. The
report that comes while the node is syncing is taken up, but it costs no window. -/
theorem tells_in_turn_past_syncing :
    let responder : Responder Rat :=
      { head := .genesis, updateLimit := 2, limiter := .ofRate 1 0, announced := 0 }
    let reports := [threeTold 1 .idle, threeTold 2 .syncing, threeTold 3 .idle, threeTold 4 .idle]
    let first := responder.hear .empty (threeTold 1 .idle)
    let second := first.responder.hear .empty (threeTold 3 .idle)
    responder.windows .empty reports = [[⟨4⟩, ⟨7⟩], [⟨7⟩, ⟨9⟩], [⟨9⟩, ⟨4⟩]] ∧
    (∀ peer ∈ [⟨4⟩, ⟨7⟩, ⟨9⟩],
      (responder.windows .empty reports).countP (peer ∈ ·) = 2) ∧
    first.letters = [⟨⟨4⟩, .statusUpdate ⟨(threeTold 1 .idle).header⟩⟩] ∧
    first.metrics = [.updateRateLimited, .updatesSent 1] ∧
    first.letters.length + first.metrics.count .updateRateLimited = 2 ∧
    second.letters = [] ∧
    second.metrics = [.updateRateLimited, .updateRateLimited, .updatesSent 0] ∧
    second.letters.length + second.metrics.count .updateRateLimited = 2 ∧
    (responder.hear .empty (threeTold 1 .syncing)).responder.head.version = ⟨1⟩ ∧
    (responder.hear .empty (threeTold 1 .syncing)).letters = [] := by
  intro responder reports first second
  have slid : responder.windows .empty reports = [[⟨4⟩, ⟨7⟩], [⟨7⟩, ⟨9⟩], [⟨9⟩, ⟨4⟩]] := by
    decide +kernel
  obtain ⟨single, -, laps⟩ := tells_in_turn .empty responder
  obtain ⟨-, -, told⟩ := single (threeTold 1 .idle)
  have once := (told (by decide)).1
  obtain ⟨-, -, told⟩ := (tells_in_turn .empty first.responder).1 (threeTold 3 .idle)
  have again := (told (by decide +kernel)).1
  obtain ⟨taken, untold, -⟩ := single (threeTold 1 .syncing)
  refine ⟨slid, ?_, ?_, ?_, ?_, ?_, ?_, ?_, ?_, (untold (by decide)).1⟩
  · exact laps [⟨4⟩, ⟨7⟩, ⟨9⟩] reports (by decide) (by decide) (by rw [slid]; decide) _
      List.infix_rfl (by rw [slid]; rfl)
  · decide +kernel
  · decide +kernel
  · exact once.accounted.trans once.length
  · decide +kernel
  · decide +kernel
  · rw [again.accounted, again.length, updateLimit_hear]
    rfl
  · rw [taken]
    rfl

end Catchup.Responder
