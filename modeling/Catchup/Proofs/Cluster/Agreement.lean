import Catchup.Proofs.Cluster.Honesty
import Catchup.Proofs.Ledger.Binding

/-! Ledgers agree on the shared history, or two of the strings they have hashed collide.

Every response in flight claims to reach an accumulator on the history of some ledger, also when it
was forged. A ledger that takes it in has folded its own transactions into that accumulator, so the
two histories are the same, or a collision lies on the way. -/

set_option autoImplicit false

namespace Catchup.Cluster

/-- The strings that have been hashed to build the ledgers. -/
def hashed (cluster : Cluster) : List (List UInt8) :=
  cluster.ledgers.flatMap fun ledger => Digest.zero.hashed ledger.transactions

/-- What the extension claims to reach lies on the history of a ledger. -/
def Backed (cluster : Cluster) (extension : Extension) : Prop :=
  ∃ ledger ∈ cluster.ledgers, extension.finish.version.toNat ≤ ledger.transactions.length ∧
    extension.finish.accumulator =
      Digest.zero.accumulateAll (ledger.transactions.take extension.finish.version.toNat)

/-- Every ledger holds transactions of the shared history, from the first on. -/
def Shared (cluster : Cluster) : Prop :=
  ∀ ledger ∈ cluster.ledgers, ledger.transactions = Transaction.history ledger.transactions.length

/-- No ledger has lost a transaction. -/
def Grows (cluster next : Cluster) : Prop :=
  ∀ ledger ∈ cluster.ledgers, ∃ later ∈ next.ledgers, ledger.transactions <+: later.transactions

variable {cluster next : Cluster}

theorem hashed_subset {ledger : Ledger} (held : ledger ∈ cluster.ledgers)
    {transactions : List Transaction} (within : transactions <+: ledger.transactions) :
    Digest.zero.hashed transactions ⊆ cluster.hashed := by
  obtain ⟨rest, whole⟩ := within
  intro string member
  refine List.mem_flatMap.mpr ⟨ledger, held, ?_⟩
  rw [← whole, Digest.hashed_append]
  exact List.mem_append_left _ member

/-! ## Growing ledgers -/

theorem grows_of_eq (ledgers : next.ledgers = cluster.ledgers) : Grows cluster next :=
  fun ledger held => ⟨ledger, ledgers ▸ held, List.prefix_rfl⟩

theorem grows_of_set {position : Nat} {ledger after : Ledger}
    (held : cluster.ledgers[position]? = some ledger)
    (ledgers : next.ledgers = cluster.ledgers.set position after)
    (kept : ledger.transactions <+: after.transactions) : Grows cluster next := by
  intro other member
  obtain ⟨index, bound, rfl⟩ := List.getElem_of_mem member
  rw [ledgers]
  -- Only the ledger at the position has changed.
  by_cases here : position = index
  · subst here
    rw [List.getElem?_eq_getElem bound] at held
    cases held
    exact ⟨after, List.mem_set bound after, kept⟩
  · refine ⟨cluster.ledgers[index], ?_, List.prefix_rfl⟩
    exact List.mem_of_getElem? ((List.getElem?_set_ne here).trans (List.getElem?_eq_getElem bound))

theorem Grows.hashed (grows : Grows cluster next) : cluster.hashed ⊆ next.hashed := by
  intro string member
  obtain ⟨ledger, held, used⟩ := List.mem_flatMap.mp member
  obtain ⟨later, after, kept⟩ := grows ledger held
  exact hashed_subset after kept used

theorem Grows.backed (grows : Grows cluster next) {extension : Extension}
    (backed : Backed cluster extension) : Backed next extension := by
  obtain ⟨ledger, held, reached, same⟩ := backed
  obtain ⟨later, after, rest, whole⟩ := grows ledger held
  refine ⟨later, after, ?_, ?_⟩
  · rw [← whole, List.length_append]
    exact Nat.le_add_right_of_le reached
  · rw [← whole, List.take_append_of_le_length reached]
    exact same

/-! ## Events -/

structure Agrees (cluster : Cluster) : Prop where
  backed : ∀ response ∈ cluster.inFlight, Backed cluster response.2
  shared : Shared cluster ∨ Blake3.Collides cluster.hashed

/-- While the ledgers stay as they are, only backed responses may take off. -/
theorem Agrees.mono (agrees : Agrees cluster) (ledgers : next.ledgers = cluster.ledgers)
    (flown : ∀ response ∈ next.inFlight,
      response ∈ cluster.inFlight ∨ Backed cluster response.2) : Agrees next where
  backed response member :=
    (grows_of_eq ledgers).backed ((flown response member).elim (agrees.backed response) id)
  shared := by
    unfold Shared Cluster.hashed
    rw [ledgers]
    exact agrees.shared

/-- A ledger may grow by what the shared history goes on with, or by what leads to a collision. -/
theorem Agrees.grow (agrees : Agrees cluster) {position : Nat} {ledger after : Ledger}
    (held : cluster.ledgers[position]? = some ledger)
    (ledgers : next.ledgers = cluster.ledgers.set position after)
    (kept : ledger.transactions <+: after.transactions)
    (goes : Shared cluster → after.transactions = Transaction.history after.transactions.length ∨
      Blake3.Collides next.hashed)
    (less : next.inFlight ⊆ cluster.inFlight) : Agrees next where
  backed response member :=
    (grows_of_set held ledgers kept).backed (agrees.backed response (less member))
  shared := by
    rcases agrees.shared with shared | collides
    · rcases goes shared with same | collides
      · left
        intro other member
        rw [ledgers] at member
        rcases List.mem_or_eq_of_mem_set member with old | rfl
        · exact shared other old
        · exact same
      · exact .inr collides
    · exact .inr (collides.mono (grows_of_set held ledgers kept).hashed)

/-- What a ledger commits goes on with the shared history, or leads to a collision. -/
theorem shared_of_commit {ledger after : Ledger} {extension : Extension}
    {strings : List (List UInt8)} (shared : Shared cluster) (coherent : ledger.Coherent)
    (bridges : extension.Bridges) (backed : Backed cluster extension)
    (committed : ledger.commit extension = .ok after) (known : cluster.hashed ⊆ strings)
    (stored : Digest.zero.hashed after.transactions ⊆ strings) :
    after.transactions = Transaction.history after.transactions.length ∨
      Blake3.Collides strings := by
  obtain ⟨source, held, reached, claimed⟩ := backed
  have grown := coherent.commit bridges.count committed
  have header : after.header = extension.finish := by
    obtain ⟨-, -, -, rfl⟩ := Ledger.commit_eq_ok_iff.mp committed
    rfl
  have counted : extension.finish.version.toNat = after.transactions.length :=
    header ▸ grown.version
  rw [counted] at reached claimed
  -- Both histories have the claimed length and fold into the claimed accumulator.
  have folds : Digest.zero.accumulateAll after.transactions =
      Digest.zero.accumulateAll (source.transactions.take after.transactions.length) := by
    rw [← grown.accumulator, header, claimed]
  have sourced :
      Digest.zero.hashed (source.transactions.take after.transactions.length) ⊆ strings :=
    fun string member => known (hashed_subset held (List.take_prefix ..) member)
  rcases Digest.eq_or_collides (List.length_take_of_le reached).symm folds stored sourced with
    same | collides
  · left
    rw [shared source held, Transaction.take_history reached] at same
    exact same
  · exact .inr collides

theorem Agrees.advances (agrees : Agrees cluster) (sound : Sound cluster)
    (advances : Advances cluster.inFlight cluster next) : Agrees next := by
  obtain ⟨-, new, adds, effect⟩ := advances
  generalize ledgers : next.ledgers = changed, bans : next.bans = banned at effect
  cases effect with
  | quiet => exact agrees.mono ledgers fun response member => .inl (adds member)
  | @reported position ledger held =>
    exact agrees.grow held ledgers List.prefix_rfl
      (fun shared => .inl (shared ledger (List.mem_of_getElem? held))) adds
  | @judged position ledger after pursuit name peer extension verdict held flying decides =>
    have member := List.mem_of_getElem? held
    rcases decides.ledger with rfl | ⟨-, committed⟩
    · exact agrees.grow held ledgers List.prefix_rfl (fun shared => .inl (shared after member)) adds
    · have kept : ledger.transactions <+: after.takeUnreported.2.transactions := by
        obtain ⟨-, -, -, rfl⟩ := Ledger.commit_eq_ok_iff.mp committed
        exact List.prefix_append ..
      have stored : after.takeUnreported.2 ∈ next.ledgers := by
        rw [ledgers]
        exact List.mem_set (List.getElem?_eq_some_iff.mp held).1 _
      have hashes : Digest.zero.hashed after.transactions ⊆ next.hashed :=
        hashed_subset stored List.prefix_rfl
      refine agrees.grow held ledgers kept (fun shared => ?_) adds
      have goes := shared_of_commit shared (sound.ledgers ledger member).1 (sound.bridges _ flying)
        (agrees.backed _ flying) committed (grows_of_set held ledgers kept).hashed hashes
      exact goes
  | @served ledger sender start served held found =>
    refine agrees.mono ledgers fun response member => ?_
    rcases List.mem_cons.mp (adds member) with rfl | old
    · have coherent := (sound.ledgers ledger held).1
      obtain ⟨-, -, rfl⟩ := coherent.extensionFrom_eq_some_iff.mp found
      -- Forging leaves the claim as it is: the served header.
      have claimed : Backed cluster ⟨start, ledger.transactions, ledger.header⟩ := by
        refine ⟨ledger, held, Nat.le_of_eq coherent.version, ?_⟩
        have counted : ledger.header.version.toNat = ledger.transactions.length := coherent.version
        rw [counted, List.take_length]
        exact coherent.accumulator
      right
      dsimp only
      split
      · exact claimed
      · exact claimed
    · exact .inl old

/-! ## Runs -/

theorem Agrees.commitLocal (agrees : Agrees cluster) (sound : Sound cluster) {name : PeerId}
    {count : Nat} {header : Header} (done : cluster.commitLocal name count = .ok (header, next)) :
    Agrees next := by
  obtain ⟨node, ledger, found, room, appended, rfl⟩ := commitLocal_eq_ok done
  have held := getElem?_ledgers found
  have member := mem_ledgers found
  have counted := (sound.ledgers _ member).1.version
  obtain ⟨-, -, rfl⟩ := Ledger.append_eq_ok appended
  refine agrees.grow held ledgers_setNode (List.prefix_append ..) (fun shared => .inl ?_)
    (inFlight_schedule 0 _ rfl)
  have whole : node.ledger.transactions ++ ((List.range count).map fun offset =>
      .generated (node.ledger.version.toNat + offset)) =
      Transaction.history (node.ledger.version.toNat + count) := by
    rw [Transaction.history_add, counted, ← shared _ member]
  show node.ledger.transactions ++ _ = Transaction.history (node.ledger.transactions ++ _).length
  rw [whole, Transaction.length_history]

theorem Reached.agrees {settings : Settings} {versions : List UInt64}
    (reached : Reached settings versions (fun given => given.response? = none) cluster) :
    Agrees cluster := by
  induction reached with
  | start =>
    refine ⟨nofun, .inl fun ledger member => ?_⟩
    rw [ledgers_start, List.map_map] at member
    obtain ⟨version, _, rfl⟩ := List.mem_map.mp member
    rw [Function.comp_apply, Ledger.transactions_generated, Transaction.length_history]
  | corrupt name _ ih => exact ih.mono rfl fun response member => .inl member
  | silence name _ ih => exact ih.mono rfl fun response member => .inl member
  | commitLocal earlier done ih => exact ih.commitLocal earlier.sound done
  | input name given _ none ih =>
    exact ih.mono rfl fun response member =>
      .inl (inFlight_schedule 0 (.input name given) none member)
  | step earlier done ih => exact ih.advances earlier.sound (advances_of_step done)
  | elapse _ later ih => exact ih.mono rfl fun response member => .inl member

theorem forgedTransaction_not_mem_history (count : Nat) :
    forgedTransaction ∉ Transaction.history count := by
  intro member
  obtain ⟨number, _, same⟩ := List.mem_map.mp member
  have payloads := congrArg Transaction.payload same
  rw [Transaction.payload_generated, forgedTransaction_payload] at payloads
  cases payloads

/-- Whatever happens to a cluster, short of responses made up by no node, every ledger holds the
shared history up to its version, without anything forged, and of two ledgers the lower one is a
prefix of the other; or two different strings that were hashed for them have the same hash. -/
theorem Reached.ledgers_agree {settings : Settings} {versions : List UInt64}
    (reached : Reached settings versions (fun given => given.response? = none) cluster) :
    ((∀ node ∈ cluster.nodes,
        node.ledger.transactions =
          (List.range node.ledger.version.toNat).map Transaction.generated ∧
        forgedTransaction ∉ node.ledger.transactions) ∧
      ∀ lower ∈ cluster.nodes, ∀ higher ∈ cluster.nodes,
        lower.ledger.version ≤ higher.ledger.version →
        lower.ledger.transactions <+: higher.ledger.transactions) ∨
    ∃ left ∈ cluster.hashed, ∃ right ∈ cluster.hashed,
      left ≠ right ∧ Blake3.hash left = Blake3.hash right := by
  rcases reached.agrees.shared with shared | collides
  · left
    have holds : ∀ node ∈ cluster.nodes,
        node.ledger.transactions = Transaction.history node.ledger.version.toNat := by
      intro node member
      have held : node.ledger ∈ cluster.ledgers := List.mem_map.mpr ⟨node, member, rfl⟩
      rw [(reached.sound.ledgers _ held).1.version]
      exact shared _ held
    refine ⟨fun node member => ⟨holds node member, ?_⟩, fun lower low higher high below => ?_⟩
    · rw [holds node member]
      exact forgedTransaction_not_mem_history _
    · rw [holds lower low, holds higher high]
      exact Transaction.history_prefix_of_le (Version.le_iff.mp below)
  · exact .inr collides

/-- Node 0 fetches the only transaction of node 1, and nothing that was hashed collides. -/
theorem ledgers_agree_after_sync :
    ∃ cluster, Reached {} [0, 1] (fun given => given.response? = none) cluster ∧
      cluster.nodes.map (fun node => node.ledger.version) = [⟨1⟩, ⟨1⟩] ∧
      ∀ node ∈ cluster.nodes, node.ledger.transactions = [.generated 0] := by
  have asked : Reached {} [0, 1] (fun given => given.response? = none) _ :=
    Reached.start.input ⟨0⟩ .checkDue rfl
  obtain ⟨cluster, reached, seen⟩ := asked.exists_of_steps 5
    (fun cluster => (cluster.nodes.map fun node => node.ledger.version,
      decide (∃ left ∈ cluster.hashed, ∃ right ∈ cluster.hashed,
        left ≠ right ∧ Blake3.hash left = Blake3.hash right))) ([⟨1⟩, ⟨1⟩], false)
    (by decide +kernel)
  obtain ⟨versions, apart⟩ := Prod.mk.inj seen
  refine ⟨cluster, reached, versions, fun node member => ?_⟩
  rcases reached.ledgers_agree with ⟨holds, -⟩ | collides
  · have version : node.ledger.version ∈ [(⟨1⟩ : Version), ⟨1⟩] :=
      versions ▸ List.mem_map.mpr ⟨node, member, rfl⟩
    have one : node.ledger.version = ⟨1⟩ := by simpa using version
    rw [(holds node member).1, one]
    rfl
  · exact absurd collides (of_decide_eq_false apart)

end Catchup.Cluster
