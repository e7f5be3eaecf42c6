import Catchup.Proofs.Cluster.Effect
import Catchup.Proofs.Cluster.Reached
import Catchup.Proofs.Ledger.Generated

/-! Only malicious nodes are ever banned.

Every ledger stays coherent, so every response that an honest node serves is honest, and stays so
while it is in flight, however late it arrives and wherever its receiver is by then. -/

set_option autoImplicit false

namespace Catchup.Cluster

structure Sound (cluster : Cluster) : Prop where
  ledgers : ∀ ledger ∈ cluster.ledgers, ledger.Coherent ∧ ledger.Parseable
  bridges : ∀ response ∈ cluster.inFlight, response.2.Bridges
  honest : ∀ response ∈ cluster.inFlight,
    cluster.malicious.contains response.1 = true ∨ response.2.Honest
  bans : ∀ ban ∈ cluster.bans, cluster.malicious.contains ban.peer = true

variable {cluster next : Cluster}

theorem forgedTransaction_payload :
    forgedTransaction.payload = [102, 111, 114, 103, 101, 100] := by
  simp only [forgedTransaction, byteArray_toList]
  rfl

/-- A forged extension has the same shape as the served one. -/
theorem bridges_forge {extension : Extension} (bridges : extension.Bridges) :
    (forge extension).Bridges := by
  obtain ⟨start, transactions, finish⟩ := extension
  obtain ⟨nonempty, count, parseable⟩ := bridges
  cases transactions with
  | nil => exact absurd rfl nonempty
  | cons first rest =>
    refine ⟨List.cons_ne_nil _ _, count, fun transaction member => ?_⟩
    rcases List.mem_cons.mp member with rfl | later
    · simp [forgedTransaction_payload]
    · exact parseable transaction (List.mem_cons_of_mem first later)

/-- Only the ledgers, the bans and the responses in flight matter, and who is malicious. -/
theorem Sound.mono (sound : Sound cluster) (ledgers : next.ledgers = cluster.ledgers)
    (bans : next.bans = cluster.bans) (less : next.inFlight ⊆ cluster.inFlight)
    (malicious : ∀ peer, cluster.malicious.contains peer = true →
      next.malicious.contains peer = true) : Sound next where
  ledgers := ledgers ▸ sound.ledgers
  bridges response member := sound.bridges response (less member)
  honest response member := (sound.honest response (less member)).imp_left (malicious _)
  bans ban member := malicious _ (sound.bans ban (bans ▸ member))

theorem ledgers_start (settings : Settings) (versions : List Nat) :
    (start settings versions).ledgers = versions.map Ledger.generated :=
  calc
    (start settings versions).ledgers
      = versions.zipIdx.map (Ledger.generated ∘ Prod.fst) := List.map_map
    _ = (versions.zipIdx.map Prod.fst).map Ledger.generated := List.map_map.symm
    _ = versions.map Ledger.generated := by rw [List.zipIdx_map_fst]

theorem sound_start (settings : Settings) (versions : List UInt64) :
    Sound (.start settings (versions.map UInt64.toNat)) where
  ledgers ledger member := by
    rw [ledgers_start, List.map_map] at member
    obtain ⟨version, _, rfl⟩ := List.mem_map.mp member
    refine ⟨Ledger.coherent_generated version.toNat_lt, fun transaction stored => ?_⟩
    rw [Function.comp_apply, Ledger.transactions_generated] at stored
    exact Transaction.payload_ne_nil_of_mem_history stored
  bridges := nofun
  honest := nofun
  bans := nofun

theorem Sound.replace (sound : Sound cluster) {position : Nat} {after : Ledger}
    (coherent : after.Coherent) (parseable : after.Parseable)
    (ledgers : next.ledgers = cluster.ledgers.set position after)
    (bans : ∀ ban ∈ next.bans, ban ∈ cluster.bans ∨ cluster.malicious.contains ban.peer = true)
    (less : next.inFlight ⊆ cluster.inFlight) (malicious : next.malicious = cluster.malicious) :
    Sound next where
  ledgers ledger member := by
    rw [ledgers] at member
    rcases List.mem_or_eq_of_mem_set member with old | rfl
    · exact sound.ledgers ledger old
    · exact ⟨coherent, parseable⟩
  bridges response member := sound.bridges response (less member)
  honest response member := malicious ▸ sound.honest response (less member)
  bans ban member := malicious ▸ (bans ban member).elim (sound.bans ban) id

/-! ## Events -/

/-- A ledger that a response was judged for stays coherent. -/
theorem Sound.coherent_of_decides (sound : Sound cluster) {ledger after : Ledger}
    {pursuit : Pursuit} {peer : PeerId} {extension : Extension} {verdict : Verdict}
    (held : ledger ∈ cluster.ledgers) (flying : (peer, extension) ∈ cluster.inFlight)
    (decides : Verification.Decides .trusting Ledger.committer pursuit peer extension ledger
      verdict after) :
    after.Coherent ∧ after.Parseable := by
  obtain ⟨coherent, parseable⟩ := sound.ledgers ledger held
  have bridges := sound.bridges _ flying
  rcases decides.ledger with rfl | ⟨-, committed⟩
  · exact ⟨coherent, parseable⟩
  · refine ⟨coherent.commit bridges.count committed, fun transaction member => ?_⟩
    obtain ⟨-, -, -, rfl⟩ := Ledger.commit_eq_ok_iff.mp committed
    rcases List.mem_append.mp member with old | new
    · exact parseable transaction old
    · exact bridges.parseable transaction new

/-- A response that is judged malicious does not come from an honest node. -/
theorem Sound.malicious_of_decides (sound : Sound cluster) {ledger after : Ledger}
    {pursuit : Pursuit} {peer : PeerId} {extension : Extension} {reason : Misconduct}
    (flying : (peer, extension) ∈ cluster.inFlight)
    (decides : Verification.Decides .trusting Ledger.committer pursuit peer extension ledger
      (.malicious reason) after) :
    cluster.malicious.contains peer = true := by
  rcases sound.honest _ flying with malicious | honest
  · exact malicious
  · exact absurd rfl (decides.not_malicious honest rfl rfl reason)

theorem Sound.advances (sound : Sound cluster)
    (advances : Advances cluster.inFlight cluster next) : Sound next := by
  obtain ⟨malicious, new, adds, effect⟩ := advances
  generalize ledgers : next.ledgers = changed, bans : next.bans = banned at effect
  cases effect with
  | quiet => exact sound.mono ledgers bans adds fun peer known => malicious ▸ known
  | @reported _ ledger held =>
    obtain ⟨coherent, parseable⟩ := sound.ledgers ledger (List.mem_of_getElem? held)
    exact sound.replace coherent.takeUnreported parseable ledgers
      (fun ban member => .inl (bans ▸ member)) adds malicious
  | @judged _ ledger after pursuit name peer extension verdict held flying decides =>
    obtain ⟨coherent, parseable⟩ :=
      sound.coherent_of_decides (List.mem_of_getElem? held) flying decides
    -- The one ban that may be new names the sender of the response.
    refine sound.replace coherent.takeUnreported parseable ledgers (fun ban member => ?_) adds
      malicious
    rw [bans, List.mem_append] at member
    rcases member with old | new
    · exact .inl old
    · cases verdict with
      | malicious reason =>
        cases List.mem_singleton.mp new
        exact .inr (sound.malicious_of_decides flying decides)
      | accepted | unsolicited => cases new
  | @served ledger sender start served held found =>
    obtain ⟨coherent, parseable⟩ := sound.ledgers ledger held
    -- What was served is honest; it goes out as it is, or forged by a malicious node.
    have honest := coherent.honest_of_extensionFrom parseable found
    refine ⟨ledgers ▸ sound.ledgers, fun response member => ?_, fun response member => ?_,
      bans ▸ malicious ▸ sound.bans⟩
    · rcases List.mem_cons.mp (adds member) with rfl | old
      · dsimp only
        split
        · exact bridges_forge honest.toBridges
        · exact honest.toBridges
      · exact sound.bridges response old
    · rcases List.mem_cons.mp (adds member) with rfl | old
      · by_cases forges : cluster.malicious.contains sender = true
        · exact .inl (malicious ▸ forges)
        · rw [if_neg forges]
          exact .inr honest
      · exact malicious ▸ sound.honest response old

/-! ## Runs -/

theorem inFlight_schedule (delay : Nat) (event : Event) (none : event.response? = none) :
    (cluster.schedule delay event).inFlight ⊆ cluster.inFlight := by
  have flown := (Adds.schedule cluster delay event).inFlight
  rw [List.filterMap_cons_none none] at flown
  exact flown

theorem Sound.commitLocal (sound : Sound cluster) {name : PeerId} {count : Nat} {header : Header}
    (done : cluster.commitLocal name count = .ok (header, next)) : Sound next := by
  obtain ⟨node, ledger, found, room, appended, rfl⟩ := commitLocal_eq_ok done
  obtain ⟨coherent, parseable⟩ := sound.ledgers _ (mem_ledgers found)
  have grown : ledger.Coherent := coherent.append (by simpa using room) appended
  have stored : ledger.Parseable := by
    obtain ⟨-, -, rfl⟩ := Ledger.append_eq_ok appended
    intro transaction member
    rcases List.mem_append.mp member with old | new
    · exact parseable transaction old
    · obtain ⟨offset, _, rfl⟩ := List.mem_map.mp new
      exact Transaction.payload_generated_ne_nil _
  exact sound.replace grown stored ledgers_setNode (fun ban member => .inl member)
    (inFlight_schedule 0 _ rfl) rfl

theorem Reached.sound {settings : Settings} {versions : List UInt64}
    (reached : Reached settings versions (fun given => given.response? = none) cluster) :
    Sound cluster := by
  induction reached with
  | start => exact sound_start settings versions
  | corrupt name _ ih =>
    refine ih.mono rfl rfl (List.Subset.refl _) fun peer known => ?_
    exact PeerSet.contains_iff.mpr (PeerSet.mem_insert.mpr (.inr (PeerSet.contains_iff.mp known)))
  | silence name _ ih => exact ih.mono rfl rfl (List.Subset.refl _) fun peer known => known
  | commitLocal _ done ih => exact ih.commitLocal done
  | input name given _ none ih =>
    exact ih.mono rfl rfl (inFlight_schedule 0 _ none) fun peer known => known
  | step _ done ih => exact ih.advances (advances_of_step done)
  | elapse _ later ih => exact ih.mono rfl rfl (List.Subset.refl _) fun peer known => known

/-- Whatever happens to a cluster, short of responses made up by no node, a banned peer is
malicious. -/
theorem Reached.banned_malicious {settings : Settings} {versions : List UInt64}
    (reached : Reached settings versions (fun given => given.response? = none) cluster) :
    ∀ ban ∈ cluster.bans, cluster.malicious.contains ban.peer = true :=
  reached.sound.bans

/-- Node 1 forges what node 0 asks for, and is banned for it. -/
theorem banned_malicious_after_forgery :
    ∃ cluster, Reached {} [0, 1] (fun given => given.response? = none) cluster ∧
      cluster.bans.map (fun ban => (ban.node, ban.peer)) = [(⟨0⟩, ⟨1⟩)] ∧
      cluster.malicious.contains ⟨1⟩ = true := by
  have corrupted : Reached {} [0, 1] (fun given => given.response? = none) _ :=
    (Reached.start.corrupt ⟨1⟩).input ⟨0⟩ .checkDue rfl
  obtain ⟨cluster, reached, banned⟩ := corrupted.exists_of_steps 5
    (fun cluster => cluster.bans.map fun ban => (ban.node, ban.peer)) [(⟨0⟩, ⟨1⟩)]
    (by decide +kernel)
  refine ⟨cluster, reached, banned, ?_⟩
  obtain ⟨ban, member, same⟩ := List.mem_map.mp (banned ▸ List.mem_singleton.mpr rfl)
  have named : ban.peer = ⟨1⟩ := congrArg Prod.snd same
  exact named ▸ reached.banned_malicious ban member

end Catchup.Cluster
