import Catchup.Identity

/-! Finite sets of peers, listed in ascending order: the directory of connected peers, and the peers
whose answer is awaited. -/

set_option autoImplicit false

namespace Catchup

structure PeerSet where
  toList : List PeerId
  ascending : toList.Pairwise (· < ·)
  deriving Repr

namespace PeerSet

instance : DecidableEq PeerSet := fun left right =>
  if same : left.toList = right.toList then
    isTrue (by cases left; cases right; cases same; rfl)
  else isFalse fun equal => same (congrArg toList equal)

def empty : PeerSet := ⟨[], .nil⟩

def size (set : PeerSet) : Nat := set.toList.length

def isEmpty (set : PeerSet) : Bool := set.toList.isEmpty

def contains (set : PeerSet) (peer : PeerId) : Bool := set.toList.contains peer

/-- Put a peer before the first larger one. -/
def place (peer : PeerId) : List PeerId → List PeerId
  | [] => [peer]
  | first :: rest =>
    if peer < first then peer :: first :: rest
    else if peer = first then first :: rest
    else first :: place peer rest

theorem mem_place {peer other : PeerId} {peers : List PeerId} :
    other ∈ place peer peers ↔ other = peer ∨ other ∈ peers := by
  induction peers with
  | nil => simp [place]
  | cons first rest ih =>
    simp only [place]
    split
    · simp
    · split
      · subst peer; simp
      · simp only [List.mem_cons, ih, or_left_comm]

theorem ascending_place (peer : PeerId) {peers : List PeerId} (ascending : peers.Pairwise (· < ·)) :
    (place peer peers).Pairwise (· < ·) := by
  induction peers with
  | nil => simp [place]
  | cons first rest ih =>
    obtain ⟨least, ordered⟩ := List.pairwise_cons.mp ascending
    simp only [place]
    split
    next before =>
      refine List.pairwise_cons.mpr ⟨fun other member => ?_, ascending⟩
      rcases List.mem_cons.mp member with rfl | later
      · exact before
      · exact PeerId.lt_iff.mpr
          (Nat.lt_trans (PeerId.lt_iff.mp before) (PeerId.lt_iff.mp (least other later)))
    next notBefore =>
      split
      · exact ascending
      next different =>
        refine List.pairwise_cons.mpr ⟨fun other member => ?_, ih ordered⟩
        rcases mem_place.mp member with rfl | later
        · refine PeerId.lt_iff.mpr (Nat.lt_of_le_of_ne ?_ ?_)
          · exact Nat.le_of_not_lt fun less => notBefore (PeerId.lt_iff.mpr less)
          · exact fun same => different (PeerId.ext_number same.symm)
        · exact least other later

def insert (set : PeerSet) (peer : PeerId) : PeerSet :=
  ⟨place peer set.toList, ascending_place peer set.ascending⟩

def erase (set : PeerSet) (peer : PeerId) : PeerSet :=
  ⟨set.toList.filter (· ≠ peer), set.ascending.filter _⟩

def add (set : PeerSet) (peer : PeerId) : Bool × PeerSet :=
  (!set.contains peer, set.insert peer)

def remove (set : PeerSet) (peer : PeerId) : Bool × PeerSet :=
  (set.contains peer, set.erase peer)

def ofList (peers : List PeerId) : PeerSet := peers.foldl insert empty

theorem contains_iff {set : PeerSet} {peer : PeerId} :
    set.contains peer = true ↔ peer ∈ set.toList := by
  simp [contains]

@[simp] theorem mem_insert {set : PeerSet} {peer other : PeerId} :
    other ∈ (set.insert peer).toList ↔ other = peer ∨ other ∈ set.toList := mem_place

@[simp] theorem mem_erase {set : PeerSet} {peer other : PeerId} :
    other ∈ (set.erase peer).toList ↔ other ∈ set.toList ∧ other ≠ peer := by
  simp [erase]

theorem mem_foldl_insert {peers : List PeerId} {set : PeerSet} {peer : PeerId} :
    peer ∈ (peers.foldl insert set).toList ↔ peer ∈ set.toList ∨ peer ∈ peers := by
  induction peers generalizing set with
  | nil => simp
  | cons first rest ih =>
    rw [List.foldl_cons, ih, mem_insert, List.mem_cons]
    grind

@[simp] theorem mem_ofList {peers : List PeerId} {peer : PeerId} :
    peer ∈ (ofList peers).toList ↔ peer ∈ peers := by
  simp [ofList, mem_foldl_insert, empty]

end PeerSet

/-- What a node is told about its peers: whom there is to ask, in a stable order, and whether a peer
is still connected. -/
structure Directory where
  peers : List PeerId
  has : PeerId → Bool

def PeerSet.directory (set : PeerSet) : Directory := ⟨set.toList, set.contains⟩

instance : Coe PeerSet Directory := ⟨PeerSet.directory⟩

@[simp] theorem PeerSet.has_directory (set : PeerSet) (peer : PeerId) :
    set.directory.has peer = set.contains peer := rfl

@[simp] theorem PeerSet.peers_directory (set : PeerSet) : set.directory.peers = set.toList := rfl

end Catchup
