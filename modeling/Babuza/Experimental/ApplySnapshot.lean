import Babuza.Cluster
import Babuza.Transport.PeerManager

/-!
# Installing a snapshot in a group of a multi-raft store

All groups of a store share one transport, and with it one table of peers. When a group installs a
snapshot it replaces its peers by the members of the restored cluster store. It first calls
`RemovePeers`, which takes no group and empties the whole table, so that the other groups lose their
peers too.
-/

namespace Babuza.Experimental

open Transport

structure ReplicaStatus where
  appliedTerm : Nat
  appliedIndex : Nat
  snapshotIndex : Nat
  confState : ConfState

structure Replica where
  cluster : Cluster
  status : ReplicaStatus

inductive ApplyError
  /-- `Panicf`: the snapshot is not above what has been applied -/
  | snapshotApplied
  deriving DecidableEq

/-- `MultiRaftTransport.AddPeer`: a failure is logged. -/
def transportAddPeer (m : PeerManager) (groupID peerID : Nat) (address : String) : PeerManager :=
  match m.addPeer groupID peerID address with
  | .ok m => m
  | .error _ => m

def addMember (c : Cluster) (m : PeerManager) (p : Peer) : PeerManager :=
  if p.raftPeerAttr.peerID = c.localPeerID then m
  else transportAddPeer m c.groupID p.raftPeerAttr.peerID p.raftPeerAttr.raftListenAddr

def resetPeers (m : PeerManager) (c : Cluster) : PeerManager :=
  c.peers.foldl (addMember c) m.removeAllPeers

/-- `applySnapshot`, with the cluster store that the snapshot holds. -/
def Replica.applySnapshot (r : Replica) (m : PeerManager) (snap : Snapshot)
    (saved : Cluster.Saved) : Except ApplyError (Replica × PeerManager) :=
  if isEmptySnap snap then .ok (r, m)
  else if snap.metadata.index ≤ r.status.appliedIndex then .error .snapshotApplied
  else
    let cluster := r.cluster.restore saved
    .ok (⟨cluster, ⟨snap.metadata.term, snap.metadata.index, snap.metadata.index,
      snap.metadata.confState⟩⟩, resetPeers m cluster)

/-- The address under which a peer other than the local one is listed. -/
def addressIn (c : Cluster) (ps : List Peer) (peerID : Nat) : Option String :=
  if peerID = c.localPeerID then none
  else (ps.find? fun p => p.raftPeerAttr.peerID = peerID).map (·.raftPeerAttr.raftListenAddr)

/-- What a group sees of a peer: its address, the peer and whether it is running. -/
def view (m : PeerManager) (groupID peerID : Nat) : Option String × Option (Nat × Bool) :=
  (m.addresses.lookup ⟨groupID, peerID⟩,
    (m.getPeer groupID peerID).toOption.map fun p => (p, m.running p))

/-! ## The table after the reset -/

/-- The table has the given addresses for one group and nothing else, and its peers are running. -/
structure OnlyGroup (m : PeerManager) (groupID : Nat) (address : Nat → Option String) : Prop where
  address_eq : ∀ id, m.addresses.lookup ⟨groupID, id⟩ = address id
  other : ∀ g id, g ≠ groupID → m.addresses.lookup ⟨g, id⟩ = none
  peer : ∀ {i a}, m.addresses.lookup i = some a → a ∈ m.peers
  running : ∀ {a p}, m.peers.lookup a = some p → p ∉ m.stopped

namespace OnlyGroup

variable {m : PeerManager} {groupID : Nat} {address : Nat → Option String}

theorem removeAllPeers (m : PeerManager) (groupID : Nat) :
    OnlyGroup m.removeAllPeers groupID fun _ => none where
  address_eq _ := rfl
  other _ _ _ := rfl
  peer h := by cases h
  running h := by cases h

theorem addPeer (h : OnlyGroup m groupID address) (peerID : Nat) (a : String) :
    OnlyGroup (transportAddPeer m groupID peerID a) groupID fun id =>
      (address id).or (if id = peerID then some a else none) := by
  unfold transportAddPeer PeerManager.addPeer
  by_cases hmem : (⟨groupID, peerID⟩ : RaftPeerIdentifier) ∈ m.addresses
  · rw [if_pos hmem]
    refine { h with address_eq := fun id => ?_ }
    simp only
    rw [h.address_eq]
    by_cases hid : id = peerID
    · obtain ⟨old, hold⟩ := Option.isSome_iff_exists.mp (AList.lookup_isSome.mpr hmem)
      rw [h.address_eq] at hold
      rw [hid, hold]
      rfl
    · rw [if_neg hid, Option.or_none]
  · rw [if_neg hmem]
    have hnone : address peerID = none := by
      rwa [← h.address_eq, AList.lookup_eq_none]
    constructor
    · intro id
      simp only [PeerManager.retainAddressLocked_addresses]
      by_cases hid : id = peerID
      · rw [hid, AList.lookup_insert, hnone, if_pos rfl]
        rfl
      · rw [AList.lookup_insert_ne (fun heq => hid (congrArg RaftPeerIdentifier.peerID heq)),
          h.address_eq, if_neg hid, Option.or_none]
    · intro g id hg
      simp only [PeerManager.retainAddressLocked_addresses]
      rw [AList.lookup_insert_ne (fun heq => hg (congrArg RaftPeerIdentifier.groupID heq))]
      exact h.other g id hg
    · intro i a' hlookup
      simp only [PeerManager.retainAddressLocked_addresses] at hlookup
      rw [PeerManager.mem_retainAddressLocked]
      by_cases hi : i = ⟨groupID, peerID⟩
      · rw [hi, AList.lookup_insert] at hlookup
        exact .inl (Option.some.inj hlookup).symm
      · rw [AList.lookup_insert_ne hi] at hlookup
        exact .inr (h.peer hlookup)
    · intro a' p hlookup
      simp only [PeerManager.retainAddressLocked_stopped]
      rcases PeerManager.lookup_retainAddressLocked _ _ hlookup with hold | rfl
      · exact h.running hold
      · exact fun hstopped => Nat.lt_irrefl _ (m.stopped_lt hstopped)

theorem addMember {c : Cluster} (h : OnlyGroup m c.groupID address) (p : Peer) :
    OnlyGroup (addMember c m p) c.groupID fun id => (address id).or (addressIn c [p] id) := by
  unfold Experimental.addMember
  by_cases hlocal : p.raftPeerAttr.peerID = c.localPeerID
  · rw [if_pos hlocal]
    refine { h with address_eq := fun id => ?_ }
    have hnone : addressIn c [p] id = none := by
      unfold addressIn
      by_cases hid : id = c.localPeerID
      · rw [if_pos hid]
      · simp [hid, hlocal, Ne.symm hid]
    rw [h.address_eq, hnone, Option.or_none]
  · rw [if_neg hlocal]
    have hadd := h.addPeer p.raftPeerAttr.peerID p.raftPeerAttr.raftListenAddr
    refine { hadd with address_eq := fun id => ?_ }
    have hone : addressIn c [p] id =
        if id = p.raftPeerAttr.peerID then some p.raftPeerAttr.raftListenAddr else none := by
      unfold addressIn
      by_cases hid : id = p.raftPeerAttr.peerID
      · simp [hid, hlocal]
      · simp [hid, Ne.symm hid]
    rw [hadd.address_eq, hone]

theorem addressIn_cons (c : Cluster) (p : Peer) (ps : List Peer) (id : Nat) :
    addressIn c (p :: ps) id = (addressIn c [p] id).or (addressIn c ps id) := by
  unfold addressIn
  by_cases hid : id = c.localPeerID
  · simp [hid]
  · by_cases hp : p.raftPeerAttr.peerID = id <;> simp [hid, hp]

theorem addMembers {c : Cluster} (ps : List Peer) (h : OnlyGroup m c.groupID address) :
    OnlyGroup (ps.foldl (Experimental.addMember c) m) c.groupID
      fun id => (address id).or (addressIn c ps id) := by
  induction ps generalizing m address with
  | nil =>
    refine { h with address_eq := fun id => ?_ }
    rw [List.foldl_nil, h.address_eq]
    simp [addressIn]
  | cons p ps ih =>
    have hrest := ih (h.addMember p)
    refine { hrest with address_eq := fun id => ?_ }
    rw [List.foldl_cons, hrest.address_eq, addressIn_cons c p ps, Option.or_assoc]

theorem resetPeers (m : PeerManager) (c : Cluster) :
    OnlyGroup (resetPeers m c) c.groupID (addressIn c c.peers) :=
  (removeAllPeers m c.groupID).addMembers c.peers

theorem view_eq (h : OnlyGroup m groupID address) (id : Nat) :
    (view m groupID id).1 = address id ∧
      ((address id).isSome → ∃ p, (view m groupID id).2 = some (p, true)) := by
  refine ⟨h.address_eq id, fun hsome => ?_⟩
  obtain ⟨a, ha⟩ := Option.isSome_iff_exists.mp hsome
  rw [← h.address_eq] at ha
  obtain ⟨p, hp⟩ := Option.isSome_iff_exists.mp (AList.lookup_isSome.mpr (h.peer ha))
  refine ⟨p, ?_⟩
  have hget : m.getPeer groupID id = .ok p := by
    simp only [PeerManager.getPeer, PeerManager.resolvePeerAddress, ha]
    simp only [bind, Except.bind, PeerManager.getPeerByAddress, hp]
  have hrunning : m.running p = true := decide_eq_true (h.running hp)
  rw [view, hget]
  exact congrArg some (Prod.ext rfl hrunning)

theorem view_other (h : OnlyGroup m groupID address) {g : Nat} (hg : g ≠ groupID) (id : Nat) :
    view m g id = (none, none) := by
  have hnone := h.other g id hg
  simp only [view, PeerManager.getPeer, PeerManager.resolvePeerAddress, hnone]
  rfl

end OnlyGroup

/-- When a group installs a snapshot, the others keep their peers and the group gets the members of
the restored store, exactly if the others had no peers. -/
theorem applySnapshot_isolated_iff {r r' : Replica} {m m' : PeerManager} {snap : Snapshot}
    {saved : Cluster.Saved} (hsnap : ¬ isEmptySnap snap)
    (happly : r.applySnapshot m snap saved = .ok (r', m')) :
    ((∀ h, h ≠ r'.cluster.groupID → ∀ id, view m' h id = view m h id) ∧
      ∀ id, (view m' r'.cluster.groupID id).1 = addressIn r'.cluster r'.cluster.peers id ∧
        ((addressIn r'.cluster r'.cluster.peers id).isSome →
          ∃ p, (view m' r'.cluster.groupID id).2 = some (p, true))) ↔
      ∀ h, h ≠ r'.cluster.groupID → ∀ id, m.addresses.lookup ⟨h, id⟩ = none := by
  unfold Replica.applySnapshot at happly
  rw [if_neg hsnap] at happly
  split at happly
  · cases happly
  · cases happly
    have hreset := OnlyGroup.resetPeers m (r.cluster.restore saved)
    constructor
    · rintro ⟨hothers, -⟩ h hh id
      have hview := hothers h hh id
      rw [hreset.view_other hh] at hview
      exact (congrArg Prod.fst hview).symm
    · intro hnone
      refine ⟨fun h hh id => ?_, hreset.view_eq⟩
      rw [hreset.view_other hh]
      simp only [view, PeerManager.getPeer, PeerManager.resolvePeerAddress, hnone h hh id]
      rfl

def smallReplica : Replica := ⟨⟨9, 1, 1, ⟨∅, ∅⟩⟩, ⟨0, 0, 0, .empty⟩⟩

def smallSaved : Cluster.Saved :=
  ⟨9, 1, ⟨((∅ : Finmap fun _ : Nat => Peer).insert 1 ⟨⟨1, "a:1", false, 1⟩, []⟩).insert 2
    ⟨⟨2, "b:1", false, 2⟩, []⟩, ∅⟩⟩

def installed : Snapshot := ⟨[], ⟨.empty, 5, 1⟩⟩

/-- Group 2 has a peer 7; after group 1 has installed a snapshot it is gone, and stopped. -/
theorem other_group_loses_peer :
    ∃ m r' m', PeerManager.newPeerManager.addPeer 2 7 "c:1" = .ok m ∧
      smallReplica.applySnapshot m installed smallSaved = .ok (r', m') ∧
      view m 2 7 = (some "c:1", some (0, true)) ∧ view m' 2 7 = (none, none) ∧
      m'.running 0 = false := by
  refine ⟨_, _, _, rfl, rfl, ?_, ?_, ?_⟩
  all_goals decide +kernel

theorem only_group_gets_members :
    ∃ m m' r', m = transportAddPeer .newPeerManager 1 3 "c:1" ∧
      smallReplica.applySnapshot m installed smallSaved = .ok (r', m') ∧
      (view m' 1 2).1 = some "b:1" := by
  let m := transportAddPeer .newPeerManager 1 3 "c:1"
  have happly : smallReplica.applySnapshot m installed smallSaved =
      .ok (⟨smallReplica.cluster.restore smallSaved, ⟨1, 5, 5, .empty⟩⟩,
        resetPeers m (smallReplica.cluster.restore smallSaved)) := rfl
  have hnone : ∀ h, h ≠ 1 → ∀ id, m.addresses.lookup ⟨h, id⟩ = none := by
    intro h hh id
    exact ((OnlyGroup.removeAllPeers .newPeerManager 1).addPeer 3 "c:1").other h id hh
  obtain ⟨-, hmembers⟩ := (applySnapshot_isolated_iff (by decide) happly).mpr hnone
  refine ⟨m, _, _, rfl, happly, (hmembers 2).1.trans ?_⟩
  decide +kernel

end Babuza.Experimental
