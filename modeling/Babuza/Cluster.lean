import Babuza.Ibabuza
import Mathlib.Data.Finmap
import Mathlib.Data.List.Sort

/-!
# The members of a cluster

`pkg/cluster`: the store of a cluster's peers, which a node consults before it lets the raft library
change its configuration. The two are separate, and nothing but the order of the calls keeps them in
step. The rules of `go.etcd.io/etcd/raft/v3` for the change of one node are `Configuration.changer`.
-/

namespace Babuza

open Lib List

/-! ## The store -/

/-- Ids in increasing order, by a sort that evaluates. -/
def sortIds (ids : Finset Nat) : List Nat :=
  Quot.liftOn ids.val (List.insertionSort (· ≤ ·)) fun xs ys h => by
    have hperm : (xs.insertionSort (· ≤ ·)).Perm (ys.insertionSort (· ≤ ·)) :=
      (perm_insertionSort _ xs).trans (h.trans (perm_insertionSort _ ys).symm)
    exact hperm.eq_of_pairwise (fun a b _ _ hab hba => Nat.le_antisymm hab hba)
      (pairwise_insertionSort _ xs) (pairwise_insertionSort _ ys)

variable {id : Nat}

theorem mem_sortIds {ids : Finset Nat} : id ∈ sortIds ids ↔ id ∈ ids := by
  obtain ⟨⟨xs⟩, hnodup⟩ := ids
  exact (perm_insertionSort (· ≤ ·) xs).mem_iff

/-- The store of `pkg/cluster/pb`. -/
structure Store where
  peers : Finmap fun _ : Nat => Peer
  removedIds : Finmap fun _ : Nat => Bool
  deriving DecidableEq

structure Cluster where
  clusterID : Nat
  groupID : Nat
  localPeerID : Nat
  store : Store
  deriving DecidableEq

namespace Cluster

def newCluster : Cluster := ⟨0, 0, 0, ⟨∅, ∅⟩⟩

def peers (c : Cluster) : List Peer :=
  (sortIds c.store.peers.keys).filterMap c.store.peers.lookup

def setPeer (c : Cluster) (peerID : Nat) (p : Peer) : Cluster :=
  { c with store := { c.store with peers := c.store.peers.insert peerID p } }

def add (c : Cluster) (peer : RaftPeerAttribute) : Except ClusterError Cluster :=
  if peer.peerID ∈ c.store.peers then .error .peerIDExists
  else if peer.peerID ∈ c.store.removedIds then .error .peerIDRemoved
  else if ∃ id ∈ c.store.peers.keys, (c.store.peers.lookup id).any fun p =>
      p.raftPeerAttr.raftListenAddr == peer.raftListenAddr then
    .error .peerRaftListenAddrExists
  else .ok (c.setPeer peer.peerID ⟨peer, []⟩)

def update (c : Cluster) (peerID : Nat) (peer : RaftPeerAttribute) : Except ClusterError Cluster :=
  match c.store.peers.lookup peerID with
  | none => .error .peerIDNotFound
  | some p => .ok (c.setPeer peer.peerID { p with
      raftPeerAttr := { p.raftPeerAttr with
        raftListenAddr := peer.raftListenAddr
        isLearner := peer.isLearner
        storeID := peer.storeID } })

def updateAppServiceAddresses (c : Cluster) (peerID : Nat) (addresses : List String) :
    Except ClusterError Cluster :=
  match c.store.peers.lookup peerID with
  | none => .error .peerIDNotFound
  | some p => .ok (c.setPeer peerID { p with appServiceAddresses := addresses })

def remove (c : Cluster) (peerID : Nat) : Except ClusterError Cluster :=
  if peerID ∈ c.store.peers then
    .ok { c with store :=
      ⟨c.store.peers.erase peerID, c.store.removedIds.insert peerID true⟩ }
  else .error .peerIDNotFound

def promote (c : Cluster) (peerID : Nat) : Except ClusterError Cluster :=
  match c.store.peers.lookup peerID with
  | none => .error .peerIDNotFound
  | some p =>
    if p.raftPeerAttr.isLearner then
      .ok (c.setPeer peerID { p with raftPeerAttr := { p.raftPeerAttr with isLearner := false } })
    else .error .peerNotLearner

/-- What `Snapshot` writes and `Restore` reads: everything but the local id. -/
structure Saved where
  clusterID : Nat
  groupID : Nat
  store : Store
  deriving DecidableEq

def snapshot (c : Cluster) : Saved := ⟨c.clusterID, c.groupID, c.store⟩

def restore (c : Cluster) (saved : Saved) : Cluster :=
  ⟨saved.clusterID, saved.groupID, c.localPeerID, saved.store⟩

/-- Whether the store has the peer as a learner; `none` if it does not have it. -/
def isLearner? (c : Cluster) (peerID : Nat) : Option Bool :=
  (c.store.peers.lookup peerID).map (·.raftPeerAttr.isLearner)

theorem isLearner?_setPeer (c : Cluster) (peerID k : Nat) (p : Peer) :
    (c.setPeer peerID p).isLearner? k =
      if k = peerID then some p.raftPeerAttr.isLearner else c.isLearner? k := by
  unfold isLearner? setPeer
  by_cases heq : k = peerID
  · rw [heq, if_pos rfl, Finmap.lookup_insert]
    rfl
  · rw [if_neg heq, Finmap.lookup_insert_of_ne _ heq]

/-! ### Stores that differ in the published addresses only -/

/-- What the changes of the configuration write and read of a peer. -/
def attributes (c : Cluster) (peerID : Nat) : Option RaftPeerAttribute :=
  (c.store.peers.lookup peerID).map (·.raftPeerAttr)

structure SameAttributes (c c' : Cluster) : Prop where
  clusterID : c.clusterID = c'.clusterID
  groupID : c.groupID = c'.groupID
  localPeerID : c.localPeerID = c'.localPeerID
  attributes : ∀ id, c.attributes id = c'.attributes id
  removedIds : c.store.removedIds = c'.store.removedIds

namespace SameAttributes

theorem refl (c : Cluster) : c.SameAttributes c := ⟨rfl, rfl, rfl, fun _ => rfl, rfl⟩

theorem symm {c c' : Cluster} (h : c.SameAttributes c') : c'.SameAttributes c :=
  ⟨h.1.symm, h.2.symm, h.3.symm, fun id => (h.4 id).symm, h.5.symm⟩

theorem trans {a b c : Cluster} (h : a.SameAttributes b) (h' : b.SameAttributes c) :
    a.SameAttributes c :=
  ⟨h.1.trans h'.1, h.2.trans h'.2, h.3.trans h'.3, fun id => (h.4 id).trans (h'.4 id),
    h.5.trans h'.5⟩

end SameAttributes

theorem attributes_setPeer (c : Cluster) (peerID k : Nat) (p : Peer) :
    (c.setPeer peerID p).attributes k =
      if k = peerID then some p.raftPeerAttr else c.attributes k := by
  unfold attributes setPeer
  by_cases heq : k = peerID
  · rw [heq, if_pos rfl, Finmap.lookup_insert]
    rfl
  · rw [if_neg heq, Finmap.lookup_insert_of_ne _ heq]

namespace SameAttributes

variable {c c' : Cluster}

section

variable (h : SameAttributes c c')
include h

theorem mem_iff (id : Nat) : id ∈ c.store.peers ↔ id ∈ c'.store.peers := by
  have hattributes := congrArg Option.isSome (h.attributes id)
  simp only [Cluster.attributes, Option.isSome_map] at hattributes
  rw [← Finmap.lookup_isSome, ← Finmap.lookup_isSome, hattributes]

theorem keys_eq : c.store.peers.keys = c'.store.peers.keys := by
  ext id
  rw [Finmap.mem_keys, Finmap.mem_keys]
  exact h.mem_iff id

theorem lookup_eq_none (hnone : c.store.peers.lookup id = none) :
    c'.store.peers.lookup id = none := by
  rw [Finmap.lookup_eq_none] at hnone ⊢
  exact fun hmem => hnone ((h.mem_iff id).mpr hmem)

theorem lookup_eq_some {p : Peer} (hsome : c.store.peers.lookup id = some p) :
    ∃ p', c'.store.peers.lookup id = some p' ∧ p'.raftPeerAttr = p.raftPeerAttr := by
  have hattributes := h.attributes id
  rw [Cluster.attributes, hsome] at hattributes
  exact Option.map_eq_some_iff.mp hattributes.symm

theorem setPeer (id : Nat) {p p' : Peer} (hp : p.raftPeerAttr = p'.raftPeerAttr) :
    SameAttributes (c.setPeer id p) (c'.setPeer id p') := by
  refine ⟨h.clusterID, h.groupID, h.localPeerID, fun k => ?_, h.removedIds⟩
  rw [attributes_setPeer, attributes_setPeer, hp, h.attributes k]

end

theorem updateAppServiceAddresses {addresses : List String}
    (h : c.updateAppServiceAddresses id addresses = .ok c') : SameAttributes c c' := by
  unfold Cluster.updateAppServiceAddresses at h
  split at h <;> cases h
  rename_i p hp
  refine ⟨rfl, rfl, rfl, fun k => ?_, rfl⟩
  rw [attributes_setPeer]
  split
  · rename_i heq
    rw [heq, Cluster.attributes, hp]
    rfl
  · rfl

end SameAttributes

/-- The same error, or stores that differ in the published addresses only. -/
def SameChange : Except ClusterError Cluster → Except ClusterError Cluster → Prop
  | .ok c, .ok c' => SameAttributes c c'
  | .error err, .error err' => err = err'
  | _, _ => False

theorem SameChange.cases {x y : Except ClusterError Cluster} (h : SameChange x y) :
    (∃ err, x = .error err ∧ y = .error err) ∨
      ∃ c c', x = .ok c ∧ y = .ok c' ∧ SameAttributes c c' := by
  cases x with
  | error err =>
    cases y with
    | error err' => exact .inl ⟨err, rfl, congrArg Except.error h.symm⟩
    | ok c' => exact h.elim
  | ok c =>
    cases y with
    | error err' => exact h.elim
    | ok c' => exact .inr ⟨c, c', rfl, rfl, h⟩

namespace SameAttributes

variable {c c' : Cluster} (h : SameAttributes c c')

include h

theorem add (peer : RaftPeerAttribute) : SameChange (c.add peer) (c'.add peer) := by
  have haddress : (∃ id ∈ c.store.peers.keys, (c.store.peers.lookup id).any fun p =>
        p.raftPeerAttr.raftListenAddr == peer.raftListenAddr) ↔
      ∃ id ∈ c'.store.peers.keys, (c'.store.peers.lookup id).any fun p =>
        p.raftPeerAttr.raftListenAddr == peer.raftListenAddr := by
    have hany : ∀ (c : Cluster) (id : Nat), ((c.store.peers.lookup id).any fun p =>
        p.raftPeerAttr.raftListenAddr == peer.raftListenAddr) =
        (c.attributes id).any fun a => a.raftListenAddr == peer.raftListenAddr := by
      intro c id
      rw [Cluster.attributes, Option.any_map]
    simp only [hany, h.keys_eq, h.attributes]
  unfold Cluster.add
  simp only [h.mem_iff, h.removedIds, haddress]
  split
  · rfl
  · split
    · rfl
    · split
      · rfl
      · exact h.setPeer _ rfl

variable (peerID : Nat)

theorem update (peer : RaftPeerAttribute) :
    SameChange (c.update peerID peer) (c'.update peerID peer) := by
  unfold Cluster.update
  cases hp : c.store.peers.lookup peerID with
  | none =>
    rw [h.lookup_eq_none hp]
    rfl
  | some p =>
    obtain ⟨p', hp', heq⟩ := h.lookup_eq_some hp
    rw [hp']
    exact h.setPeer _ (by dsimp only; rw [heq])

theorem remove : SameChange (c.remove peerID) (c'.remove peerID) := by
  unfold Cluster.remove
  simp only [h.mem_iff]
  split
  · refine ⟨h.clusterID, h.groupID, h.localPeerID, fun k => ?_, ?_⟩
    · have hk := h.attributes k
      unfold Cluster.attributes at hk ⊢
      by_cases heq : k = peerID
      · rw [heq, Finmap.lookup_erase, Finmap.lookup_erase]
      · rw [Finmap.lookup_erase_ne heq, Finmap.lookup_erase_ne heq, hk]
    · rw [h.removedIds]
  · rfl

theorem promote : SameChange (c.promote peerID) (c'.promote peerID) := by
  unfold Cluster.promote
  cases hp : c.store.peers.lookup peerID with
  | none =>
    rw [h.lookup_eq_none hp]
    rfl
  | some p =>
    obtain ⟨p', hp', heq⟩ := h.lookup_eq_some hp
    rw [hp']
    dsimp only
    rw [heq]
    split
    · exact h.setPeer _ rfl
    · rfl

theorem restore (saved : Saved) : SameAttributes (c.restore saved) (c'.restore saved) :=
  ⟨rfl, rfl, h.localPeerID, fun _ => rfl, rfl⟩

end SameAttributes

end Cluster

namespace Configuration

def insertId (id : Nat) (ids : List Nat) : List Nat :=
  if id ∈ ids then ids else ids.orderedInsert (· ≤ ·) id

def removeId (id : Nat) (ids : List Nat) : List Nat := ids.filter (· ≠ id)

/-- One change of ordered lists of ids, before its outcome is checked. -/
def change (cfg : Configuration) (type : ConfChangeType) (nodeID : Nat) : Configuration :=
  if nodeID = 0 then cfg
  else match type with
    | .addNode => ⟨insertId nodeID cfg.voters, removeId nodeID cfg.learners⟩
    | .addLearnerNode => ⟨removeId nodeID cfg.voters, insertId nodeID cfg.learners⟩
    | .removeNode => ⟨removeId nodeID cfg.voters, removeId nodeID cfg.learners⟩
    | .updateNode => cfg

theorem mem_insertId {k : Nat} {ids : List Nat} : k ∈ insertId id ids ↔ k = id ∨ k ∈ ids := by
  unfold insertId
  split
  · constructor
    · exact .inr
    · rintro (rfl | h)
      · assumption
      · exact h
  · exact mem_orderedInsert _

theorem mem_removeId {k : Nat} {ids : List Nat} : k ∈ removeId id ids ↔ k ∈ ids ∧ k ≠ id := by
  simp [removeId]

theorem mem_change_of_ne (cfg : Configuration) (type : ConfChangeType) {k : Nat} (hne : k ≠ id) :
    (k ∈ (cfg.change type id).voters ↔ k ∈ cfg.voters) ∧
      (k ∈ (cfg.change type id).learners ↔ k ∈ cfg.learners) := by
  unfold change
  split
  · exact ⟨Iff.rfl, Iff.rfl⟩
  · cases type with
    | updateNode => exact ⟨Iff.rfl, Iff.rfl⟩
    | _ => simp [mem_insertId, mem_removeId, hne]

theorem mem_change_self (cfg : Configuration) {type : ConfChangeType} (hid : id ≠ 0)
    (htype : type ≠ .updateNode) :
    (id ∈ (cfg.change type id).voters ↔ type = .addNode) ∧
      (id ∈ (cfg.change type id).learners ↔ type = .addLearnerNode) := by
  simp only [change, if_neg hid]
  cases type with
  | updateNode => exact absurd rfl htype
  | _ => simp [mem_insertId, mem_removeId]

def changer : ConfChanger where
  applyConfChange cfg type nodeID :=
    if (cfg.change type nodeID).voters = [] then none else some (cfg.change type nodeID)
  refused h := by
    obtain ⟨-, h⟩ := Option.ite_none_left_eq_some.mp h
    exact (Option.some.inj h).symm
  updated h := by
    obtain ⟨-, h⟩ := Option.ite_none_left_eq_some.mp h
    simpa [change, eq_comm] using h
  others h hne := by
    obtain ⟨-, h⟩ := Option.ite_none_left_eq_some.mp h
    cases h
    exact mem_change_of_ne _ _ hne
  changed h hid htype := by
    obtain ⟨-, h⟩ := Option.ite_none_left_eq_some.mp h
    cases h
    exact mem_change_self _ hid htype

end Configuration

end Babuza
