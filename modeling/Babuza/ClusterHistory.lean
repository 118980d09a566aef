import Babuza.ClusterSnapshot

/-!
# The membership store over its history

`Add` looks at the ids that are there, at those that were removed and at the addresses. `Update`
writes an address too, under the id in the request, and looks at none of these. `Restore` takes over
what its one `Read` gives.
-/

namespace Babuza

open Lib

/-- The calls on the store. `Snapshot` only reads it. -/
inductive StoreCall
  | call (op : ClusterOp)
  | snapshot
  | restore (r : Reader)

structure StoreHistory where
  memory : ClusterMemory
  removed : Finset Nat

/-- No address is there twice, and every peer stands under its own id. -/
structure SoundPeers (peers : Finmap fun _ : Nat => Peer) : Prop where
  addresses : ∀ {id id' p p'}, peers.lookup id = some p → peers.lookup id' = some p' →
    p.raftPeerAttr.raftListenAddr = p'.raftPeerAttr.raftListenAddr → id = id'
  keys : ∀ {id p}, peers.lookup id = some p → p.raftPeerAttr.peerID = id

def FreeBut (peers : Finmap fun _ : Nat => Peer) (id : Nat) (address : String) : Prop :=
  ∀ k ∈ peers.keys, k ≠ id → ∀ p ∈ peers.lookup k, p.raftPeerAttr.raftListenAddr ≠ address

instance (peers : Finmap fun _ : Nat => Peer) (id : Nat) (address : String) :
    Decidable (FreeBut peers id address) :=
  inferInstanceAs (Decidable (∀ k ∈ peers.keys, _))

theorem soundPeers_iff {peers : Finmap fun _ : Nat => Peer} :
    SoundPeers peers ↔ ∀ id ∈ peers.keys, ∀ p ∈ peers.lookup id,
      p.raftPeerAttr.peerID = id ∧ FreeBut peers id p.raftPeerAttr.raftListenAddr := by
  constructor
  · intro h id _ p hp
    exact ⟨h.keys hp, fun k _ hne q hq heq => hne (h.addresses hq hp heq)⟩
  · intro h
    have hmem : ∀ {id p}, peers.lookup id = some p → id ∈ peers.keys := fun hp =>
      Finmap.mem_keys.mpr (Finmap.mem_of_lookup_eq_some hp)
    refine ⟨fun {id id' p p'} hp hp' heq => ?_, fun hp => (h _ (hmem hp) _ hp).1⟩
    by_contra hne
    exact (h id' (hmem hp') p' hp').2 id (hmem hp) hne p hp heq

instance (peers : Finmap fun _ : Nat => Peer) : Decidable (SoundPeers peers) :=
  decidable_of_iff _ soundPeers_iff.symm

/-- The store that `Restore` decodes, if it gets that far. -/
def restoredStore (codec : StoreCodec) (maxAlloc : Nat) (r : Reader) : Option Store := do
  let (ver, r) ← r.readUint64.toOption
  guard (ver = 1)
  let (_, r) ← r.readUint64.toOption
  let (_, r) ← r.readUint64.toOption
  let (dataSize, r) ← r.readUint64.toOption
  guard (dataSize ≤ maxAlloc)
  match r.read dataSize with
  | (_, some _, _) => none
  | (data, none, _) => codec.unmarshal (data ++ zeros (dataSize - data.length))

theorem restore_store {codec : StoreCodec} {maxAlloc : Nat} {g g' : ClusterMemory} {r : Reader}
    {e : Option ClusterRestoreError} (h : g.restore codec maxAlloc r = .ok (g', e)) :
    g'.cluster.store = (restoredStore codec maxAlloc r).getD g.cluster.store := by
  revert h
  rw [ClusterMemory.restore, restoredStore]
  -- the steps of `Restore` that fail leave the store as it is
  rcases r.readUint64 with _ | ⟨ver, r⟩
  · rintro ⟨⟩
    rfl
  by_cases hone : ver = 1
  swap
  · simp only [hone, ne_eq, not_false_eq_true, if_true]
    rintro ⟨⟩
    simp [Except.toOption, hone]
  simp only [hone, ne_eq, not_true_eq_false, if_false, Except.toOption, Option.bind_eq_bind,
    Option.bind_some, guard_true, Option.pure_def]
  rcases r.readUint64 with _ | ⟨clusterID, r⟩
  · rintro ⟨⟩
    rfl
  simp only [Option.bind_some]
  rcases r.readUint64 with _ | ⟨groupID, r⟩
  · rintro ⟨⟩
    rfl
  simp only [Option.bind_some]
  rcases r.readUint64 with _ | ⟨dataSize, r⟩
  · rintro ⟨⟩
    rfl
  simp only [Option.bind_some]
  by_cases halloc : maxAlloc < dataSize
  · rw [if_pos halloc]
    rintro ⟨⟩
  rw [if_neg halloc]
  simp only [not_lt.mp halloc, guard_true, Option.pure_def, Option.bind_some]
  rcases r.read dataSize with ⟨data, _ | end_, r⟩
  · dsimp only
    cases codec.unmarshal (data ++ zeros (dataSize - data.length)) with
    | none =>
      rintro ⟨⟩
      rfl
    | some store =>
      rintro ⟨⟩
      rfl
  · rintro ⟨⟩
    rfl

namespace StoreHistory

section Model

variable (codec : StoreCodec) (maxAlloc : Nat)

theorem newCluster_peers (_ : false = true) : Cluster.newCluster.store.peers = ∅ := rfl

def create : StoreHistory := ⟨⟨.newCluster, false, newCluster_peers⟩, ∅⟩

def peers (s : StoreHistory) : Finmap fun _ : Nat => Peer := s.memory.cluster.store.peers

def step (s : StoreHistory) : StoreCall → Except ClusterPanic StoreHistory
  | .call op => do
    let (memory, err) ← s.memory.call op
    return ⟨memory, match op, err with
      | .remove peerID, none => insert peerID s.removed
      | _, _ => s.removed⟩
  | .snapshot => .ok s
  | .restore r => do
    let (memory, _) ← s.memory.restore codec maxAlloc r
    return { s with memory := memory }

structure Consistent (s : StoreHistory) : Prop where
  sound : SoundPeers s.peers
  removed : ∀ id ∈ s.removed, id ∉ s.peers

/-- An update of a peer keeps its id and takes no other peer's address. A removed id that is added
is still known as such, or its address is not free. A store that is restored is sound and has none
of the removed ids. -/
def Careful (s : StoreHistory) : StoreCall → Prop
  | .call (.update peerID peer) => peerID ∈ s.peers →
    peer.peerID = peerID ∧ FreeBut s.peers peerID peer.raftListenAddr
  | .call (.add peer) => peer.peerID ∈ s.removed →
    peer.peerID ∈ s.memory.cluster.store.removedIds ∨
      ¬ FreeBut s.peers peer.peerID peer.raftListenAddr
  | .restore r => ∀ store ∈ restoredStore codec maxAlloc r,
    SoundPeers store.peers ∧ ∀ id ∈ s.removed, id ∉ store.peers
  | _ => True

instance (s : StoreHistory) (call : StoreCall) : Decidable (s.Careful codec maxAlloc call) := by
  unfold Careful
  split <;> infer_instance

end Model

end StoreHistory

theorem lookup_insert_eq (peers : Finmap fun _ : Nat => Peer) (id k : Nat) (p : Peer) :
    (peers.insert id p).lookup k = if k = id then some p else peers.lookup k := by
  by_cases heq : k = id
  · rw [heq, if_pos rfl, Finmap.lookup_insert]
  · rw [if_neg heq, Finmap.lookup_insert_of_ne _ heq]

theorem SoundPeers.insert_iff {peers : Finmap fun _ : Nat => Peer} (h : SoundPeers peers) {id : Nat}
    {p : Peer} :
    SoundPeers (peers.insert id p) ↔
      p.raftPeerAttr.peerID = id ∧ FreeBut peers id p.raftPeerAttr.raftListenAddr := by
  constructor
  · intro hnew
    refine ⟨hnew.keys (Finmap.lookup_insert _), fun k _ hne q hq heq => hne ?_⟩
    refine hnew.addresses ?_ (Finmap.lookup_insert _) heq
    rw [lookup_insert_eq, if_neg hne, hq]
  · rintro ⟨hkey, hfree⟩
    have hother : ∀ {k q}, k ≠ id → peers.lookup k = some q →
        q.raftPeerAttr.raftListenAddr ≠ p.raftPeerAttr.raftListenAddr := fun hne hq =>
      hfree _ (Finmap.mem_keys.mpr (Finmap.mem_of_lookup_eq_some hq)) hne _ hq
    constructor
    · intro k k' q q' hq hq' heq
      rw [lookup_insert_eq] at hq hq'
      grind [h.addresses]
    · intro k q hq
      rw [lookup_insert_eq] at hq
      grind [h.keys]

namespace StoreHistory

variable {codec : StoreCodec} {maxAlloc : Nat} {s s' : StoreHistory} {call : StoreCall}

theorem consistent_insert_iff (h : s.Consistent) {memory : ClusterMemory} {id : Nat} {p : Peer}
    (hpeers : memory.cluster.store.peers = s.peers.insert id p) :
    Consistent ⟨memory, s.removed⟩ ↔
      (p.raftPeerAttr.peerID = id ∧ FreeBut s.peers id p.raftPeerAttr.raftListenAddr) ∧
        id ∉ s.removed := by
  rw [← h.sound.insert_iff, ← hpeers]
  constructor
  · intro h'
    refine ⟨h'.sound, fun hid => h'.removed id hid ?_⟩
    rw [peers, hpeers, Finmap.mem_insert]
    exact .inl rfl
  · rintro ⟨hsound, hid⟩
    refine ⟨hsound, fun k hk hmem => ?_⟩
    rw [peers, hpeers, Finmap.mem_insert] at hmem
    rcases hmem with rfl | hmem
    · exact hid hk
    · exact h.removed k hk hmem

theorem consistent_replace (h : s.Consistent) {memory : ClusterMemory} {id : Nat} {p q : Peer}
    (hp : s.peers.lookup id = some p) (hpeers : memory.cluster.store.peers = s.peers.insert id q)
    (hid : q.raftPeerAttr.peerID = p.raftPeerAttr.peerID)
    (haddr : q.raftPeerAttr.raftListenAddr = p.raftPeerAttr.raftListenAddr) :
    Consistent ⟨memory, s.removed⟩ := by
  refine (consistent_insert_iff h hpeers).mpr ⟨⟨hid.trans (h.sound.keys hp), ?_⟩,
    fun hremoved => ?_⟩
  · intro k _ hne r hr heq
    exact hne (h.sound.addresses hr hp (heq.trans haddr))
  · exact h.removed id hremoved (Finmap.mem_of_lookup_eq_some hp)

theorem taken_iff {peers : Finmap fun _ : Nat => Peer} {peer : RaftPeerAttribute}
    (h : peer.peerID ∉ peers) :
    (∃ id ∈ peers.keys, (peers.lookup id).any fun p =>
      p.raftPeerAttr.raftListenAddr == peer.raftListenAddr) ↔
      ¬ FreeBut peers peer.peerID peer.raftListenAddr := by
  constructor
  · rintro ⟨k, hk, hany⟩ hfree
    obtain ⟨p, hp⟩ := Finmap.mem_iff.mp (Finmap.mem_keys.mp hk)
    have hne : k ≠ peer.peerID := fun heq => h (heq ▸ Finmap.mem_keys.mp hk)
    simp only [hp, Option.any_some, beq_iff_eq] at hany
    exact hfree k hk hne p hp hany
  · intro hnot
    by_contra hall
    refine hnot fun k hk _ p hp heq => hall ⟨k, hk, ?_⟩
    simp [Option.mem_def.mp hp, heq]

theorem call_cases {g g' : ClusterMemory} {op : ClusterOp} {err : Option ClusterError}
    (h : g.call op = .ok (g', err)) :
    (g' = g ∧ ∃ e, err = some e ∧ g.cluster.exec op = .error e) ∨
      err = none ∧ g.cluster.exec op = .ok g'.cluster := by
  unfold ClusterMemory.call at h
  split at h
  next e he =>
    cases h
    exact .inl ⟨rfl, e, rfl, he⟩
  next c hc =>
    split at h <;> cases h
    exact .inr ⟨rfl, hc⟩

theorem consistent_restore_iff (h : s.Consistent) {r : Reader}
    (hstep : s.step codec maxAlloc (.restore r) = .ok s') :
    s'.Consistent ↔ s.Careful codec maxAlloc (.restore r) := by
  obtain ⟨⟨memory, e⟩, hrestore, hpure⟩ := bind_eq_ok.mp hstep
  cases hpure
  have hstore := restore_store hrestore
  rw [Careful]
  cases hread : restoredStore codec maxAlloc r with
  | none =>
    rw [hread, Option.getD_none] at hstore
    refine iff_of_true ⟨?_, ?_⟩ (by simp)
    · rw [peers, hstore]
      exact h.sound
    · rw [peers, hstore]
      exact h.removed
  | some store =>
    rw [hread, Option.getD_some] at hstore
    simp only [Option.mem_some_iff, forall_eq']
    subst hstore
    exact ⟨fun h' => ⟨h'.sound, h'.removed⟩, fun h' => ⟨h'.1, h'.2⟩⟩

theorem careful_of_refused (h : s.Consistent) {op : ClusterOp} {e : ClusterError}
    (herror : s.memory.cluster.exec op = .error e) : s.Careful codec maxAlloc (.call op) := by
  cases op with
  | add peer =>
    intro hid
    have hnot : peer.peerID ∉ s.memory.cluster.store.peers := h.removed _ hid
    by_contra hcareful
    obtain ⟨hknown, hfree⟩ := not_or.mp hcareful
    rw [Cluster.exec, Cluster.add, if_neg hnot, if_neg hknown,
      if_neg fun htaken => hfree ((taken_iff hnot).mp htaken)] at herror
    cases herror
  | update peerID peer =>
    intro hmem
    obtain ⟨p, hp⟩ := Finmap.mem_iff.mp hmem
    rw [peers] at hp
    rw [Cluster.exec, Cluster.update, hp] at herror
    cases herror
  | updateAppServiceAddresses | remove | promote => trivial

section Accepted

variable (h : s.Consistent) {memory : ClusterMemory} {peer : RaftPeerAttribute} {peerID : Nat}
include h

theorem consistent_add_iff (hok : s.memory.cluster.add peer = .ok memory.cluster) :
    Consistent ⟨memory, s.removed⟩ ↔ s.Careful codec maxAlloc (.call (.add peer)) := by
  rw [Cluster.add] at hok
  split at hok
  · cases hok
  split at hok
  · cases hok
  split at hok
  · cases hok
  rename_i hnot hknown htaken
  have hfree : FreeBut s.peers peer.peerID peer.raftListenAddr :=
    not_not.mp (mt (taken_iff hnot).mpr htaken)
  refine (consistent_insert_iff h (congrArg (·.store.peers) (Except.ok.inj hok)).symm).trans ?_
  simp [Careful, hknown, hfree]

theorem consistent_update_iff (hok : s.memory.cluster.update peerID peer = .ok memory.cluster) :
    Consistent ⟨memory, s.removed⟩ ↔ s.Careful codec maxAlloc (.call (.update peerID peer)) := by
  rw [Cluster.update] at hok
  split at hok
  · cases hok
  next p hp =>
    have hmem : peerID ∈ s.peers := Finmap.mem_of_lookup_eq_some hp
    refine (consistent_insert_iff h (congrArg (·.store.peers) (Except.ok.inj hok)).symm).trans ?_
    simp only [Careful, hmem, true_imp_iff, h.sound.keys hp]
    constructor
    · rintro ⟨⟨rfl, hfree⟩, -⟩
      exact ⟨rfl, hfree⟩
    · rintro ⟨rfl, hfree⟩
      exact ⟨⟨rfl, hfree⟩, fun hid => h.removed _ hid hmem⟩

theorem consistent_remove (hok : s.memory.cluster.remove peerID = .ok memory.cluster) :
    Consistent ⟨memory, insert peerID s.removed⟩ := by
  rw [Cluster.remove] at hok
  split at hok
  next hmem =>
    have hpeers := (congrArg (·.store.peers) (Except.ok.inj hok)).symm
    have hkept : ∀ {k p}, memory.cluster.store.peers.lookup k = some p →
        s.peers.lookup k = some p := by
      intro k p hp
      rw [hpeers] at hp
      by_cases heq : k = peerID
      · rw [heq, Finmap.lookup_erase] at hp
        cases hp
      · rwa [Finmap.lookup_erase_ne heq] at hp
    refine ⟨⟨?_, ?_⟩, ?_⟩
    · exact fun hp hp' => h.sound.addresses (hkept hp) (hkept hp')
    · exact fun hp => h.sound.keys (hkept hp)
    · intro id hid hmem
      rw [peers, hpeers, Finmap.mem_erase] at hmem
      rcases Finset.mem_insert.mp hid with rfl | hid
      · exact hmem.1 rfl
      · exact h.removed id hid hmem.2
  · cases hok

end Accepted

theorem consistent_step_iff (h : s.Consistent) (hstep : s.step codec maxAlloc call = .ok s') :
    s'.Consistent ↔ s.Careful codec maxAlloc call := by
  cases call with
  | snapshot =>
    cases hstep
    exact iff_of_true h trivial
  | restore r => exact consistent_restore_iff h hstep
  | call op =>
    obtain ⟨⟨memory, err⟩, hcall, hpure⟩ := bind_eq_ok.mp hstep
    rcases call_cases hcall with ⟨rfl, e, rfl, herror⟩ | ⟨rfl, hok⟩
    · obtain rfl : s = s' := by
        cases op <;> exact Except.ok.inj hpure
      exact iff_of_true h (careful_of_refused h herror)
    cases op <;> cases hpure
    case add.refl => exact consistent_add_iff h hok
    case update.refl => exact consistent_update_iff h hok
    case remove.refl => exact iff_of_true (consistent_remove h hok) trivial
    case updateAppServiceAddresses.refl =>
      rw [Cluster.exec, Cluster.updateAppServiceAddresses] at hok
      split at hok
      · cases hok
      next p hp =>
        have hpeers := (congrArg (·.store.peers) (Except.ok.inj hok)).symm
        exact iff_of_true (consistent_replace h hp hpeers rfl rfl) trivial
    case promote.refl =>
      rw [Cluster.exec, Cluster.promote] at hok
      split at hok
      · cases hok
      next p hp =>
        split at hok
        · have hpeers := (congrArg (·.store.peers) (Except.ok.inj hok)).symm
          exact iff_of_true (consistent_replace h hp hpeers rfl rfl) trivial
        · cases hok

def movedPeer (address : String) : List StoreCall :=
  [.call (.add ⟨1, "a", false, 0⟩), .call (.add ⟨2, "b", false, 0⟩), .snapshot,
    .call (.update 2 ⟨2, address, false, 0⟩)]

def movedAndRestored : List StoreCall :=
  movedPeer "c" ++ [.restore exampleWhole, .call (.remove 1)]

end StoreHistory

end Babuza
