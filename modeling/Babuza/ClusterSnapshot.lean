import Babuza.Cluster
import Babuza.Lib.Reader
import Mathlib.Data.Fintype.EquivFin

/-!
# Snapshots of the cluster

`Cluster.Snapshot` writes a version, the ids, and the store in the encoding of the generated code;
`Cluster.Restore` reads them (`pkg/cluster/cluster.go`). For the store there is one call of `Read`,
and an error of it ends `Restore` without an error. The generated code makes a map at its first
entry, and `Restore` makes up for it for the removed ids only. So what comes back depends on the
pieces in which the reader delivers, and a failure can change the ids (`cluster_restored_iff`).
-/

namespace Babuza

open Lib

/-! ## The model -/

structure StoreCodec where
  marshal : Store → Bytes
  unmarshal : Bytes → Option Store

/-- A cluster in memory. The map of the peers may be nil, and has no entries then. -/
structure ClusterMemory where
  cluster : Cluster
  nilPeers : Bool
  peers_eq_empty : nilPeers = true → cluster.store.peers = ∅

inductive ClusterPanic
  | nilMap
  | makeslice
  deriving DecidableEq

inductive ClusterRestoreError
  | read (e : ReadFailure)
  | mismatchVersion (version : Nat)
  | unmarshal
  deriving DecidableEq

inductive ClusterOp
  | add (peer : RaftPeerAttribute)
  | update (peerID : Nat) (peer : RaftPeerAttribute)
  | updateAppServiceAddresses (peerID : Nat) (addresses : List String)
  | remove (peerID : Nat)
  | promote (peerID : Nat)

namespace Cluster

def exec (c : Cluster) : ClusterOp → Except ClusterError Cluster
  | .add peer => c.add peer
  | .update peerID peer => c.update peerID peer
  | .updateAppServiceAddresses peerID addresses => c.updateAppServiceAddresses peerID addresses
  | .remove peerID => c.remove peerID
  | .promote peerID => c.promote peerID

def calls (c : Cluster) : List ClusterOp → Cluster × List (Option ClusterError)
  | [] => (c, [])
  | op :: ops => match c.exec op with
    | .error e => ((c.calls ops).1, some e :: (c.calls ops).2)
    | .ok c => ((c.calls ops).1, none :: (c.calls ops).2)

/-- `Cluster.Snapshot`. -/
def snapshotBytes (codec : StoreCodec) (c : Cluster) : Bytes :=
  leBytes 8 1 ++ leBytes 8 c.clusterID ++ leBytes 8 c.groupID ++
    leBytes 8 (codec.marshal c.store).length ++ codec.marshal c.store

end Cluster

namespace ClusterMemory

/-- One operation. Only `Add` finds something to write if there are no peers. -/
def call (g : ClusterMemory) (op : ClusterOp) :
    Except ClusterPanic (ClusterMemory × Option ClusterError) :=
  match g.cluster.exec op with
  | .error e => .ok (g, some e)
  | .ok c => if g.nilPeers then .error .nilMap else .ok (⟨c, false, nofun⟩, none)

def calls (g : ClusterMemory) :
    List ClusterOp → Except ClusterPanic (ClusterMemory × List (Option ClusterError))
  | [] => .ok (g, [])
  | op :: ops => do
    let (g, answer) ← g.call op
    let (g, answers) ← g.calls ops
    .ok (g, answer :: answers)

def setClusterID (g : ClusterMemory) (clusterID : Nat) : ClusterMemory :=
  { g with cluster := { g.cluster with clusterID := clusterID } }

def setGroupID (g : ClusterMemory) (groupID : Nat) : ClusterMemory :=
  { g with cluster := { g.cluster with groupID := groupID } }

def setStore (g : ClusterMemory) (store : Store) : ClusterMemory where
  cluster := { g.cluster with store := store }
  nilPeers := store.peers = ∅
  peers_eq_empty := of_decide_eq_true

/-- `Cluster.Restore`. `maxAlloc` is the longest slice that can be made. -/
def restore (codec : StoreCodec) (maxAlloc : Nat) (g : ClusterMemory) (r : Reader) :
    Except ClusterPanic (ClusterMemory × Option ClusterRestoreError) :=
  match r.readUint64 with
  | .error e => .ok (g, some (.read e))
  | .ok (ver, r) =>
    if ver ≠ 1 then .ok (g, some (.mismatchVersion ver))
    else match r.readUint64 with
      -- `FileReadUint64` returns 0 with the error
      | .error e => .ok (g.setClusterID 0, some (.read e))
      | .ok (clusterID, r) => match r.readUint64 with
        | .error e => .ok (g.setClusterID clusterID, some (.read e))
        | .ok (groupID, r) => match r.readUint64 with
          | .error e => .ok ((g.setClusterID clusterID).setGroupID groupID, some (.read e))
          | .ok (dataSize, r) =>
            if maxAlloc < dataSize then .error .makeslice
            else match r.read dataSize with
              | (_, some _, _) => .ok ((g.setClusterID clusterID).setGroupID groupID, none)
              | (data, none, _) =>
                match codec.unmarshal (data ++ zeros (dataSize - data.length)) with
                | none => .ok ((g.setClusterID clusterID).setGroupID groupID, some .unmarshal)
                | some store =>
                  .ok (((g.setClusterID clusterID).setGroupID groupID).setStore store, none)

/-- Every sequence of operations does to the cluster in memory what it does to `c`. -/
def Behaves (g : ClusterMemory) (c : Cluster) : Prop :=
  ∀ ops, (g.calls ops).map (fun done => (done.1.cluster, done.2)) = .ok (c.calls ops)

end ClusterMemory

/-- What the bytes stand for, if they can be read and decoded. -/
def decodeSaved (codec : StoreCodec) (bytes : Bytes) : Option Cluster.Saved :=
  match readUint64 bytes with
  | .error _ => none
  | .ok (ver, bytes) =>
    if ver ≠ 1 then none
    else match readUint64 bytes with
      | .error _ => none
      | .ok (clusterID, bytes) => match readUint64 bytes with
        | .error _ => none
        | .ok (groupID, bytes) => match readUint64 bytes with
          | .error _ => none
          | .ok (dataSize, bytes) =>
            if dataSize ≤ bytes.length then
              (codec.unmarshal (bytes.take dataSize)).map fun store => ⟨clusterID, groupID, store⟩
            else none

variable {codec : StoreCodec} {r : Reader}

variable {c : Cluster}

namespace ClusterMemory

variable {g : ClusterMemory}

theorem calls_of_not_nil (h : g.nilPeers = false) (ops : List ClusterOp) :
    ∃ g', g.calls ops = .ok (g', (g.cluster.calls ops).2) ∧
      g'.cluster = (g.cluster.calls ops).1 := by
  induction ops generalizing g with
  | nil => exact ⟨g, rfl, rfl⟩
  | cons op ops ih =>
    cases hop : g.cluster.exec op with
    | error e =>
      obtain ⟨g', hg', hcluster⟩ := ih h
      refine ⟨g', ?_, ?_⟩
      · simp only [calls, call, Cluster.calls, hop, ok_bind, hg']
      · simp only [Cluster.calls, hop, hcluster]
    | ok c =>
      have hmade : (⟨c, false, nofun⟩ : ClusterMemory).nilPeers = false := rfl
      obtain ⟨g', hg', hcluster⟩ := ih hmade
      refine ⟨g', ?_, ?_⟩
      · simp only [calls, call, Cluster.calls, hop, h, Bool.false_eq_true, if_false, ok_bind, hg']
      · simp only [Cluster.calls, hop, hcluster]

theorem exists_add_ok (h : c.store.peers = ∅) : ∃ peer c', c.add peer = .ok c' := by
  obtain ⟨id, hid⟩ := Infinite.exists_notMem_finset c.store.removedIds.keys
  refine ⟨⟨id, "", false, 0⟩, c.setPeer id ⟨⟨id, "", false, 0⟩, []⟩, ?_⟩
  rw [Finmap.mem_keys] at hid
  simp [Cluster.add, h, hid, Finmap.notMem_empty]

theorem behaves_iff : g.Behaves c ↔ g.cluster = c ∧ g.nilPeers = false := by
  constructor
  · intro h
    have hsame : g.cluster = c := congrArg Prod.fst (Except.ok.inj (h []))
    refine ⟨hsame, ?_⟩
    cases hnil : g.nilPeers with
    | false => rfl
    | true =>
      obtain ⟨peer, c', hadd⟩ := exists_add_ok (g.peers_eq_empty hnil)
      have hpanic : g.calls [.add peer] = .error .nilMap := by
        simp only [calls, call, Cluster.exec, hadd, hnil, if_true]
        rfl
      have hcall := h [.add peer]
      rw [hpanic] at hcall
      cases hcall
  · rintro ⟨rfl, hnil⟩ ops
    obtain ⟨g', hg', hcluster⟩ := calls_of_not_nil hnil ops
    rw [hg', Except.map, hcluster]

/-! ## `Restore` -/

/-- The reader when the version, the ids and the length have been read. -/
def afterHeader (r : Reader) : Reader := (((r.skip 8).skip 8).skip 8).skip 8

/-- The one call of `Read` for the store of `c`. If it reports the end, the store stays what it was.
Otherwise the bytes that it did not fill are zero. -/
def ReadsStore (codec : StoreCodec) (g : ClusterMemory) (c : Cluster) (r : Reader) : Prop :=
  match (afterHeader r).read (codec.marshal c.store).length with
  | (_, some _, _) => g.cluster.store = c.store ∧ g.nilPeers = false
  | (data, none, _) =>
    codec.unmarshal (data ++ zeros ((codec.marshal c.store).length - data.length)) = some c.store ∧
      c.store.peers ≠ ∅

/-- `Restore` fails before it sets an id, or sets the ids to what they are. If it gets to the store,
`Read` reports nothing and what it gives cannot be decoded. -/
def Unharmed (codec : StoreCodec) (maxAlloc : Nat) (g : ClusterMemory) (r : Reader) : Prop :=
  match readUint64 r.bytes with
  | .error _ => True
  | .ok (ver, bytes) => ver = 1 →
    match readUint64 bytes with
    | .error _ => g.cluster.clusterID = 0
    | .ok (clusterID, bytes) => g.cluster.clusterID = clusterID ∧
      match readUint64 bytes with
      | .error _ => True
      | .ok (groupID, bytes) => g.cluster.groupID = groupID ∧
        match readUint64 bytes with
        | .error _ => True
        | .ok (dataSize, _) => dataSize ≤ maxAlloc ∧
          match (afterHeader r).read dataSize with
          | (_, some _, _) => False
          | (data, none, _) => codec.unmarshal (data ++ zeros (dataSize - data.length)) = none

variable {clusterID maxAlloc : Nat}

theorem setClusterID_eq_iff : g.setClusterID clusterID = g ↔ g.cluster.clusterID = clusterID := by
  obtain ⟨⟨id, groupID, localPeerID, store⟩, nilPeers, h⟩ := g
  simp [setClusterID, eq_comm]

theorem setIDs_eq_iff {groupID : Nat} :
    (g.setClusterID clusterID).setGroupID groupID = g ↔
      g.cluster.clusterID = clusterID ∧ g.cluster.groupID = groupID := by
  obtain ⟨⟨id, group, localPeerID, store⟩, nilPeers, h⟩ := g
  simp [setClusterID, setGroupID, eq_comm]

theorem exists_error_iff :
    (∃ e, g.restore codec maxAlloc r = .ok (g, some e)) ↔ g.Unharmed codec maxAlloc r := by
  rw [restore, Unharmed]
  rcases r.readUint64_cases with ⟨ver, hver, hr⟩ | ⟨e, e', he, hr⟩
  swap
  · simp [he, hr]
  simp only [hver, hr]
  by_cases hone : ver = 1
  swap
  · simp [hone]
  simp only [hone, ne_eq, not_true_eq_false, if_false, forall_const]
  rcases (r.skip 8).readUint64_cases with ⟨clusterID, hid, hr₁⟩ | ⟨e, e', he, hr₁⟩
  swap
  · simp [he, hr₁, setClusterID_eq_iff]
  simp only [hid, hr₁]
  rcases ((r.skip 8).skip 8).readUint64_cases with ⟨groupID, hgroup, hr₂⟩ | ⟨e, e', he, hr₂⟩
  swap
  · simp [he, hr₂, setClusterID_eq_iff]
  simp only [hgroup, hr₂]
  rcases (((r.skip 8).skip 8).skip 8).readUint64_cases with
    ⟨dataSize, hsize, hr₃⟩ | ⟨e, e', he, hr₃⟩
  swap
  · simp [he, hr₃, setIDs_eq_iff]
  simp only [hsize, hr₃, afterHeader]
  by_cases halloc : maxAlloc < dataSize
  · simp [halloc]
  rw [if_neg halloc, and_iff_right (not_lt.mp halloc)]
  split
  · simp
  · split
    next hdata => simp [setIDs_eq_iff, hdata]
    next store hdata => simp [hdata]

theorem restored_iff (hid : c.clusterID < 2 ^ 64) (hgroup : c.groupID < 2 ^ 64)
    (hlength : (codec.marshal c.store).length < 2 ^ 64)
    (halloc : (codec.marshal c.store).length ≤ maxAlloc)
    (hbytes : r.bytes = c.snapshotBytes codec) :
    (∃ g', g.restore codec maxAlloc r = .ok (g', none) ∧
      g'.Behaves (g.cluster.restore c.snapshot)) ↔
      g.ReadsStore codec c r := by
  obtain ⟨hr, hbytes⟩ := Reader.readUint64_of_bytes (by omega) hbytes
  obtain ⟨hr₁, hbytes⟩ := Reader.readUint64_of_bytes hid hbytes
  obtain ⟨hr₂, hbytes⟩ := Reader.readUint64_of_bytes hgroup hbytes
  obtain ⟨hr₃, -⟩ := Reader.readUint64_of_bytes hlength hbytes
  simp only [restore, hr, hr₁, hr₂, hr₃, ne_eq, not_true_eq_false, if_false,
    if_neg (not_lt.mpr halloc)]
  rw [ReadsStore, afterHeader]
  split
  · -- `Restore` returns without an error, and the store is the old one
    simp only [Except.ok.injEq, Prod.mk.injEq, and_true, exists_eq_left', behaves_iff,
      Cluster.restore, Cluster.snapshot, setClusterID, setGroupID, Cluster.mk.injEq, true_and]
  · split
    next hdata => simp [hdata]
    next store hdata =>
      simp only [Except.ok.injEq, Prod.mk.injEq, and_true, exists_eq_left', behaves_iff,
        Cluster.restore, Cluster.snapshot, setStore, setClusterID, setGroupID, Cluster.mk.injEq,
        true_and, hdata, Option.some.injEq, decide_eq_false_iff_not]
      constructor
      all_goals
        rintro ⟨rfl, hpeers⟩
        exact ⟨rfl, hpeers⟩

end ClusterMemory

theorem readsStore_of_whole (g : ClusterMemory)
    (hcodec : codec.unmarshal (codec.marshal c.store) = some c.store) (hpeers : c.store.peers ≠ ∅)
    (hdata : ((ClusterMemory.afterHeader r).read (codec.marshal c.store).length).1 =
      codec.marshal c.store)
    (hend : ((ClusterMemory.afterHeader r).read (codec.marshal c.store).length).2.1 = none) :
    g.ReadsStore codec c r := by
  rw [ClusterMemory.ReadsStore]
  split
  next heq =>
    rw [heq] at hend
    cases hend
  next heq =>
    rw [heq] at hdata
    dsimp only at hdata
    rw [hdata, Nat.sub_self, zeros_zero, List.append_nil]
    exact ⟨hcodec, hpeers⟩

/-- `Restore` gives back what `Snapshot` has written, and fails without a trace if the data cannot
be read or decoded, exactly if the one call of `Read` fills the store and there is a peer, or the
failure finds the ids that are there already. -/
theorem cluster_restored_iff (codec : StoreCodec) (maxAlloc : Nat) (c : Cluster) (g : ClusterMemory)
    (r : Reader) (hid : c.clusterID < 2 ^ 64) (hgroup : c.groupID < 2 ^ 64)
    (hlength : (codec.marshal c.store).length < 2 ^ 64)
    (halloc : (codec.marshal c.store).length ≤ maxAlloc) :
    ((r.bytes = c.snapshotBytes codec →
        ∃ g', g.restore codec maxAlloc r = .ok (g', none) ∧
          g'.Behaves (g.cluster.restore c.snapshot)) ∧
      (decodeSaved codec r.bytes = none → ∃ e, g.restore codec maxAlloc r = .ok (g, some e))) ↔
    (r.bytes = c.snapshotBytes codec → g.ReadsStore codec c r) ∧
      (decodeSaved codec r.bytes = none → g.Unharmed codec maxAlloc r) := by
  refine and_congr (forall_congr' fun hbytes => ?_) (forall_congr' fun _ => ?_)
  · exact ClusterMemory.restored_iff hid hgroup hlength halloc hbytes
  · exact ClusterMemory.exists_error_iff

def examplePeers : Cluster := ⟨7, 0, 1, ⟨Finmap.singleton 1 ⟨⟨1, "a", false, 0⟩, []⟩, ∅⟩⟩

def exampleRemoved : Cluster := ⟨7, 0, 1, ⟨∅, Finmap.singleton 1 true⟩⟩

def exampleCodec : StoreCodec where
  marshal store := if store.peers = ∅ then [2] else [10, 20, 30]
  unmarshal bytes :=
    if bytes = [2] then some exampleRemoved.store
    else if bytes = [10, 20, 30] then some examplePeers.store
    else none

/-- A reader that delivers the bytes in two pieces, the second one from `n` on. -/
def exampleReader (bytes : Bytes) (n : Nat)
    (h : ∀ piece ∈ [bytes.take n, bytes.drop n], piece ≠ []) : Reader :=
  ⟨[bytes.take n, bytes.drop n], h, .eof, false, false⟩

def exampleTarget : ClusterMemory := ⟨.newCluster, false, nofun⟩

/-- If the second piece starts within the store, `Restore` fails and has changed the id. If the only
peer has been removed, `Add` panics after `Restore`. -/
theorem cluster_not_restored :
    (∃ r : Reader, r.bytes = examplePeers.snapshotBytes exampleCodec ∧
      exampleCodec.unmarshal (exampleCodec.marshal examplePeers.store) = some examplePeers.store ∧
      (exampleTarget.restore exampleCodec 100 r).map (fun out => (out.1.cluster.clusterID, out.2)) =
        .ok (7, some .unmarshal)) ∧
    ∃ r : Reader, r.bytes = exampleRemoved.snapshotBytes exampleCodec ∧
      exampleCodec.unmarshal (exampleCodec.marshal exampleRemoved.store) =
        some exampleRemoved.store ∧
      ((exampleTarget.restore exampleCodec 100 r).bind fun out =>
        (out.1.call (.add ⟨2, "b", false, 0⟩)).map Prod.snd) = .error .nilMap := by
  refine ⟨⟨exampleReader (examplePeers.snapshotBytes exampleCodec) 33 ?_, ?_, ?_, ?_⟩,
    ⟨exampleReader (exampleRemoved.snapshotBytes exampleCodec) 32 ?_, ?_, ?_, ?_⟩⟩
  all_goals decide +kernel

def exampleWhole : Reader :=
  exampleReader (examplePeers.snapshotBytes exampleCodec) 32 (by decide +kernel)

theorem cluster_restored :
    ∃ g' : ClusterMemory, exampleWhole.bytes = examplePeers.snapshotBytes exampleCodec ∧
      exampleTarget.restore exampleCodec 100 exampleWhole = .ok (g', none) ∧
      g'.Behaves (exampleTarget.cluster.restore examplePeers.snapshot) := by
  have hbytes : exampleWhole.bytes = examplePeers.snapshotBytes exampleCodec := by decide +kernel
  have hdecodes : decodeSaved exampleCodec exampleWhole.bytes ≠ none := by decide +kernel
  have hreads : exampleTarget.ReadsStore exampleCodec examplePeers exampleWhole :=
    readsStore_of_whole exampleTarget (by decide +kernel) (by decide +kernel) (by decide +kernel)
      (by decide +kernel)
  obtain ⟨g', hg'⟩ :=
    ((cluster_restored_iff exampleCodec 100 examplePeers exampleTarget exampleWhole
    (by decide) (by decide) (by decide +kernel) (by decide +kernel)).mpr
    ⟨fun _ => hreads, fun hnone => absurd hnone hdecodes⟩).1 hbytes
  exact ⟨g', hbytes, hg'⟩

end Babuza
