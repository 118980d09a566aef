import Babuza.Lib.Trace
import Babuza.Lib.Log
import Babuza.Raft.ConfChange

/-!
# The Ready loop and the apply loop

The Ready loop hands each batch of committed entries to the apply loop and then makes the changes of
the configuration in it (`raft/raft_ready.go`). The apply loop installs the snapshot of a batch,
applies the normal entries, and creates snapshots (`raft/raft_apply.go`). After the hand-over their
calls on the cluster store, on the peers of the transport and on the `ConfState` may come in any
order.

A list of `Work` is what happens in the order of the log; an `Interleaving` is the same calls with
those of each loop in their order. What the sessions decide about a change (`answers`) is arbitrary.
If no conflicting calls change places, a snapshot holds the changes up to its index
(`contexts_match`), and no change is lost by the installation of a snapshot (`members_match`).
-/

namespace Babuza.Raft

open Lib List

variable {R : Type} (codecs : RequestCodecs) (answers : Nat → Option (ApplyResult R))
  (localID : Nat)

/-- A snapshot that was received, with its cluster file. -/
structure Installed where
  metadata : SnapshotMetadata
  cluster : Cluster.Saved
  deriving DecidableEq

/-- A batch that the Ready loop hands over, or a snapshot that the apply loop creates. -/
inductive Work
  | batch (snapshot : Option Installed) (entries : List Entry)
  | takeSnapshot
  deriving DecidableEq

inductive Call
  | handOver (snapshot : Option Installed)
  | change (e : Entry)
  | applyConfChange
  | changeTransport
  | setConfState
  | receive
  | restoreCluster (snapshot : Installed)
  | removePeers
  | listPeers
  | addPeers
  | setInstalled (metadata : SnapshotMetadata)
  | applyNormal (e : Entry)
  | setApplied (index : Nat)
  | cloneConfState
  | snapshotCluster
  deriving DecidableEq

/-- The calls for an entry: four of the Ready loop, or one of the apply loop. -/
def entryCalls (e : Entry) : List Call :=
  if e.type = .confChange then [.change e, .applyConfChange, .changeTransport, .setConfState]
  else [.applyNormal e]

/-- `applySnapshot`. -/
def installCalls (snapshot : Installed) : List Call :=
  [.restoreCluster snapshot, .removePeers, .listPeers, .addPeers, .setInstalled snapshot.metadata]

def Work.calls : Work → List Call
  | batch snapshot entries =>
    .handOver snapshot :: .receive ::
      (snapshot.toList.flatMap installCalls ++ (entries.flatMap entryCalls ++
        (entries.getLast?.map fun e => Call.setApplied e.index).toList))
  | takeSnapshot => [.cloneConfState, .snapshotCluster]

def Call.byReady : Call → Bool
  | handOver _ | change _ | applyConfChange | changeTransport | setConfState => true
  | _ => false

/-- The calls of each loop are in order, and no batch is received before it is handed over. -/
structure Interleaving (works : List Work) (ys : List (Call × Nat)) : Prop where
  perm : ys.Perm (positions (works.flatMap Work.calls))
  inLoop : InOrder (fun a b => a.byReady = b.byReady) ys
  handedOver : ys.Pairwise fun a b => a.1 = .receive → a.2 ≠ b.2 + 1

/-! ## Their effects -/

/-- How far the Ready loop is with a change: what it has learned of it so far. -/
inductive Progress
  | idle
  | answered (confState : Option ConfState)
  | refused (type : ConfChangeType)
  | accepted (cc : ConfChange) (confReq : ConfChangeRequest)
  | changed (cc : ConfChange) (confReq : ConfChangeRequest) (confState : ConfState)
  deriving DecidableEq

/-- What only the Ready loop uses, with the configuration of the raft library. -/
structure ReadyState where
  configuration : Configuration
  progress : Progress
  stopped : Bool
  panicked : Bool
  deriving DecidableEq

structure SnapshotContext where
  index : Nat
  confState : ConfState
  cluster : Cluster
  deriving DecidableEq

structure ApplyState where
  appliedIndex : Nat
  panicked : Bool
  listed : List (Nat × String)
  noted : Nat × ConfState
  contexts : List SnapshotContext
  deriving DecidableEq

structure LoopState where
  ready : ReadyState
  cluster : Cluster
  transport : Finmap fun _ : Nat => String
  confState : ConfState
  apply : ApplyState
  deriving DecidableEq

/-- The raft library has restored its configuration from the snapshot when the Ready appears. -/
def ReadyState.handOver (r : ReadyState) : Option Installed → ReadyState
  | none => r
  | some snapshot => { r with
      configuration := ⟨snapshot.metadata.confState.voters, snapshot.metadata.confState.learners⟩ }

/-- `ApplyConfChangeEntry` up to `clusterValidateAndApply`. -/
def ReadyState.change (r : ReadyState) (cluster : Cluster) (e : Entry) : ReadyState × Cluster :=
  if r.stopped then (r, cluster)
  else match parseConfChangeEntry codecs e with
    | none => ({ r with panicked := true }, cluster)
    | some (cc, confReq) =>
      match answers e.index with
      | some ar => ({ r with progress := .answered (newConfState ar) }, cluster)
      | none =>
        match clusterValidateAndApply cluster cc.type confReq with
        | .error _ => ({ r with progress := .refused cc.type }, cluster)
        | .ok cluster => ({ r with progress := .accepted cc confReq }, cluster)

/-- The `ApplyConfChange` of the raft library. -/
def ReadyState.applyConfChange (r : ReadyState) : ReadyState :=
  match r.progress with
  | .refused type =>
    match codecs.raft.applyConfChange r.configuration type 0 with
    | none => { r with panicked := true, progress := .idle }
    | some configuration => { r with configuration := configuration, progress := .idle }
  | .accepted cc confReq =>
    match codecs.raft.applyConfChange r.configuration cc.type cc.nodeID with
    | none => { r with panicked := true, progress := .idle }
    | some configuration => { r with
        configuration := configuration
        progress := .changed cc confReq configuration.confState }
  | _ => r

def ReadyState.transport (r : ReadyState) (transport : Finmap fun _ : Nat => String) :
    Finmap fun _ : Nat => String :=
  match r.progress with
  | .changed cc confReq _ => Raft.changeTransport transport localID cc.type confReq
  | _ => transport

/-- The end of a round of `applyConfChangeEntry`: the new `ConfState`, and whether the node itself
was removed. -/
def ReadyState.setConfState (r : ReadyState) (confState : ConfState) : ReadyState × ConfState :=
  match r.progress with
  | .changed cc _ new =>
    ({ r with
      progress := .idle
      stopped := cc.type = .removeNode ∧ cc.nodeID = localID }, new)
  | .answered stored => ({ r with progress := .idle }, stored.getD confState)
  | _ => ({ r with progress := .idle }, confState)

/-- A snapshot must be ahead of what has been applied. -/
def ApplyState.restoreCluster (a : ApplyState) (cluster : Cluster) (snapshot : Installed) :
    ApplyState × Cluster :=
  if snapshot.metadata.index ≤ a.appliedIndex then ({ a with panicked := true }, cluster)
  else (a, cluster.restore snapshot.cluster)

def listedPeers (cluster : Cluster) : List (Nat × String) :=
  cluster.peers.map fun p => (p.raftPeerAttr.peerID, p.raftPeerAttr.raftListenAddr)

/-- The `AddPeer`s of `applySnapshot`. -/
def addListed (transport : Finmap fun _ : Nat => String) (listed : List (Nat × String)) :
    Finmap fun _ : Nat => String :=
  listed.foldl (fun t p => if p.1 = localID ∨ p.1 ∈ t then t else t.insert p.1 p.2) transport

/-- Of the normal entries, those that publish addresses go to the store. -/
def applyNormal (cluster : Cluster) (e : Entry) : Cluster :=
  match codecs.normalRequest e.data with
  | some ⟨_, none, some pub, _⟩ =>
    if e.data ≠ [] ∧ e.type = .normal then (handlePubAppService (R := R) cluster e pub).2
    else cluster
  | _ => cluster

def LoopState.act (s : LoopState) : Call → LoopState
  | .handOver snapshot => { s with ready := s.ready.handOver snapshot }
  | .change e =>
    let (ready, cluster) := s.ready.change codecs answers s.cluster e
    { s with ready := ready, cluster := cluster }
  | .applyConfChange => { s with ready := s.ready.applyConfChange codecs }
  | .changeTransport => { s with transport := s.ready.transport localID s.transport }
  | .setConfState =>
    let (ready, confState) := s.ready.setConfState localID s.confState
    { s with ready := ready, confState := confState }
  | .receive => s
  | .restoreCluster snapshot =>
    let (apply, cluster) := s.apply.restoreCluster s.cluster snapshot
    { s with apply := apply, cluster := cluster }
  | .removePeers => { s with transport := ∅ }
  | .listPeers => { s with apply := { s.apply with listed := listedPeers s.cluster } }
  | .addPeers => { s with transport := addListed localID s.transport s.apply.listed }
  | .setInstalled metadata => { s with
      apply := { s.apply with appliedIndex := metadata.index }
      confState := metadata.confState }
  | .applyNormal e => { s with cluster := applyNormal (R := R) codecs s.cluster e }
  | .setApplied index => { s with apply := { s.apply with appliedIndex := index } }
  | .cloneConfState => { s with
      apply := { s.apply with noted := (s.apply.appliedIndex, s.confState) } }
  | .snapshotCluster => { s with apply := { s.apply with
      contexts := s.apply.contexts ++ [⟨s.apply.noted.1, s.apply.noted.2, s.cluster⟩] } }

/-! ## Calls that do not conflict -/

/-- What a call shares with the other loop. -/
inductive Component
  | cluster
  | transport
  | status
  deriving DecidableEq

def Call.component : Call → Option Component
  | change _ | restoreCluster _ | listPeers | snapshotCluster => some .cluster
  | changeTransport | removePeers | addPeers => some .transport
  | setConfState | setInstalled _ | cloneConfState => some .status
  | _ => none

def Call.notes : Call → Bool
  | cloneConfState | snapshotCluster => true
  | _ => false

/-- Calls of the two loops on the same component, one of which changes it. Whoever does not look at
the snapshots that are created (`notes` is false) need not mind the calls that create them. -/
def Conflict (notes : Bool) (a b : Call) : Prop :=
  a.byReady ≠ b.byReady ∧ a.component = b.component ∧ a.component ≠ none ∧
    (a.notes ∨ b.notes → notes)

instance (notes : Bool) : DecidableRel (Conflict notes) := fun _ _ =>
  inferInstanceAs (Decidable (_ ∧ _ ∧ _ ∧ (_ → _)))

def SnapshotContext.Same (c c' : SnapshotContext) : Prop :=
  c.index = c'.index ∧ c.confState = c'.confState ∧ c.cluster.SameAttributes c'.cluster

/-- States that differ in the published addresses only, and in the snapshots if these are not looked
at. -/
structure LoopState.Sim (notes : Bool) (s t : LoopState) : Prop where
  ready : s.ready = t.ready
  cluster : s.cluster.SameAttributes t.cluster
  transport : s.transport = t.transport
  confState : s.confState = t.confState
  appliedIndex : s.apply.appliedIndex = t.apply.appliedIndex
  panicked : s.apply.panicked = t.apply.panicked
  listed : s.apply.listed = t.apply.listed
  noted : notes → s.apply.noted = t.apply.noted
  contexts : notes → List.Forall₂ SnapshotContext.Same s.apply.contexts t.apply.contexts

theorem SnapshotContext.same_equivalence : Equivalence SnapshotContext.Same where
  refl _ := ⟨rfl, rfl, .refl _⟩
  symm h := ⟨h.1.symm, h.2.1.symm, h.2.2.symm⟩
  trans h h' := ⟨h.1.trans h'.1, h.2.1.trans h'.2.1, h.2.2.trans h'.2.2⟩

variable {cs cs' cs'' : List SnapshotContext}

namespace LoopState

theorem forall₂_same_trans (h : List.Forall₂ SnapshotContext.Same cs cs')
    (h' : List.Forall₂ SnapshotContext.Same cs' cs'') :
    List.Forall₂ SnapshotContext.Same cs cs'' := by
  induction h generalizing cs'' with
  | nil => exact h'
  | cons hc _ ih =>
    cases h' with
    | cons hc' htail => exact .cons (SnapshotContext.same_equivalence.trans hc hc') (ih htail)

theorem sim_equivalence (notes : Bool) : Equivalence (Sim notes) where
  refl _ := ⟨rfl, .refl _, rfl, rfl, rfl, rfl, rfl, fun _ => rfl, fun _ =>
    List.forall₂_same.mpr fun _ _ => SnapshotContext.same_equivalence.refl _⟩
  symm h := ⟨h.ready.symm, h.cluster.symm, h.transport.symm, h.confState.symm,
    h.appliedIndex.symm, h.panicked.symm, h.listed.symm, fun hn => (h.noted hn).symm,
    fun hn => (h.contexts hn).flip.imp fun _ _ hc => SnapshotContext.same_equivalence.symm hc⟩
  trans h h' := ⟨h.ready.trans h'.ready, h.cluster.trans h'.cluster,
    h.transport.trans h'.transport, h.confState.trans h'.confState,
    h.appliedIndex.trans h'.appliedIndex,
    h.panicked.trans h'.panicked, h.listed.trans h'.listed,
    fun hn => (h.noted hn).trans (h'.noted hn),
    fun hn => forall₂_same_trans (h.contexts hn) (h'.contexts hn)⟩

end LoopState

variable {c c' : Cluster}

theorem clusterValidateAndApply_same (h : c.SameAttributes c') (type : ConfChangeType)
    (req : ConfChangeRequest) :
    (∃ err, clusterValidateAndApply c type req = .error err ∧
        clusterValidateAndApply c' type req = .error err) ∨
      ∃ d d', clusterValidateAndApply c type req = .ok d ∧
        clusterValidateAndApply c' type req = .ok d' ∧ d.SameAttributes d' := by
  refine Cluster.SameChange.cases ?_
  cases type with
  | removeNode => exact h.remove _
  | updateNode => exact h.update _ _
  | _ =>
    simp only [clusterValidateAndApply]
    split
    · exact h.promote _
    · exact h.add _

theorem listedPeers_same (h : c.SameAttributes c') : listedPeers c = listedPeers c' := by
  have hlisted : ∀ c : Cluster, listedPeers c = (sortIds c.store.peers.keys).filterMap fun id =>
      (c.attributes id).map fun a => (a.peerID, a.raftListenAddr) := by
    intro c
    rw [listedPeers, Cluster.peers, map_filterMap]
    congr 1
    funext id
    rw [Cluster.attributes, Option.map_map]
    rfl
  rw [hlisted, hlisted, h.keys_eq]
  simp only [h.attributes]

theorem applyNormal_same (c : Cluster) (e : Entry) :
    c.SameAttributes (applyNormal (R := R) codecs c e) := by
  unfold applyNormal
  split
  · split
    · exact handlePubAppService_same _ _ _
    · exact .refl _
  · exact .refl _

namespace ReadyState

theorem change_same (h : c.SameAttributes c') (r : ReadyState) (e : Entry) :
    (r.change codecs answers c e).1 = (r.change codecs answers c' e).1 ∧
      (r.change codecs answers c e).2.SameAttributes (r.change codecs answers c' e).2 := by
  unfold change
  split
  · exact ⟨rfl, h⟩
  · split
    · exact ⟨rfl, h⟩
    · rename_i cc confReq _
      split
      · exact ⟨rfl, h⟩
      · obtain ⟨err, hc, hc'⟩ | ⟨d, d', hc, hc', hsame⟩ :=
          clusterValidateAndApply_same h cc.type confReq
        · rw [hc, hc']
          exact ⟨rfl, h⟩
        · rw [hc, hc']
          exact ⟨rfl, hsame⟩

end ReadyState

variable {s t : LoopState} {ys : List (Call × Nat)}

namespace LoopState

variable {codecs answers localID}

theorem Sim.act {notes : Bool} (call : Call) (h : Sim notes s t) :
    Sim notes (s.act codecs answers localID call) (t.act codecs answers localID call) := by
  obtain ⟨sready, scluster, stransport, sconfState, sapply⟩ := s
  obtain ⟨tready, tcluster, ttransport, tconfState, tapply⟩ := t
  obtain ⟨rfl, hcluster, rfl, rfl, hindex, _⟩ := id h
  cases call with
  | change e =>
    obtain ⟨hready, hchange⟩ := ReadyState.change_same codecs answers hcluster sready e
    exact { h with ready := hready, cluster := hchange }
  | restoreCluster snapshot =>
    have hindex' : sapply.appliedIndex = tapply.appliedIndex := hindex
    simp only [LoopState.act, ApplyState.restoreCluster, hindex']
    split
    · exact { h with appliedIndex := rfl, panicked := rfl }
    · exact { h with cluster := hcluster.restore _ }
  | listPeers => exact { h with listed := listedPeers_same hcluster }
  | addPeers => exact { h with transport := congrArg (addListed localID stransport) h.listed }
  | setInstalled | setApplied => exact { h with appliedIndex := rfl, confState := rfl }
  | applyNormal e =>
    have hleft := applyNormal_same (R := R) codecs scluster e
    have hright := applyNormal_same (R := R) codecs tcluster e
    exact { h with cluster := hleft.symm.trans (hcluster.trans hright) }
  | cloneConfState => exact { h with noted := fun _ => congrArg (·, sconfState) hindex }
  | snapshotCluster =>
    refine { h with contexts := fun hn => ?_ }
    refine rel_append (h.contexts hn) (.cons ⟨?_, ?_, hcluster⟩ .nil)
    · exact congrArg Prod.fst (h.noted hn)
    · exact congrArg Prod.snd (h.noted hn)
  | _ => exact { h with ready := rfl, transport := rfl, confState := rfl }

theorem act_comm_of_ready {notes : Bool} {a b : Call} (s : LoopState) (ha : a.byReady = true)
    (hb : b.byReady = false) (hconflict : ¬ Conflict notes a b) :
    Sim notes ((s.act codecs answers localID a).act codecs answers localID b)
      ((s.act codecs answers localID b).act codecs answers localID a) := by
  have hrefl := (sim_equivalence notes).refl
  cases a with
  | change e =>
    cases b with
    | restoreCluster snapshot | listPeers =>
      simp [Conflict, Call.byReady, Call.component, Call.notes] at hconflict
    | snapshotCluster =>
      cases notes with
      | true => simp [Conflict, Call.byReady, Call.component] at hconflict
      | false => exact ⟨rfl, .refl _, rfl, rfl, rfl, rfl, rfl, by simp, by simp⟩
    | applyNormal e' =>
      obtain ⟨hready, hchange⟩ := ReadyState.change_same codecs answers
        (applyNormal_same (R := R) codecs s.cluster e') s.ready e
      have hafter := applyNormal_same (R := R) codecs
        (s.ready.change codecs answers s.cluster e).2 e'
      exact { hrefl _ with ready := hready, cluster := hafter.symm.trans hchange }
    | _ => first | exact Bool.noConfusion hb | exact hrefl _
  | changeTransport =>
    cases b with
    | removePeers | addPeers =>
      simp [Conflict, Call.byReady, Call.component, Call.notes] at hconflict
    | _ => first | exact Bool.noConfusion hb | exact hrefl _
  | setConfState =>
    cases b with
    | setInstalled metadata =>
      simp [Conflict, Call.byReady, Call.component, Call.notes] at hconflict
    | cloneConfState =>
      cases notes with
      | true => simp [Conflict, Call.byReady, Call.component] at hconflict
      | false => exact ⟨rfl, .refl _, rfl, rfl, rfl, rfl, rfl, by simp, by simp⟩
    | _ => first | exact Bool.noConfusion hb | exact hrefl _
  | handOver snapshot | applyConfChange =>
    cases b with
    | _ => first | exact Bool.noConfusion hb | exact hrefl _
  | _ => cases ha

theorem Conflict.symm {notes : Bool} {a b : Call} (h : Conflict notes a b) : Conflict notes b a :=
  ⟨h.1.symm, h.2.1.symm, h.2.1 ▸ h.2.2.1, fun hn => h.2.2.2 hn.symm⟩

/-- An interleaving without conflicting calls out of order has the effect of the calls in the order
of the log. -/
theorem sim_of_interleaving {notes : Bool} {works : List Work}
    (hinterleaving : Interleaving works ys) (hordered : InOrder (Conflict notes) ys)
    (s : LoopState) :
    Sim notes ((ys.map Prod.fst).foldl (act codecs answers localID) s)
      ((works.flatMap Work.calls).foldl (act codecs answers localID) s) :=
  foldl_sim_of_interleaving (sim_equivalence notes) Sim.act Conflict.symm act_comm_of_ready
    hinterleaving.perm hinterleaving.inLoop hordered s

end LoopState

/-! ## The changes in the order of the log -/

/-- What an entry does to the membership, when the sessions leave the change to be made. -/
def applyChange (m : Membership) (e : Entry) : Except ApplyPanic Membership :=
  if e.type = .confChange then
    match parseConfChangeEntry codecs e with
    | none => .error (.parseConfChange e.index)
    | some (cc, confReq) =>
      match answers e.index with
      | some _ => .ok m
      | none =>
        match processConfChange codecs m cc confReq with
        | .error panic => .error panic
        | .ok (.error _, m) => .ok m
        | .ok (.ok (confState, _), m) => .ok { m with confState := confState }
  else .ok m

def membershipAt (m : Membership) (log : List Entry) (k : Nat) : Except ApplyPanic Membership :=
  run (applyChange codecs answers) m (log.take k)

def RemovesSelf (m : Membership) (e : Entry) : Prop :=
  e.type = .confChange ∧ answers e.index = none ∧ ∃ cc confReq,
    parseConfChangeEntry codecs e = some (cc, confReq) ∧ cc.type = .removeNode ∧
      cc.nodeID = localID ∧ localID ∈ m.cluster.store.peers

/-- The parts of the membership of node `localID` fit together. -/
structure Membership.Coherent (m : Membership) : Prop where
  localPeerID : m.cluster.localPeerID = localID
  confState : m.confState = m.configuration.confState
  keys : ∀ id a, m.cluster.attributes id = some a → a.peerID = id
  transport : ∀ id, id ≠ localID →
    m.transport.lookup id = (m.cluster.attributes id).map (·.raftListenAddr)

variable {req : ConfChangeRequest} {id : Nat}

def changedAddress (type : ConfChangeType) (req : ConfChangeRequest) (addr : Option String) :
    Option String :=
  match type with
  | .addNode | .addLearnerNode =>
    if req.promoteLearner then addr else addr.or (some req.raftPeerAttr.raftListenAddr)
  | .removeNode => none
  | .updateNode => addr.map fun _ => req.raftPeerAttr.raftListenAddr

theorem lookup_changeTransport (transport : Finmap fun _ : Nat => String) (type : ConfChangeType)
    (req : ConfChangeRequest) (hid : id ≠ localID) :
    (changeTransport transport localID type req).lookup id =
      if id = req.raftPeerAttr.peerID then changedAddress type req (transport.lookup id)
      else transport.lookup id := by
  unfold changeTransport
  by_cases heq : id = req.raftPeerAttr.peerID
  · subst heq
    simp only [if_neg hid]
    by_cases hmem : req.raftPeerAttr.peerID ∈ transport
    · obtain ⟨addr, haddr⟩ := Finmap.mem_iff.mp hmem
      cases type <;> simp [changedAddress, hmem, haddr]
    · cases type <;> simp [changedAddress, hmem, Finmap.lookup_eq_none.mpr hmem, apply_ite]
  · rw [if_neg heq]
    dsimp only
    split
    · rfl
    · cases type with
      | removeNode => exact Finmap.lookup_erase_ne heq
      | _ =>
        dsimp only
        split <;> simp only [Finmap.lookup_insert_of_ne _ heq]

variable {before : Option RaftPeerAttribute} {type : ConfChangeType}

theorem changedAddress_eq (hfrom : AcceptedFrom type req before) :
    changedAddress type req (before.map (·.raftListenAddr)) =
      (changedAttributes type req before).map (·.raftListenAddr) := by
  unfold AcceptedFrom at hfrom
  unfold changedAddress changedAttributes
  cases type with
  | addNode | addLearnerNode =>
    dsimp only at hfrom ⊢
    split
    · rw [Option.map_map]
      rfl
    · rw [if_neg ‹_›] at hfrom
      rw [hfrom]
      rfl
  | removeNode => rfl
  | updateNode =>
    simp only [Option.map_map]
    rfl

theorem changedAttributes_peerID {a : RaftPeerAttribute}
    (hbefore : ∀ b, before = some b → b.peerID = req.raftPeerAttr.peerID)
    (h : changedAttributes type req before = some a) : a.peerID = req.raftPeerAttr.peerID := by
  cases type with
  | addNode | addLearnerNode =>
    simp only [changedAttributes] at h
    split at h
    · obtain ⟨b, hb, rfl⟩ := Option.map_eq_some_iff.mp h
      exact hbefore b hb
    · cases h
      rfl
  | removeNode => cases h
  | updateNode =>
    obtain ⟨b, hb, rfl⟩ := Option.map_eq_some_iff.mp h
    exact hbefore b hb

inductive Applied (m : Membership) (e : Entry) : Membership → Prop
  | normal (htype : e.type ≠ .confChange) : Applied m e m
  | answered {cc : ConfChange} {confReq : ConfChangeRequest} {ar : ApplyResult R}
    (htype : e.type = .confChange) (hparse : parseConfChangeEntry codecs e = some (cc, confReq))
    (hanswer : answers e.index = some ar) : Applied m e m
  | refused {cc : ConfChange} {confReq : ConfChangeRequest} {err : ClusterError}
    (htype : e.type = .confChange) (hparse : parseConfChangeEntry codecs e = some (cc, confReq))
    (hanswer : answers e.index = none)
    (hstore : clusterValidateAndApply m.cluster cc.type confReq = .error err)
    (hraft : codecs.raft.applyConfChange m.configuration cc.type 0 = some m.configuration) :
      Applied m e m
  | accepted {cc : ConfChange} {confReq : ConfChangeRequest} {cluster : Cluster}
    {configuration : Configuration}
    (htype : e.type = .confChange) (hparse : parseConfChangeEntry codecs e = some (cc, confReq))
    (hanswer : answers e.index = none)
    (hstore : clusterValidateAndApply m.cluster cc.type confReq = .ok cluster)
    (hraft : codecs.raft.applyConfChange m.configuration cc.type cc.nodeID = some configuration) :
    Applied m e ⟨cluster, configuration,
      changeTransport m.transport cluster.localPeerID cc.type confReq, configuration.confState⟩

variable {codecs answers localID}

variable {m m' : Membership} {e : Entry}

theorem applied_of_ok (h : applyChange codecs answers m e = .ok m') :
    Applied codecs answers m e m' := by
  unfold applyChange at h
  split at h
  · rename_i htype
    split at h
    · cases h
    · rename_i cc confReq hparse
      split at h
      · rename_i ar hanswer
        cases h
        exact .answered htype hparse hanswer
      · rename_i hanswer
        unfold processConfChange at h
        cases hstore : clusterValidateAndApply m.cluster cc.type confReq with
        | error err =>
          rw [hstore] at h
          cases hraft : codecs.raft.applyConfChange m.configuration cc.type 0 with
          | none =>
            rw [hraft] at h
            cases h
          | some configuration =>
            rw [hraft] at h
            cases h
            obtain rfl : configuration = m.configuration := codecs.raft.refused hraft
            exact .refused htype hparse hanswer hstore hraft
        | ok cluster =>
          rw [hstore] at h
          cases hraft : codecs.raft.applyConfChange m.configuration cc.type cc.nodeID <;>
            rw [hraft] at h <;> cases h
          exact .accepted htype hparse hanswer hstore hraft
  · rename_i htype
    cases h
    exact .normal htype

theorem Membership.Coherent.applied (h : m.Coherent localID)
    (happlied : Applied codecs answers m e m') : m'.Coherent localID := by
  cases happlied with
  | normal | answered | refused => exact h
  | @accepted cc confReq cluster configuration htype hparse hanswer hstore hraft =>
    obtain ⟨hfrom, hafter, hsame⟩ := attributes_of_accepted hstore
    have hlocal : cluster.localPeerID = localID := hsame.trans h.localPeerID
    refine ⟨hlocal, rfl, fun id a ha => ?_, fun id hid => ?_⟩
    · rw [hafter] at ha
      split at ha
      · rename_i heq
        rw [heq]
        exact changedAttributes_peerID (fun b hb => (h.keys id b hb).trans heq) ha
      · exact h.keys id a ha
    · rw [hafter, hlocal, lookup_changeTransport localID _ _ _ hid, h.transport id hid]
      split
      · rename_i heq
        subst heq
        exact changedAddress_eq hfrom
      · rfl

variable {log : List Entry}

theorem Membership.Coherent.run (h : m.Coherent localID)
    (hrun : run (applyChange codecs answers) m log = .ok m') : m'.Coherent localID :=
  run_induction (fun h hstep => h.applied (applied_of_ok hstep)) h hrun

/-- The loops, with no change in progress, have the membership `m`. -/
structure LoopState.Matches (localID : Nat) (s : LoopState) (m : Membership) : Prop where
  idle : s.ready.progress = .idle
  cluster : s.cluster.SameAttributes m.cluster
  configuration : s.ready.configuration = m.configuration
  confState : s.confState = m.confState
  transport : ∀ id, id ≠ localID → s.transport.lookup id = m.transport.lookup id

namespace LoopState

theorem Matches.entry (h : s.Matches localID m) (hcoherent : m.Coherent localID)
    (hrunning : e.type = .confChange → s.ready.stopped = false)
    (hstored : ∀ ar confState, e.type = .confChange → answers e.index = some ar → newConfState ar =
      some confState → confState = m.confState)
    (happlied : Applied codecs answers m e m') :
    ((entryCalls e).foldl (act codecs answers localID) s).Matches localID m' ∧
      ((entryCalls e).foldl (act codecs answers localID) s).apply = s.apply ∧
      (((entryCalls e).foldl (act codecs answers localID) s).ready.stopped = true →
        s.ready.stopped = true ∨ RemovesSelf codecs answers localID m e) := by
  obtain ⟨⟨configuration, progress, stopped, panicked⟩, cluster, transport, confState, apply⟩ := s
  obtain ⟨hidle, hcluster, hconfiguration, hconfState, htransport⟩ := h
  subst hidle hconfiguration hconfState
  cases happlied with
  | normal htype =>
    simp only [entryCalls, if_neg htype, foldl_cons, foldl_nil, act]
    have hafter := applyNormal_same (R := R) codecs cluster e
    exact ⟨⟨rfl, hafter.symm.trans hcluster, rfl, rfl, htransport⟩, trivial, .inl⟩
  | @answered cc confReq ar htype hparse hanswer =>
    obtain rfl := hrunning htype
    simp only [entryCalls, if_pos htype, foldl_cons, foldl_nil, act, ReadyState.change,
      hparse, hanswer, ReadyState.applyConfChange, ReadyState.transport, ReadyState.setConfState,
      Bool.false_eq_true, if_false]
    refine ⟨⟨rfl, hcluster, rfl, ?_, htransport⟩, trivial, .inl⟩
    cases hnew : newConfState ar with
    | none => rfl
    | some new => exact hstored ar new htype hanswer hnew
  | @refused cc confReq err htype hparse hanswer hstore hraft =>
    obtain rfl := hrunning htype
    obtain ⟨err', hvalidate, -⟩ | ⟨_, _, -, hok, -⟩ :=
      clusterValidateAndApply_same hcluster cc.type confReq
    swap
    · cases hok.symm.trans hstore
    simp only [entryCalls, if_pos htype, foldl_cons, foldl_nil, act, ReadyState.change,
      hparse, hanswer, hvalidate, ReadyState.applyConfChange, hraft, ReadyState.transport,
      ReadyState.setConfState, Bool.false_eq_true, if_false]
    exact ⟨⟨rfl, hcluster, rfl, rfl, htransport⟩, trivial, .inl⟩
  | @accepted cc confReq cluster' configuration' htype hparse hanswer hstore hraft =>
    obtain rfl := hrunning htype
    obtain ⟨err, -, herror⟩ | ⟨c, c', hvalidate, hok, hsame⟩ :=
      clusterValidateAndApply_same hcluster cc.type confReq
    · cases herror.symm.trans hstore
    cases hok.symm.trans hstore
    have hlocal : cluster'.localPeerID = localID :=
      (attributes_of_accepted hstore).2.2.trans hcoherent.localPeerID
    simp only [entryCalls, if_pos htype, foldl_cons, foldl_nil, act, ReadyState.change,
      hparse, hanswer, hvalidate, ReadyState.applyConfChange, hraft, ReadyState.transport,
      ReadyState.setConfState, Bool.false_eq_true, if_false]
    refine ⟨⟨rfl, hsame, rfl, rfl, fun id hid => ?_⟩, trivial, fun hstopped => .inr ?_⟩
    · rw [hlocal, lookup_changeTransport localID _ _ _ hid, htransport id hid,
        lookup_changeTransport localID _ _ _ hid]
    · obtain ⟨hremove, hself⟩ := of_decide_eq_true hstopped
      refine ⟨htype, hanswer, cc, confReq, hparse, hremove, hself, ?_⟩
      have hfrom := (attributes_of_accepted hstore).1
      rw [hremove] at hfrom
      rw [← hself, nodeID_of_parse hparse, ← Finmap.lookup_isSome]
      simpa [AcceptedFrom, Cluster.attributes] using hfrom

end LoopState

/-! ## Batches and snapshots in the order of the log -/

/-- A change that its session answers brings no `ConfState` but the current one, and no change comes
behind the removal of the node itself. -/
structure Harmless (codecs : RequestCodecs) (answers : Nat → Option (ApplyResult R)) (localID : Nat)
    (m₀ : Membership) (log : List Entry) : Prop where
  stored : ∀ pre e post m ar confState, log = pre ++ e :: post →
    run (applyChange codecs answers) m₀ pre = .ok m → e.type = .confChange →
    answers e.index = some ar → newConfState ar = some confState → confState = m.confState
  removed : ∀ pre e post m, log = pre ++ e :: post →
    run (applyChange codecs answers) m₀ pre = .ok m → RemovesSelf codecs answers localID m e →
    ∀ e' ∈ post, e'.type ≠ .confChange

/-- The snapshot holds the membership `m`; its cluster file may have any published addresses. -/
def Installed.Holds (snapshot : Installed) (m : Membership) : Prop :=
  snapshot.metadata.confState = m.confState ∧
    ∃ c : Cluster, c.SameAttributes m.cluster ∧ snapshot.cluster = c.snapshot

/-- The work takes the node through the log from index `k` to index `k'`. A snapshot that is
installed is ahead of the node and holds the changes up to its index. -/
def Covers (codecs : RequestCodecs) (answers : Nat → Option (ApplyResult R)) (m₀ : Membership)
    (log : List Entry) : Nat → List Work → Nat → Prop
  | k, [], k' => k = k'
  | k, .takeSnapshot :: works, k' => Covers codecs answers m₀ log k works k'
  | k, .batch none entries :: works, k' =>
    entries <+: log.drop k ∧ Covers codecs answers m₀ log (k + entries.length) works k'
  | k, .batch (some snapshot) entries :: works, k' =>
    k < snapshot.metadata.index ∧ snapshot.metadata.index ≤ log.length ∧
      (∃ m, membershipAt codecs answers m₀ log snapshot.metadata.index = .ok m ∧
        snapshot.Holds m) ∧
      entries <+: log.drop snapshot.metadata.index ∧
      Covers codecs answers m₀ log (snapshot.metadata.index + entries.length) works k'

def SnapshotContext.Holds (codecs : RequestCodecs) (answers : Nat → Option (ApplyResult R))
    (m₀ : Membership) (log : List Entry) (c : SnapshotContext) : Prop :=
  ∃ m, membershipAt codecs answers m₀ log c.index = .ok m ∧ c.confState = m.confState ∧
    c.cluster.SameAttributes m.cluster

/-- The loops when all work up to index `k` of the log is done. -/
structure LoopState.AtIndex (codecs : RequestCodecs) (answers : Nat → Option (ApplyResult R))
    (localID : Nat) (m₀ : Membership) (log : List Entry) (k : Nat) (s : LoopState) : Prop where
  le_length : k ≤ log.length
  members : ∃ m, membershipAt codecs answers m₀ log k = .ok m ∧ s.Matches localID m
  running : s.ready.stopped = true → ∀ e ∈ log.drop k, e.type ≠ .confChange
  appliedIndex : s.apply.appliedIndex = k
  contexts : ∀ c ∈ s.apply.contexts, c.Holds codecs answers m₀ log

variable {k k' : Nat}

namespace LoopState

variable {m₀ : Membership}

theorem matches_entries {pre entries post : List Entry} (hlog : log = pre ++ entries ++ post)
    (hharmless : Harmless codecs answers localID m₀ log) (hcoherent : m₀.Coherent localID)
    (hm : run (applyChange codecs answers) m₀ pre = .ok m)
    (hrun : (run (applyChange codecs answers) m entries).isOk) (h : s.Matches localID m)
    (hrunning : s.ready.stopped = true → ∀ e ∈ entries ++ post, e.type ≠ .confChange) :
    let s' := (entries.flatMap entryCalls).foldl (act codecs answers localID) s
    ∃ m', run (applyChange codecs answers) m entries = .ok m' ∧ s'.Matches localID m' ∧
      s'.apply = s.apply ∧ (s'.ready.stopped = true → ∀ e ∈ post, e.type ≠ .confChange) := by
  induction entries generalizing s m pre with
  | nil => exact ⟨m, rfl, h, rfl, hrunning⟩
  | cons e entries ih =>
    obtain ⟨m', hm'⟩ := exists_eq_ok hrun
    obtain ⟨m₁, hstep, hrest⟩ := run_cons_eq_ok.mp hm'
    have hat : log = pre ++ e :: (entries ++ post) := by
      rw [hlog, append_assoc, cons_append]
    have hfront := run_append_eq_ok.mpr ⟨m, hm, by rw [run_singleton, hstep]⟩
    obtain ⟨hmatches, happly, hstopped⟩ := h.entry (hcoherent.run hm)
      (fun htype => by
        cases hs : s.ready.stopped with
        | false => rfl
        | true => exact absurd htype (hrunning hs e mem_cons_self))
      (fun ar confState => hharmless.stored pre e _ m ar confState hat hm)
      (applied_of_ok hstep)
    have hrunning' : ((entryCalls e).foldl (act codecs answers localID) s).ready.stopped = true →
        ∀ e' ∈ entries ++ post, e'.type ≠ .confChange := by
      intro hs e' he'
      rcases hstopped hs with hbefore | hremoves
      · exact hrunning hbefore e' (mem_cons_of_mem e he')
      · exact hharmless.removed pre e _ m hat hm hremoves e' he'
    have hlog' : log = pre ++ [e] ++ entries ++ post := by
      rw [hlog, append_assoc pre [e] entries, singleton_append]
    obtain ⟨m'', hrun'', hmatches'', happly'', hstopped''⟩ :=
      ih hlog' hfront (by rw [hrest]; rfl) hmatches hrunning'
    rw [flatMap_cons, foldl_append]
    exact ⟨m'', run_cons_eq_ok.mpr ⟨m₁, hstep, hrun''⟩, hmatches'', happly''.trans happly,
      hstopped''⟩

theorem AtIndex.takeSnapshot (h : s.AtIndex codecs answers localID m₀ log k) :
    (Work.takeSnapshot.calls.foldl (act codecs answers localID) s).AtIndex codecs answers localID
      m₀ log k := by
  obtain ⟨m, hm, hmatches⟩ := h.members
  refine { h with members := ⟨m, hm, { hmatches with }⟩, contexts := fun c hc => ?_ }
  refine forall_mem_concat.mpr ⟨h.contexts, m, ?_, hmatches.confState, hmatches.cluster⟩ c hc
  dsimp only [act]
  rwa [h.appliedIndex]

theorem AtIndex.entries {entries : List Entry} (h : s.AtIndex codecs answers localID m₀ log k)
    (hindex : Consecutive Entry.index 1 log) (hharmless : Harmless codecs answers localID m₀ log)
    (hcoherent : m₀.Coherent localID) (hok : (run (applyChange codecs answers) m₀ log).isOk)
    (hentries : entries <+: log.drop k) :
    ((entries.flatMap entryCalls ++
        (entries.getLast?.map fun e => Call.setApplied e.index).toList).foldl
      (act codecs answers localID) s).AtIndex codecs answers localID m₀ log
        (k + entries.length) := by
  obtain ⟨post, hpost⟩ := hentries
  have hlog : log = log.take k ++ entries ++ post := by
    rw [append_assoc, hpost, take_append_drop]
  have hlength : (log.take k ++ entries).length = k + entries.length := by
    rw [length_append, length_take_of_le h.le_length]
  have hdrop : log.drop (k + entries.length) = post := by
    rw [← drop_drop, ← hpost, drop_left]
  have htake : log.take (k + entries.length) = log.take k ++ entries := by
    conv_lhs => rw [hlog, ← hlength, take_left]
  obtain ⟨m, hm, hmatches⟩ := h.members
  have hrun : (run (applyChange codecs answers) m entries).isOk := by
    obtain ⟨final, hfinal⟩ := exists_eq_ok hok
    rw [hlog, append_assoc] at hfinal
    obtain ⟨m₁, hm₁, hrest⟩ := run_append_eq_ok.mp hfinal
    obtain rfl : m = m₁ := Except.ok.inj (hm.symm.trans hm₁)
    obtain ⟨m₂, hm₂, -⟩ := run_append_eq_ok.mp hrest
    rw [hm₂]
    rfl
  obtain ⟨m', hm', hmatches', happly, hstopped⟩ := matches_entries hlog hharmless hcoherent hm hrun
    hmatches (fun hs e he => h.running hs e (hpost ▸ he))
  have hmembers : membershipAt codecs answers m₀ log (k + entries.length) = .ok m' := by
    rw [membershipAt, htake]
    exact run_append_eq_ok.mpr ⟨m, hm, hm'⟩
  rw [foldl_append]
  cases hlast : entries.getLast? with
  | none =>
    obtain rfl := getLast?_eq_none_iff.mp hlast
    exact h
  | some e =>
    have hne : entries ≠ [] := by
      rintro rfl
      cases hlast
    have he : e.index = k + entries.length := by
      rw [hlog, append_assoc, consecutive_append, consecutive_append,
        length_take_of_le h.le_length] at hindex
      have hend := hindex.2.1.getLast hne
      rw [getLast?_eq_some_getLast hne] at hlast
      cases hlast
      omega
    have hle : k + entries.length ≤ log.length := by
      rw [hlog, length_append, hlength]
      exact Nat.le_add_right _ _
    refine ⟨hle, ⟨m', hmembers, { hmatches' with }⟩, hdrop ▸ hstopped, he, fun c hc => ?_⟩
    exact h.contexts c (happly ▸ hc)

end LoopState

theorem lookup_addListed (listed : List (Nat × String)) (t : Finmap fun _ : Nat => String)
    (hid : id ≠ localID) :
    (addListed localID t listed).lookup id = (t.lookup id).or (listed.lookup id) := by
  induction listed generalizing t with
  | nil => simp [addListed]
  | cons p listed ih =>
    have hstep : addListed localID t (p :: listed) = addListed localID
        (if p.1 = localID ∨ p.1 ∈ t then t else t.insert p.1 p.2) listed := rfl
    rw [hstep, ih]
    by_cases heq : id = p.1
    · subst heq
      rw [lookup_cons_self]
      by_cases hmem : p.1 ∈ t
      · obtain ⟨addr, haddr⟩ := Finmap.mem_iff.mp hmem
        rw [if_pos (.inr hmem), haddr]
        rfl
      · rw [if_neg (not_or.mpr ⟨hid, hmem⟩), Finmap.lookup_insert, Finmap.lookup_eq_none.mpr hmem]
        rfl
    · rw [lookup_cons, show (id == p.1) = false from beq_eq_false_iff_ne.mpr heq]
      split
      · rfl
      · rw [Finmap.lookup_insert_of_ne _ heq]

theorem lookup_filterMap_keys (ids : List Nat) (f : Nat → Option String) (id : Nat) :
    (ids.filterMap fun k => (f k).map fun v => (k, v)).lookup id =
      if id ∈ ids then f id else none := by
  induction ids with
  | nil => rfl
  | cons k ids ih =>
    rw [filterMap_cons]
    by_cases heq : id = k
    · subst heq
      cases hk : f id <;> simp [hk, ih]
    · cases f k <;> simp [heq, ih, lookup_cons, beq_eq_false_iff_ne.mpr heq]

theorem lookup_listedPeers (hkeys : ∀ id a, c.attributes id = some a → a.peerID = id) (id : Nat) :
    (listedPeers c).lookup id = (c.attributes id).map (·.raftListenAddr) := by
  have hlisted : listedPeers c = (sortIds c.store.peers.keys).filterMap fun k =>
      ((c.attributes k).map (·.raftListenAddr)).map fun addr => (k, addr) := by
    rw [listedPeers, Cluster.peers, map_filterMap]
    congr 1
    funext k
    cases hk : c.store.peers.lookup k with
    | none => simp [Cluster.attributes, hk]
    | some p =>
      have hpeer : c.attributes k = some p.raftPeerAttr := by
        rw [Cluster.attributes, hk]
        rfl
      rw [hpeer]
      simp [hkeys k _ hpeer]
  rw [hlisted, lookup_filterMap_keys]
  split
  · rfl
  · rename_i hnot
    rw [mem_sortIds, Finmap.mem_keys, ← Finmap.lookup_eq_none] at hnot
    rw [Cluster.attributes, hnot]
    rfl

namespace LoopState

variable {m₀ : Membership}

theorem AtIndex.install {snapshot : Installed} (h : s.AtIndex codecs answers localID m₀ log k)
    (hcoherent : m₀.Coherent localID) (hahead : k < snapshot.metadata.index)
    (hle : snapshot.metadata.index ≤ log.length)
    (hm : membershipAt codecs answers m₀ log snapshot.metadata.index = .ok m)
    (hholds : snapshot.Holds m) :
    ((.handOver (some snapshot) :: .receive :: installCalls snapshot).foldl
      (act codecs answers localID) s).AtIndex codecs answers localID m₀ log
        snapshot.metadata.index := by
  obtain ⟨hconfState, c, hc, hcluster⟩ := hholds
  have hm_coherent : m.Coherent localID := hcoherent.run hm
  obtain ⟨mk, hmk, hmatches⟩ := h.members
  have hlocal : s.cluster.localPeerID = m.cluster.localPeerID := by
    rw [hmatches.cluster.localPeerID, (hcoherent.run hmk).localPeerID, hm_coherent.localPeerID]
  have hrestored : (s.cluster.restore snapshot.cluster).SameAttributes m.cluster := by
    rw [hcluster]
    exact { hc with localPeerID := hlocal }
  have hconfiguration : (⟨snapshot.metadata.confState.voters,
      snapshot.metadata.confState.learners⟩ : Configuration) = m.configuration := by
    rw [hconfState, hm_coherent.confState]
    rfl
  have hnot : ¬ snapshot.metadata.index ≤ s.apply.appliedIndex := by
    rw [h.appliedIndex]
    exact Nat.not_le.mpr hahead
  simp only [installCalls, foldl_cons, foldl_nil, act, ReadyState.handOver,
    ApplyState.restoreCluster, if_neg hnot, hconfiguration]
  refine ⟨hle, ⟨m, hm, hmatches.idle, hrestored, rfl, hconfState, fun id hid => ?_⟩, ?_, rfl,
    h.contexts⟩
  · rw [lookup_addListed _ _ hid, listedPeers_same hrestored, lookup_listedPeers hm_coherent.keys,
      hm_coherent.transport id hid, Finmap.lookup_empty]
    rfl
  · intro hstopped e he
    refine h.running hstopped e ?_
    rw [show snapshot.metadata.index = k + (snapshot.metadata.index - k) by omega,
      ← drop_drop] at he
    exact mem_of_mem_drop he

theorem AtIndex.works {works : List Work} (h : s.AtIndex codecs answers localID m₀ log k)
    (hindex : Consecutive Entry.index 1 log) (hharmless : Harmless codecs answers localID m₀ log)
    (hcoherent : m₀.Coherent localID) (hok : (run (applyChange codecs answers) m₀ log).isOk)
    (hcovers : Covers codecs answers m₀ log k works k') :
    ((works.flatMap Work.calls).foldl (act codecs answers localID) s).AtIndex codecs answers localID
      m₀ log k' := by
  induction works generalizing s k with
  | nil =>
    obtain rfl : k = k' := hcovers
    exact h
  | cons work works ih =>
    rw [flatMap_cons, foldl_append]
    cases work with
    | takeSnapshot => exact ih h.takeSnapshot hcovers
    | batch snapshot entries =>
      cases snapshot with
      | none =>
        obtain ⟨hentries, hrest⟩ := hcovers
        exact ih (h.entries hindex hharmless hcoherent hok hentries) hrest
      | some snapshot =>
        obtain ⟨hahead, hle, ⟨m, hm, hholds⟩, hentries, hrest⟩ := hcovers
        have hinstalled := h.install hcoherent hahead hle hm hholds
        exact ih (hinstalled.entries hindex hharmless hcoherent hok hentries) hrest

end LoopState

/-! ## Interleavings -/

section

variable {m₀ : Membership} {works : List Work}

theorem SnapshotContext.holds_of_same (hsame : List.Forall₂ SnapshotContext.Same cs cs')
    (h : ∀ c ∈ cs', c.Holds codecs answers m₀ log) : ∀ c ∈ cs, c.Holds codecs answers m₀ log := by
  induction hsame with
  | nil => exact h
  | @cons c c' cs cs' hc _ ih =>
    obtain ⟨hhead, htail⟩ := forall_mem_cons.mp h
    refine forall_mem_cons.mpr ⟨?_, ih htail⟩
    obtain ⟨m, hm, hconfState, hcluster⟩ := hhead
    exact ⟨m, hc.1 ▸ hm, hc.2.1.trans hconfState, hc.2.2.trans hcluster⟩

/-- Every snapshot that is created holds the changes up to its index, if none is created while the
Ready loop is behind or ahead of the apply loop with its changes, and the log is harmless. -/
theorem contexts_match (hinterleaving : Interleaving works ys)
    (hordered : InOrder (Conflict true) ys) (hharmless : Harmless codecs answers localID m₀ log)
    (hindex : Consecutive Entry.index 1 log) (hcoherent : m₀.Coherent localID)
    (hok : (run (applyChange codecs answers) m₀ log).isOk)
    (hcovers : Covers codecs answers m₀ log k works k')
    (hstart : s.AtIndex codecs answers localID m₀ log k) :
    ∀ c ∈ ((ys.map Prod.fst).foldl (LoopState.act codecs answers localID) s).apply.contexts,
      c.Holds codecs answers m₀ log := by
  have hsim : LoopState.Sim true
      ((ys.map Prod.fst).foldl (LoopState.act codecs answers localID) s)
      ((works.flatMap Work.calls).foldl (LoopState.act codecs answers localID) s) :=
    LoopState.sim_of_interleaving hinterleaving hordered s
  have hend := hstart.works hindex hharmless hcoherent hok hcovers
  exact SnapshotContext.holds_of_same (hsim.contexts rfl) hend.contexts

/-- When both loops have done all work, the store, the `ConfState` and the peers of the transport
are those of all changes up to the last index, if the Ready loop makes no change while a snapshot
that was handed over before is still to be installed, and the log is harmless. -/
theorem members_match (hinterleaving : Interleaving works ys)
    (hordered : InOrder (Conflict false) ys) (hharmless : Harmless codecs answers localID m₀ log)
    (hindex : Consecutive Entry.index 1 log) (hcoherent : m₀.Coherent localID)
    (hok : (run (applyChange codecs answers) m₀ log).isOk)
    (hcovers : Covers codecs answers m₀ log k works k')
    (hstart : s.AtIndex codecs answers localID m₀ log k) :
    ∃ m, membershipAt codecs answers m₀ log k' = .ok m ∧
      ((ys.map Prod.fst).foldl (LoopState.act codecs answers localID) s).Matches localID m := by
  have hsim : LoopState.Sim false
      ((ys.map Prod.fst).foldl (LoopState.act codecs answers localID) s)
      ((works.flatMap Work.calls).foldl (LoopState.act codecs answers localID) s) :=
    LoopState.sim_of_interleaving hinterleaving hordered s
  obtain ⟨m, hm, hmatches⟩ := (hstart.works hindex hharmless hcoherent hok hcovers).members
  refine ⟨m, hm, ?_, ?_, ?_, ?_, ?_⟩
  · rw [hsim.ready]
    exact hmatches.idle
  · exact hsim.cluster.trans hmatches.cluster
  · rw [hsim.ready]
    exact hmatches.configuration
  · exact hsim.confState.trans hmatches.confState
  · rw [hsim.transport]
    exact hmatches.transport

end

def soloMembership : Membership :=
  ⟨Cluster.setPeer { Cluster.newCluster with localPeerID := 1 } 1 ⟨⟨1, "a", false, 0⟩, []⟩,
    ⟨[1], []⟩, ∅, ⟨[1], [], [], [], false⟩⟩

def soloLoops : LoopState :=
  ⟨⟨⟨[1], []⟩, .idle, false, false⟩, soloMembership.cluster, ∅, ⟨[1], [], [], [], false⟩,
    ⟨0, false, [], (0, .empty), []⟩⟩

def additions : RequestCodecs :=
  requestTable [] [(.addNode, changeRequest 0 0 ⟨2, "b", false, 0⟩),
    (.addNode, changeRequest 0 0 ⟨3, "c", false, 0⟩)]

def unanswered : Nat → Option (ApplyResult Nat) := fun _ => none

def additionLog : List Entry := [⟨1, 1, .confChange, [0]⟩, ⟨1, 2, .confChange, [1]⟩]

def batchAndSnapshot : List Work := [.batch none (additionLog.take 1), .takeSnapshot]

/-- The apply loop creates the snapshot before the Ready loop has made the change. -/
def snapshotFirst : List (Call × Nat) :=
  let calls := positions (batchAndSnapshot.flatMap Work.calls)
  calls.take 2 ++ calls.drop 6 ++ (calls.drop 2).take 4

theorem snapshotFirst_lacks_change :
    Interleaving batchAndSnapshot snapshotFirst ∧
      (((snapshotFirst.map Prod.fst).foldl (LoopState.act additions unanswered 1)
        soloLoops).apply.contexts.map fun c =>
          (c.index, c.confState.voters, (c.cluster.attributes 2).isSome)) = [(1, [1], false)] ∧
      (membershipAt additions unanswered soloMembership additionLog 1).map
        (fun m => (m.confState.voters, (m.cluster.attributes 2).isSome)) = .ok ([1, 2], true) := by
  refine ⟨⟨?_, ?_, ?_⟩, ?_, ?_⟩
  all_goals decide +kernel

theorem soloMembership_coherent : soloMembership.Coherent 1 := by
  have hattributes : ∀ id, soloMembership.cluster.attributes id =
      if id = 1 then some ⟨1, "a", false, 0⟩ else none := by
    intro id
    rw [soloMembership, Cluster.attributes_setPeer]
    rfl
  refine ⟨rfl, rfl, fun id a ha => ?_, fun id hid => ?_⟩
  · rw [hattributes] at ha
    split at ha <;> cases ha
    exact Eq.symm ‹_›
  · rw [hattributes, if_neg hid]
    rfl

theorem soloLoops_atIndex : soloLoops.AtIndex additions unanswered 1 soloMembership additionLog 0 :=
  ⟨Nat.zero_le _, ⟨soloMembership, rfl, rfl, .refl _, rfl, rfl, fun _ _ => rfl⟩, nofun, rfl, nofun⟩

theorem additions_harmless : Harmless additions unanswered 1 soloMembership additionLog where
  stored := nofun
  removed := by
    rintro pre e post m hlog hm ⟨-, -, cc, confReq, hparse, hremove, -⟩
    have hadd : ∀ e ∈ additionLog, ∀ p, parseConfChangeEntry additions e = some p →
        p.1.type = .addNode := by
      intro e he p hp
      simp only [additionLog, mem_cons, not_mem_nil, or_false] at he
      rcases he with rfl | rfl <;> cases hp
      · rfl
      · rfl
    have hmem : e ∈ additionLog := by
      rw [hlog]
      exact mem_append_right pre mem_cons_self
    have := hadd e hmem _ hparse
    rw [hremove] at this
    cases this

/-- The Ready loop makes the change before the apply loop has received the batch. -/
def changeFirst : List (Call × Nat) :=
  let calls := positions (batchAndSnapshot.flatMap Work.calls)
  calls.take 1 ++ (calls.drop 2).take 4 ++ (calls.drop 1).take 1 ++ calls.drop 6

theorem changeFirst_contexts_match :
    ∃ c, ((changeFirst.map Prod.fst).foldl (LoopState.act additions unanswered 1)
      soloLoops).apply.contexts = [c] ∧ c.Holds additions unanswered soloMembership
        additionLog := by
  have hinterleaving : Interleaving batchAndSnapshot changeFirst :=
    ⟨by decide +kernel, by decide +kernel, by decide +kernel⟩
  have hlength : ((changeFirst.map Prod.fst).foldl (LoopState.act additions unanswered 1)
      soloLoops).apply.contexts.length = 1 := by
    decide +kernel
  obtain ⟨c, hc⟩ := length_eq_one_iff.mp hlength
  refine ⟨c, hc, ?_⟩
  apply contexts_match hinterleaving (by decide +kernel) additions_harmless (by decide)
    soloMembership_coherent (by decide +kernel) ⟨by decide, rfl⟩ soloLoops_atIndex
  rw [hc]
  exact mem_singleton_self c

/-- The membership with node 2, as a snapshot of index 1. -/
def withNodeTwo : Membership :=
  ⟨soloMembership.cluster.setPeer 2 ⟨⟨2, "b", false, 0⟩, []⟩, ⟨[1, 2], []⟩,
    (∅ : Finmap fun _ : Nat => String).insert 2 "b", ⟨[1, 2], [], [], [], false⟩⟩

/-- The snapshot is installed, and then node 3 is added. -/
def installAndAdd : List Work :=
  [.batch (some ⟨⟨⟨[1, 2], [], [], [], false⟩, 1, 1⟩, withNodeTwo.cluster.snapshot⟩) [],
    .batch none (additionLog.drop 1)]

def installAndAddCalls (order : List Nat) : List (Call × Nat) :=
  order.filterMap fun i => (positions (installAndAdd.flatMap Work.calls))[i]?

/-- The Ready loop makes the change before the apply loop installs the snapshot. -/
def changeThenInstall : List (Call × Nat) :=
  installAndAddCalls [0, 7, 9, 10, 11, 12, 1, 2, 3, 4, 5, 6, 8, 13]

theorem changeThenInstall_loses_member :
    Interleaving installAndAdd changeThenInstall ∧
      (let s := (changeThenInstall.map Prod.fst).foldl (LoopState.act additions unanswered 1)
        soloLoops
      ((s.cluster.attributes 3).isSome, s.confState.voters, (s.transport.lookup 3).isSome)) =
        (false, [1, 2], false) ∧
      (membershipAt additions unanswered soloMembership additionLog 2).map (fun m =>
        ((m.cluster.attributes 3).isSome, m.confState.voters, (m.transport.lookup 3).isSome)) =
        .ok (true, [1, 2, 3], true) := by
  refine ⟨⟨?_, ?_, ?_⟩, ?_, ?_⟩
  all_goals decide +kernel

def installThenChange : List (Call × Nat) :=
  installAndAddCalls [0, 7, 1, 2, 3, 4, 5, 6, 9, 10, 11, 12, 8, 13]

theorem installThenChange_members_match :
    ∃ m, membershipAt additions unanswered soloMembership additionLog 2 = .ok m ∧
      ((installThenChange.map Prod.fst).foldl (LoopState.act additions unanswered 1)
        soloLoops).Matches 1 m := by
  have hinterleaving : Interleaving installAndAdd installThenChange :=
    ⟨by decide +kernel, by decide +kernel, by decide +kernel⟩
  have hm : membershipAt additions unanswered soloMembership additionLog 1 = .ok withNodeTwo := by
    decide +kernel
  have hholds : Installed.Holds ⟨⟨⟨[1, 2], [], [], [], false⟩, 1, 1⟩,
      withNodeTwo.cluster.snapshot⟩ withNodeTwo :=
    ⟨rfl, withNodeTwo.cluster, .refl _, rfl⟩
  have hcovers : Covers additions unanswered soloMembership additionLog 0 installAndAdd 2 :=
    ⟨by decide, by decide, ⟨withNodeTwo, hm, hholds⟩, by decide, by decide, rfl⟩
  exact members_match hinterleaving (by decide +kernel) additions_harmless (by decide)
    soloMembership_coherent (by decide +kernel) hcovers soloLoops_atIndex

end Babuza.Raft
