import Babuza.Raft.AppliedFacade

/-!
# The cluster store and the configuration of the raft library

A committed change is first checked and made in the cluster store and then passed on to the raft
library (`processConfChange`). Their accounts of voters and learners agree only as long as a change
means the same to both (`Fits`): an update overwrites the learner flag in the store only, and an id
of 0 is no node to the raft library. `membership_agrees_iff` is for the changes of a whole log.
-/

namespace Babuza.Raft

open Lib

variable {σ R : Type} {codecs : RequestCodecs} (sm : StateMachine σ R)
  {info : BasedStateMachineInfo}

/-! ## One change -/

/-- The store has the peer as a voter or a learner exactly if the `ConfState` has. -/
def Tally (c : Cluster) (confState : ConfState) (id : Nat) : Prop :=
  (c.isLearner? id = some false ↔ id ∈ confState.voters) ∧
    (c.isLearner? id = some true ↔ id ∈ confState.learners)

/-- The voters and the learners of the raft library's `ConfState` are the peers that the store has
as voters and as learners. -/
def Agree (m : Membership) : Prop :=
  ∀ id, Tally m.cluster m.configuration.confState id

/-- If the store accepts the change, it means the same to the store and to the raft library. -/
def Fits (m : Membership) (type : ConfChangeType) (req : ConfChangeRequest) : Prop :=
  (clusterValidateAndApply m.cluster type req).isOk →
    match type with
    | .addNode =>
      req.raftPeerAttr.peerID ≠ 0 ∧ (req.promoteLearner ∨ req.raftPeerAttr.isLearner = false)
    | .addLearnerNode =>
      req.raftPeerAttr.peerID ≠ 0 ∧ req.promoteLearner = false ∧ req.raftPeerAttr.isLearner = true
    | .removeNode => req.raftPeerAttr.peerID ≠ 0
    | .updateNode =>
      m.cluster.isLearner? req.raftPeerAttr.peerID = some req.raftPeerAttr.isLearner

def changedAttributes (type : ConfChangeType) (req : ConfChangeRequest)
    (before : Option RaftPeerAttribute) : Option RaftPeerAttribute :=
  match type with
  | .addNode | .addLearnerNode =>
    if req.promoteLearner then before.map fun a => { a with isLearner := false }
    else some req.raftPeerAttr
  | .removeNode => none
  | .updateNode => before.map fun a => { a with
      raftListenAddr := req.raftPeerAttr.raftListenAddr
      isLearner := req.raftPeerAttr.isLearner
      storeID := req.raftPeerAttr.storeID }

/-- The store before a change that it accepts: peers are added once, and only peers that are there
are promoted, updated and removed. -/
def AcceptedFrom (type : ConfChangeType) (req : ConfChangeRequest)
    (before : Option RaftPeerAttribute) : Prop :=
  match type with
  | .addNode | .addLearnerNode =>
    if req.promoteLearner then ∃ a, before = some a ∧ a.isLearner = true else before = none
  | _ => before.isSome

variable {type : ConfChangeType} {req : ConfChangeRequest} {c c' : Cluster}

theorem attributes_of_accepted (h : clusterValidateAndApply c type req = .ok c') :
    AcceptedFrom type req (c.attributes req.raftPeerAttr.peerID) ∧ (∀ id, c'.attributes id =
      if id = req.raftPeerAttr.peerID then changedAttributes type req (c.attributes id)
      else c.attributes id) ∧ c'.localPeerID = c.localPeerID := by
  have hset : ∀ (p : Peer) (after : Option RaftPeerAttribute), some p.raftPeerAttr = after →
      ∀ id, (c.setPeer req.raftPeerAttr.peerID p).attributes id =
        if id = req.raftPeerAttr.peerID then after else c.attributes id := by
    intro p after hafter id
    rw [Cluster.attributes_setPeer, hafter]
  have hadd : (if req.promoteLearner then c.promote req.raftPeerAttr.peerID
        else c.add req.raftPeerAttr) = .ok c' →
      AcceptedFrom .addNode req (c.attributes req.raftPeerAttr.peerID) ∧ (∀ id, c'.attributes id =
        if id = req.raftPeerAttr.peerID then
          changedAttributes .addNode req (c.attributes req.raftPeerAttr.peerID)
        else c.attributes id) ∧ c'.localPeerID = c.localPeerID := by
    intro h
    unfold AcceptedFrom changedAttributes
    split at h
    · rename_i hpromote
      simp only [hpromote, if_true]
      unfold Cluster.promote at h
      split at h
      · cases h
      · rename_i p hp
        split at h <;> cases h
        rename_i hlearner
        have hbefore : c.attributes req.raftPeerAttr.peerID = some p.raftPeerAttr := by
          rw [Cluster.attributes, hp]
          rfl
        rw [hbefore]
        exact ⟨⟨_, rfl, hlearner⟩, hset _ _ rfl, rfl⟩
    · rename_i hpromote
      simp only [if_neg hpromote]
      unfold Cluster.add at h
      split at h
      · cases h
      · rename_i hnot
        have hbefore : c.attributes req.raftPeerAttr.peerID = none := by
          rw [Cluster.attributes, Finmap.lookup_eq_none.mpr hnot]
          rfl
        split at h
        · cases h
        · split at h <;> cases h
          exact ⟨hbefore, hset _ _ rfl, rfl⟩
  have hself : ∀ {after : Option RaftPeerAttribute → Option RaftPeerAttribute} {id : Nat},
      c'.attributes id = (if id = req.raftPeerAttr.peerID then
        after (c.attributes req.raftPeerAttr.peerID) else c.attributes id) →
      c'.attributes id = if id = req.raftPeerAttr.peerID then after (c.attributes id)
        else c.attributes id := by
    intro after id h
    by_cases heq : id = req.raftPeerAttr.peerID
    · rw [if_pos heq] at h ⊢
      rw [h, heq]
    · rw [if_neg heq] at h ⊢
      exact h
  cases type with
  | addNode | addLearnerNode => exact ⟨(hadd h).1, fun id => hself ((hadd h).2.1 id), (hadd h).2.2⟩
  | removeNode =>
    simp only [clusterValidateAndApply, Cluster.remove] at h
    split at h <;> cases h
    rename_i hmem
    refine ⟨?_, fun id => ?_, rfl⟩
    · rw [AcceptedFrom, Cluster.attributes, Option.isSome_map]
      · exact Finmap.lookup_isSome.mpr hmem
      all_goals simp
    · by_cases heq : id = req.raftPeerAttr.peerID
      · rw [if_pos heq, heq, Cluster.attributes, Finmap.lookup_erase]
        rfl
      · rw [if_neg heq, Cluster.attributes, Finmap.lookup_erase_ne heq]
        rfl
  | updateNode =>
    simp only [clusterValidateAndApply, Cluster.update] at h
    split at h <;> cases h
    rename_i p hp
    have hbefore : c.attributes req.raftPeerAttr.peerID = some p.raftPeerAttr := by
      rw [Cluster.attributes, hp]
      rfl
    refine ⟨?_, fun id => hself (hset _ _ ?_ id), rfl⟩
    all_goals
      rw [hbefore]
      rfl

theorem isLearner?_eq (c : Cluster) (id : Nat) :
    c.isLearner? id = (c.attributes id).map (·.isLearner) := by
  rw [Cluster.isLearner?, Cluster.attributes, Option.map_map]
  rfl

theorem isLearner?_of_accepted (h : clusterValidateAndApply c type req = .ok c') :
    c'.isLearner? req.raftPeerAttr.peerID = (match type with
      | .addNode | .addLearnerNode => some (!req.promoteLearner && req.raftPeerAttr.isLearner)
      | .removeNode => none
      | .updateNode => some req.raftPeerAttr.isLearner) ∧
    (type ≠ .updateNode →
      c'.isLearner? req.raftPeerAttr.peerID ≠ c.isLearner? req.raftPeerAttr.peerID) := by
  obtain ⟨hfrom, hafter, -⟩ := attributes_of_accepted h
  have hself := hafter req.raftPeerAttr.peerID
  rw [if_pos rfl] at hself
  simp only [isLearner?_eq, hself]
  have hadd : AcceptedFrom .addNode req (c.attributes req.raftPeerAttr.peerID) →
      (changedAttributes .addNode req (c.attributes req.raftPeerAttr.peerID)).map (·.isLearner) =
          some (!req.promoteLearner && req.raftPeerAttr.isLearner) ∧
        (changedAttributes .addNode req (c.attributes req.raftPeerAttr.peerID)).map (·.isLearner) ≠
          (c.attributes req.raftPeerAttr.peerID).map (·.isLearner) := by
    intro hfrom
    unfold AcceptedFrom at hfrom
    unfold changedAttributes
    cases hpromote : req.promoteLearner with
    | true =>
      simp only [hpromote, if_true] at hfrom ⊢
      obtain ⟨a, ha, hlearner⟩ := hfrom
      simp [ha, hlearner]
    | false =>
      simp only [hpromote, Bool.false_eq_true, if_false] at hfrom ⊢
      simp [hfrom]
  cases type with
  | addNode | addLearnerNode => exact ⟨(hadd hfrom).1, fun _ => (hadd hfrom).2⟩
  | removeNode | updateNode =>
    obtain ⟨a, ha⟩ := Option.isSome_iff_exists.mp hfrom
    simp [changedAttributes, ha]

variable {id : Nat}

theorem Tally.congr {cs cs' : ConfState} (hstore : c'.isLearner? id = c.isLearner? id)
    (hvoters : id ∈ cs'.voters ↔ id ∈ cs.voters)
    (hlearners : id ∈ cs'.learners ↔ id ∈ cs.learners) : Tally c' cs' id ↔ Tally c cs id := by
  unfold Tally
  rw [hstore, hvoters, hlearners]

theorem Tally.iff_eq {cs : ConfState} (h : Tally c cs id) :
    Tally c' cs id ↔ c'.isLearner? id = c.isLearner? id := by
  constructor
  · intro h'
    have hfalse := h'.1.trans h.1.symm
    have htrue := h'.2.trans h.2.symm
    apply Option.ext
    intro b
    cases b with
    | false => exact hfalse
    | true => exact htrue
  · intro heq
    exact (Tally.congr heq Iff.rfl Iff.rfl).mpr h

variable {m m' : Membership} {cfg : Configuration}

/-- A change that the store accepts leaves the two accounts in agreement if it does so for the peer
that is changed. -/
theorem agree_iff_tally (hagree : Agree m)
    (h : clusterValidateAndApply m.cluster type req = .ok c)
    (hraft : codecs.raft.applyConfChange m.configuration type req.raftPeerAttr.peerID = some cfg) :
    (∀ id, Tally c cfg.confState id) ↔ Tally c cfg.confState req.raftPeerAttr.peerID := by
  constructor
  · intro hall
    exact hall _
  · intro hat id
    by_cases heq : id = req.raftPeerAttr.peerID
    · rwa [heq]
    · have hstore : c.isLearner? id = m.cluster.isLearner? id := by
        rw [isLearner?_eq, isLearner?_eq, (attributes_of_accepted h).2.1, if_neg heq]
      obtain ⟨hvoters, hlearners⟩ := codecs.raft.others hraft heq
      exact (Tally.congr hstore hvoters hlearners).mpr (hagree id)

theorem tally_iff_fits (hagree : Agree m) (h : clusterValidateAndApply m.cluster type req = .ok c)
    (hraft : codecs.raft.applyConfChange m.configuration type req.raftPeerAttr.peerID = some cfg) :
    Tally c cfg.confState req.raftPeerAttr.peerID ↔ Fits m type req := by
  have haccepted : (clusterValidateAndApply m.cluster type req).isOk := by
    rw [h]
    rfl
  have hbefore := hagree req.raftPeerAttr.peerID
  obtain ⟨hafter, hne⟩ := isLearner?_of_accepted h
  by_cases htype : type = .updateNode
  · subst htype
    rw [codecs.raft.updated hraft, hbefore.iff_eq, hafter, Fits]
    simp only [haccepted, true_imp_iff]
    exact eq_comm
  · by_cases hid : req.raftPeerAttr.peerID = 0
    · -- the raft library passes over the change
      rw [hid] at hraft
      rw [codecs.raft.refused hraft, hbefore.iff_eq]
      refine iff_of_false (hne htype) fun hfits => ?_
      have hfits := hfits haccepted
      cases type with
      | addNode | addLearnerNode => exact hfits.1 hid
      | removeNode => exact hfits hid
      | updateNode => exact htype rfl
    · obtain ⟨hvoters, hlearners⟩ := codecs.raft.changed hraft hid htype
      unfold Tally Fits
      simp only [haccepted, true_imp_iff, hafter, Configuration.confState, hvoters, hlearners]
      cases type with
      | updateNode => exact absurd rfl htype
      | removeNode => simp [hid]
      | addNode | addLearnerNode => cases hp : req.promoteLearner <;> simp [hid]

variable {confReq : ConfChangeRequest} {cc : ConfChange}

theorem processConfChange_agree_iff {outcome : Except ClusterError (ConfState × Bool)}
    (hid : cc.nodeID = confReq.raftPeerAttr.peerID) (hagree : Agree m)
    (h : processConfChange codecs m cc confReq = .ok (outcome, m')) :
    Agree m' ↔ Fits m cc.type confReq := by
  unfold processConfChange at h
  cases hvalidate : clusterValidateAndApply m.cluster cc.type confReq with
  | error err =>
    rw [hvalidate] at h
    dsimp only at h
    split at h
    · cases h
    · rename_i happly
      cases h
      rw [codecs.raft.refused happly]
      refine iff_of_true hagree fun haccepted => ?_
      rw [hvalidate] at haccepted
      cases haccepted
  | ok c =>
    rw [hvalidate] at h
    dsimp only at h
    split at h <;> cases h
    rename_i happly
    rw [hid] at happly
    rw [← tally_iff_fits hagree hvalidate happly, ← agree_iff_tally hagree hvalidate happly]
    rfl

/-! ## A log -/

/-- If the entry is a change that its session has no answer for yet, the change fits. -/
def FitsAt (codecs : RequestCodecs) (r : Replica σ R) (e : TimedEntry) : Prop :=
  e.2.type = .confChange → ∀ cc confReq session sessions,
    parseConfChangeEntry codecs e.2 = some (cc, confReq) →
    (r.sessions.expireSession e.1.reqTime).getSession confReq.context.sessionID =
      .ok (session, sessions) →
    sessions.getResult session confReq.context.sequenceNum = none →
    Fits r.membership cc.type confReq

variable {e : Entry}

theorem nodeID_of_parse (h : parseConfChangeEntry codecs e = some (cc, confReq)) :
    cc.nodeID = confReq.raftPeerAttr.peerID := by
  unfold parseConfChangeEntry at h
  split at h
  · cases h
  · split at h
    · cases h
    · split at h <;> cases h
      assumption

variable {sessions sessions' : SessionManager R} {ar : ApplyResult R} {reqTime : Int}

theorem applyParsedConfChange_agree_iff {removeSelf : Bool}
    (hid : cc.nodeID = confReq.raftPeerAttr.peerID) (hagree : Agree m)
    (h : applyParsedConfChange codecs sessions m reqTime e cc confReq =
      .ok (ar, removeSelf, sessions', m')) :
    Agree m' ↔ ∀ session found,
      sessions.getSession confReq.context.sessionID = .ok (session, found) →
      found.getResult session confReq.context.sequenceNum = none →
      Fits m cc.type confReq := by
  rcases applyParsedConfChange_ok_cases h with ⟨⟨err, hget⟩, -, rfl⟩ | ⟨session, found, hget,
    hcases⟩
  · rw [hget]
    exact iff_of_true hagree nofun
  · rcases hcases with ⟨hsome, -, rfl⟩ | ⟨hnone, outcome, hprocess, -, -⟩
    · refine iff_of_true hagree fun session' found' heq hnone => ?_
      cases hget.symm.trans heq
      rw [hnone] at hsome
      cases hsome
    · rw [processConfChange_agree_iff hid hagree hprocess]
      exact ⟨fun hfits _ _ _ _ => hfits, fun hfits => hfits session found hget hnone⟩

theorem applyNormalEntry_isLearner? {req : NormalRequest} {session : SessionHandle}
    (h : applyNormalEntry codecs sessions c reqTime e = .ok (req, ar, session, sessions', c'))
    (id : Nat) : c'.isLearner? id = c.isLearner? id := by
  unfold applyNormalEntry at h
  split at h
  · cases h
  · split at h
    · cases h
      rfl
    · cases h
      rw [isLearner?_eq, isLearner?_eq]
      exact congrArg _ ((handlePubAppService_same (R := R) c e _).attributes id).symm
    · dsimp only at h
      split at h <;> cases h
      · rfl
      · rfl

theorem applyEntry_agree {r r' : Replica σ R} {clock : Clock} (hagree : Agree r.membership)
    (h : applyEntry codecs sm info r clock e = .ok r') : Agree r'.membership := by
  unfold applyEntry at h
  split at h
  · cases h
    exact hagree
  · split at h
    · split at h
      · split at h <;> cases h
        exact hagree
      · split at h
        · cases h
        · rename_i happly
          have hafter : ∀ id, Tally _ r.membership.configuration.confState id := fun id =>
            (Tally.congr (applyNormalEntry_isLearner? happly id) Iff.rfl Iff.rfl).mpr (hagree id)
          split at h
          · unfold applyCommand at h
            dsimp only at h
            split at h <;> cases h
            exact hafter
          · cases h
            exact hafter
    · cases h
      exact hagree
    · cases h

theorem processEntry_agree_iff_fits {r r' : Replica σ R} {e : TimedEntry}
    (hagree : Agree r.membership) (h : processEntry codecs sm info r e = .ok r') :
    Agree r'.membership ↔ FitsAt codecs r e := by
  by_cases hconf : e.2.type = .confChange
  · rw [processEntry_confChange sm hconf, applyConfChangeEntry, if_pos hconf,
      facadeApplyConfChangeEntry] at h
    cases hparse : parseConfChangeEntry codecs e.2 with
    | none =>
      rw [hparse] at h
      cases h
    | some parsed =>
      obtain ⟨cc, confReq⟩ := parsed
      rw [hparse] at h
      split at h <;> cases h
      rename_i happly
      refine (applyParsedConfChange_agree_iff (nodeID_of_parse hparse) hagree happly).trans ?_
      constructor
      · intro hfits _ cc' confReq' session found hparse'
        rw [hparse] at hparse'
        cases hparse'
        exact hfits session found
      · intro hfits session found
        exact hfits hconf cc confReq session found hparse
  · rw [processEntry_of_ne sm hconf] at h
    exact iff_of_true (applyEntry_agree sm hagree h) fun h => absurd h hconf

/-- From equal sets on, the store and the raft library agree on the voters and the learners after
every part of a log, exactly if every change that reaches the store fits. -/
theorem membership_agrees_iff {r final : Replica σ R} {log : List TimedEntry}
    (hagree : Agree r.membership) (hrun : run (processEntry codecs sm info) r log = .ok final) :
    (∀ pre r', pre <+: log → run (processEntry codecs sm info) r pre = .ok r' →
        Agree r'.membership) ↔
      ∀ pre e r', pre ++ [e] <+: log → run (processEntry codecs sm info) r pre = .ok r' →
        FitsAt codecs r' e :=
  (forall_reached_iff_throughout (I := fun _ => True)
    (J := fun r : Replica σ R => Agree r.membership)
    (fun _ _ => trivial) (fun _ hagree h => processEntry_agree_iff_fits sm hagree h) trivial hagree
    hrun).trans throughout_iff_forall

/-- An update of node 1 that calls it a learner, and one of its address. -/
def updateRequests : RequestCodecs :=
  requestTable [] [(.updateNode, changeRequest 0 0 ⟨1, "b", true, 0⟩),
    (.updateNode, changeRequest 0 0 ⟨1, "b", false, 0⟩)]

/-- A voter becomes a learner in the store and stays a voter in the raft library. -/
theorem update_makes_learner :
    (run (processEntry updateRequests counter ⟨0, false⟩) (newReplica .noOp 0).withVoter
      [changeEntry 1 0]).map (fun r =>
        (r.membership.cluster.isLearner? 1, r.membership.configuration.confState.voters)) =
      .ok (some true, [1]) := by
  decide +kernel

theorem update_keeps_voter :
    (∀ pre r', pre <+: [changeEntry 1 1] → run (processEntry updateRequests counter ⟨0, false⟩)
        (newReplica .noOp 0).withVoter pre = .ok r' → Agree r'.membership) ↔
      ∀ pre e r', pre ++ [e] <+: [changeEntry 1 1] →
        run (processEntry updateRequests counter ⟨0, false⟩) (newReplica .noOp 0).withVoter pre =
          .ok r' → FitsAt updateRequests r' e := by
  have hagree : Agree (newReplica (σ := Nat) (R := Nat) .noOp 0).withVoter.membership := by
    intro id
    unfold Tally Replica.withVoter
    dsimp only
    rw [Cluster.isLearner?_setPeer]
    by_cases heq : id = 1
    · simp [heq, newReplica, Configuration.confState]
    · have hnone : Cluster.newCluster.isLearner? id = none := rfl
      simp [heq, newReplica, Configuration.confState, hnone]
  obtain ⟨final, hrun⟩ := exists_eq_ok (x := run (processEntry updateRequests counter ⟨0, false⟩)
    (newReplica .noOp 0).withVoter [changeEntry 1 1]) (by decide +kernel)
  exact membership_agrees_iff counter hagree hrun

end Babuza.Raft
