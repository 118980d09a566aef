import Babuza.Session
import Babuza.Cluster

/-!
# Applying committed entries

`raft/applied_facade.go` and the loops over a batch in `raft/raft_apply.go` and
`raft/raft_ready.go`. Normal entries are applied by the loop of the state machine (`applyEntry`),
changes of the configuration by the Ready loop (`applyConfChangeEntry`). The clock is read at every
entry, so the readings are part of the input. `applied` is the history of what the state machine is
given. Replies to clients, metrics and member events leave no trace in the state.
-/

namespace Babuza.Raft

open Lib

variable {σ R : Type}

/-- The ways in which processing an entry ends the process. -/
inductive ApplyPanic
  | unmarshal (index : Nat)
  | parseConfChange (index : Nat)
  | addResult (e : SessionError)
  | removedAllVoters
  | notSupportEntryType
  | openedAppliedIndex (index : Nat)
  deriving DecidableEq

/-- `doExactlyOnce`: whether the request is to be applied, the answer if it is not, and the sessions
after the deferred `ClearResult`. -/
def doExactlyOnce (sessions : SessionManager R) (index : Nat) (ctx : RequestContext)
    (session : SessionHandle) : Bool × ApplyResult R × SessionManager R :=
  let cleared := sessions.clearResult session ctx.lowestSeqNumNotYetReplied
  if sessions.repeatSequenceNum session ctx.sequenceNum then
    match sessions.getResult session ctx.sequenceNum with
    | none =>
      (false, ⟨index, none, some (.resultNotFound ctx.sessionID ctx.sequenceNum)⟩, cleared)
    | some ar => (false, ar, cleared)
  else (true, .empty, cleared)

def handleSessionRegister (sessions : SessionManager R) (e : Entry) (reqTime : Int)
    (req : RegisterSessionRequest) : ApplyResult R × SessionManager R :=
  match if req.unregister then sessions.unRegister req.sessionID
    else sessions.register e.index reqTime with
  | .error err => (⟨e.index, none, some (.session err)⟩, sessions)
  | .ok sessions => (⟨e.index, none, none⟩, sessions)

def handlePubAppService (cluster : Cluster) (e : Entry) (req : PubAppServiceRequest) :
    ApplyResult R × Cluster :=
  match cluster.updateAppServiceAddresses req.pubServicePeerID req.appServiceAddresses with
  | .error err => (⟨e.index, some (.clusterError err), none⟩, cluster)
  | .ok cluster => (⟨e.index, none, none⟩, cluster)

/-- `ApplyNormalEntry`. An empty answer means that the state machine has to apply the request. -/
def applyNormalEntry (codecs : RequestCodecs) (sessions : SessionManager R) (cluster : Cluster)
    (reqTime : Int) (e : Entry) : Except ApplyPanic
      (NormalRequest × ApplyResult R × SessionHandle × SessionManager R × Cluster) :=
  match codecs.normalRequest e.data with
  | none => .error (.unmarshal e.index)
  | some req =>
    match req.register, req.pubAppService with
    | some register, _ =>
      let (ar, sessions) := handleSessionRegister sessions e reqTime register
      .ok (req, ar, .noOp, sessions, cluster)
    | none, some pubAppService =>
      let (ar, cluster) := handlePubAppService cluster e pubAppService
      .ok (req, ar, .noOp, sessions, cluster)
    | none, none =>
      let sessions := sessions.expireSession reqTime
      match sessions.getSession req.context.sessionID with
      | .error err => .ok (req, ⟨e.index, none, some (.session err)⟩, .noOp, sessions, cluster)
      | .ok (session, sessions) =>
        let (toApply, ar, sessions) := doExactlyOnce sessions e.index req.context session
        .ok (req, if toApply then .empty else ar, session, sessions, cluster)

/-! ## Changes of the configuration -/

/-- What a change of the configuration acts on: the store, the configuration of the raft node, the
peers that the transport sends to, and the configuration in the node's status. -/
structure Membership where
  cluster : Cluster
  configuration : Configuration
  transport : Finmap fun _ : Nat => String
  confState : ConfState
  deriving DecidableEq

def clusterValidateAndApply (cluster : Cluster) (changeType : ConfChangeType)
    (req : ConfChangeRequest) : Except ClusterError Cluster :=
  match changeType with
  | .addNode | .addLearnerNode =>
    if req.promoteLearner then cluster.promote req.raftPeerAttr.peerID
    else cluster.add req.raftPeerAttr
  | .removeNode => cluster.remove req.raftPeerAttr.peerID
  | .updateNode => cluster.update req.raftPeerAttr.peerID req.raftPeerAttr

def parseConfChangeEntry (codecs : RequestCodecs) (e : Entry) :
    Option (ConfChange × ConfChangeRequest) :=
  match codecs.confChange e.data with
  | none => none
  | some cc =>
    match codecs.confChangeRequest cc.context with
    | none => none
    | some confReq =>
      if cc.nodeID = confReq.raftPeerAttr.peerID then some (cc, confReq) else none

/-- The peers of the transport: `AddPeer` keeps a peer that is there already, `UpdatePeer` and
`RemovePeer` need one. -/
def changeTransport (transport : Finmap fun _ : Nat => String) (localPeerID : Nat)
    (type : ConfChangeType) (confReq : ConfChangeRequest) : Finmap fun _ : Nat => String :=
  let id := confReq.raftPeerAttr.peerID
  if id = localPeerID then transport
  else match type with
    | .addNode | .addLearnerNode =>
      if confReq.promoteLearner ∨ id ∈ transport then transport
      else transport.insert id confReq.raftPeerAttr.raftListenAddr
    | .removeNode => transport.erase id
    | .updateNode =>
      if id ∈ transport then transport.insert id confReq.raftPeerAttr.raftListenAddr
      else transport

/-- `processConfChange`: the new configuration or the store's error, and whether the node itself
was removed. -/
def processConfChange (codecs : RequestCodecs) (m : Membership) (cc : ConfChange)
    (confReq : ConfChangeRequest) :
    Except ApplyPanic (Except ClusterError (ConfState × Bool) × Membership) :=
  match clusterValidateAndApply m.cluster cc.type confReq with
  | .error err =>
    match codecs.raft.applyConfChange m.configuration cc.type 0 with
    | none => .error .removedAllVoters
    | some configuration => .ok (.error err, { m with configuration := configuration })
  | .ok cluster =>
    match codecs.raft.applyConfChange m.configuration cc.type cc.nodeID with
    | none => .error .removedAllVoters
    | some configuration =>
      .ok (.ok (configuration.confState, cc.type = .removeNode ∧ cc.nodeID = cluster.localPeerID),
        { m with
          cluster := cluster
          configuration := configuration
          transport := changeTransport m.transport cluster.localPeerID cc.type confReq })

def confChangeResult (index : Nat) : Except ClusterError (ConfState × Bool) → ApplyResult R
  | .error err => ⟨index, some (.confState none), some (.cluster err)⟩
  | .ok (confState, _) => ⟨index, some (.confState (some confState)), none⟩

/-- `ApplyConfChangeEntry` after the sessions have expired. -/
def applyParsedConfChange (codecs : RequestCodecs) (sessions : SessionManager R) (m : Membership)
    (reqTime : Int) (e : Entry) (cc : ConfChange) (confReq : ConfChangeRequest) :
    Except ApplyPanic (ApplyResult R × Bool × SessionManager R × Membership) :=
  match sessions.getSession confReq.context.sessionID with
  | .error err => .ok (⟨e.index, none, some (.session err)⟩, false, sessions, m)
  | .ok (session, sessions) =>
    let (toApply, ar, sessions) := doExactlyOnce sessions e.index confReq.context session
    if toApply then
      match processConfChange codecs m cc confReq with
      | .error panic => .error panic
      | .ok (outcome, m) =>
        let ar := confChangeResult e.index outcome
        match sessions.addResult session confReq.context.sequenceNum reqTime ar with
        | .error err => .error (.addResult err)
        | .ok sessions =>
          .ok (ar, (match outcome with | .ok (_, removeSelf) => removeSelf | .error _ => false),
            sessions, m)
    else .ok (ar, false, sessions, m)

/-- `appliedFacadeImpl.ApplyConfChangeEntry`: the answer and whether the node itself was removed. -/
def facadeApplyConfChangeEntry (codecs : RequestCodecs) (sessions : SessionManager R)
    (m : Membership) (reqTime : Int) (e : Entry) :
    Except ApplyPanic (ApplyResult R × Bool × SessionManager R × Membership) :=
  match parseConfChangeEntry codecs e with
  | none => .error (.parseConfChange e.index)
  | some (cc, confReq) =>
    applyParsedConfChange codecs (sessions.expireSession reqTime) m reqTime e cc confReq

/-- The configuration that `applyConfChangeEntry` takes over into the status. -/
def newConfState (ar : ApplyResult R) : Option ConfState :=
  match ar.error, ar.response with
  | none, some (.confState cs) => cs
  | _, _ => none

structure Application where
  context : RequestContext
  command : Command
  deriving DecidableEq

structure Replica (σ R : Type) where
  sessions : SessionManager R
  membership : Membership
  stateMachine : σ
  applied : List Application

structure Clock where
  reqTime : Int
  now : Int
  deriving DecidableEq

/-- What `applyEntries` has to know of the state machine (`BasedStateMachineInfo`). -/
structure BasedStateMachineInfo where
  openAppliedIndex : Nat
  diskType : Bool
  deriving DecidableEq

variable (codecs : RequestCodecs) (sm : StateMachine σ R) (info : BasedStateMachineInfo)

/-- The state machine applies a request, and the session keeps its answer. -/
def applyCommand (r : Replica σ R) (now : Int) (e : Entry) (req : NormalRequest)
    (session : SessionHandle) : Except ApplyPanic (Replica σ R) :=
  let command : Command := ⟨e.term, e.index, req.stateMachineLog⟩
  let (stateMachine, ar) := sm r.stateMachine command
  match r.sessions.addResult session req.context.sequenceNum now ar with
  | .error err => .error (.addResult err)
  | .ok sessions => .ok { r with
      sessions := sessions
      stateMachine := stateMachine
      applied := r.applied ++ [⟨req.context, command⟩] }

def applyEntry (r : Replica σ R) (clock : Clock) (e : Entry) : Except ApplyPanic (Replica σ R) :=
  if e.data = [] then .ok r
  else match e.type with
    | .normal =>
      if e.index ≤ info.openAppliedIndex then
        if info.diskType then .ok r else .error (.openedAppliedIndex e.index)
      else
        match applyNormalEntry codecs r.sessions r.membership.cluster clock.reqTime e with
        | .error panic => .error panic
        | .ok (req, ar, session, sessions, cluster) =>
          let r := { r with
            sessions := sessions
            membership := { r.membership with cluster := cluster } }
          if ar.isEmpty then applyCommand sm r clock.now e req session
          else .ok r
    | .confChange => .ok r
    | .confChangeV2 => .error .notSupportEntryType

/-- One round of the Ready loop's `applyConfChangeEntry`. -/
def applyConfChangeEntry (r : Replica σ R) (clock : Clock) (e : Entry) :
    Except ApplyPanic (Replica σ R) :=
  if e.type = .confChange then
    match facadeApplyConfChangeEntry codecs r.sessions r.membership clock.reqTime e with
    | .error panic => .error panic
    | .ok (ar, _, sessions, membership) => .ok { r with
        sessions := sessions
        membership := { membership with
          confState := (newConfState ar).getD membership.confState } }
  else .ok r

/-- An entry of the log with the readings of the clock at it. -/
abbrev TimedEntry := Clock × Entry

/-- Both loops process an entry. The changes are made in the order of the log, each before the
entries behind it are applied. -/
def processEntry (r : Replica σ R) (e : TimedEntry) : Except ApplyPanic (Replica σ R) := do
  let r ← applyConfChangeEntry codecs r e.1 e.2
  applyEntry codecs sm info r e.1 e.2

/-! ## Requests that a session decides on -/

variable {sessions : SessionManager R} {session : SessionHandle} {ctx : RequestContext}

theorem doExactlyOnce_none (index : Nat)
    (hnone : sessions.getResult session ctx.sequenceNum = none) :
    doExactlyOnce sessions index ctx session =
      (true, .empty, sessions.clearResult session ctx.lowestSeqNumNotYetReplied) := by
  unfold doExactlyOnce
  rw [SessionManager.repeatSequenceNum_eq, hnone]
  rfl

variable {ar : ApplyResult R}

theorem doExactlyOnce_some (index : Nat)
    (hsome : sessions.getResult session ctx.sequenceNum = some ar) :
    doExactlyOnce sessions index ctx session =
      (false, ar, sessions.clearResult session ctx.lowestSeqNumNotYetReplied) := by
  unfold doExactlyOnce
  rw [SessionManager.repeatSequenceNum_eq, hsome]
  rfl

/-- The request of a client that the state machine's loop takes from an entry. -/
def clientRequest (e : Entry) : Option NormalRequest :=
  if e.data ≠ [] ∧ e.type = .normal ∧ info.openAppliedIndex < e.index then
    (codecs.normalRequest e.data).filter fun req =>
      req.register.isNone && req.pubAppService.isNone
  else none

/-- How such a request is processed after the sessions have expired. -/
def applyRequest (r : Replica σ R) (now : Int) (e : Entry) (req : NormalRequest) :
    Except ApplyPanic (Replica σ R) :=
  match r.sessions.getSession req.context.sessionID with
  | .error _ => .ok r
  | .ok (session, sessions) =>
    let cleared := sessions.clearResult session req.context.lowestSeqNumNotYetReplied
    match sessions.getResult session req.context.sequenceNum with
    | none => applyCommand sm { r with sessions := cleared } now e req session
    | some ar =>
      if ar.isEmpty then applyCommand sm { r with sessions := cleared } now e req session
      else .ok { r with sessions := cleared }

def Replica.expireSession (r : Replica σ R) (reqTime : Int) : Replica σ R :=
  { r with sessions := r.sessions.expireSession reqTime }

variable {codecs info}

variable {e : Entry} {req : NormalRequest}

theorem clientRequest_eq_some (h : clientRequest codecs info e = some req) :
    e.data ≠ [] ∧ e.type = .normal ∧ info.openAppliedIndex < e.index ∧
      codecs.normalRequest e.data = some req ∧ req.register = none ∧ req.pubAppService = none := by
  unfold clientRequest at h
  split at h
  · rename_i hcond
    rw [Option.filter_eq_some_iff] at h
    simp only [Bool.and_eq_true, Option.isNone_iff_eq_none] at h
    exact ⟨hcond.1, hcond.2.1, hcond.2.2, h.1, h.2.1, h.2.2⟩
  · cases h

variable {r : Replica σ R}

theorem processEntry_clientRequest {e : TimedEntry} (h : clientRequest codecs info e.2 = some req) :
    processEntry codecs sm info r e =
      applyRequest sm (r.expireSession e.1.reqTime) e.1.now e.2 req := by
  obtain ⟨hdata, htype, hopen, hdecode, hregister, hpub⟩ := clientRequest_eq_some h
  have hconf : applyConfChangeEntry codecs r e.1 e.2 = .ok r := by
    rw [applyConfChangeEntry, htype]
    rfl
  unfold processEntry
  rw [hconf, ok_bind, applyEntry, if_neg hdata, htype]
  simp only [Nat.not_le.mpr hopen, if_false, applyNormalEntry, hdecode, hregister, hpub]
  unfold applyRequest Replica.expireSession
  cases hget : (r.sessions.expireSession e.1.reqTime).getSession req.context.sessionID with
  | error err => simp [ApplyResult.isEmpty_error]
  | ok found =>
    obtain ⟨session, sessions⟩ := found
    dsimp only
    cases hresult : sessions.getResult session req.context.sequenceNum with
    | none =>
      rw [doExactlyOnce_none _ hresult]
      simp
    | some ar =>
      rw [doExactlyOnce_some _ hresult]
      simp

/-! ## The other entries -/

theorem processEntry_confChange {e : TimedEntry} (h : e.2.type = .confChange) :
    processEntry codecs sm info r e = applyConfChangeEntry codecs r e.1 e.2 := by
  unfold processEntry
  cases happly : applyConfChangeEntry codecs r e.1 e.2 with
  | error panic => rfl
  | ok r' =>
    rw [ok_bind, applyEntry, h]
    simp

theorem processEntry_of_ne {e : TimedEntry} (h : e.2.type ≠ .confChange) :
    processEntry codecs sm info r e = applyEntry codecs sm info r e.1 e.2 := by
  rw [processEntry, applyConfChangeEntry, if_neg h, ok_bind]

theorem handleSessionRegister_isEmpty (hpos : 0 < e.index) (reqTime : Int)
    (req : RegisterSessionRequest) :
    (handleSessionRegister sessions e reqTime req).1.isEmpty = false := by
  unfold handleSessionRegister
  split
  · exact ApplyResult.isEmpty_error _ _ _
  · simp [ApplyResult.isEmpty, hpos.ne']

theorem handlePubAppService_isEmpty {cluster : Cluster} (hpos : 0 < e.index)
    (req : PubAppServiceRequest) :
    (handlePubAppService (R := R) cluster e req).1.isEmpty = false := by
  unfold handlePubAppService
  split
  · simp [ApplyResult.isEmpty]
  · simp [ApplyResult.isEmpty, hpos.ne']

theorem handlePubAppService_same (cluster : Cluster) (e : Entry) (req : PubAppServiceRequest) :
    cluster.SameAttributes (handlePubAppService (R := R) cluster e req).2 := by
  unfold handlePubAppService
  split
  · exact .refl _
  · exact Cluster.SameAttributes.updateAppServiceAddresses ‹_›

/-- What a normal entry that is not a client's request does: it changes the sessions or the
addresses in the store, or nothing at all. -/
theorem applyEntry_cases {clock : Clock} (hpos : 0 < e.index)
    (hnone : clientRequest codecs info e = none) :
    (∃ panic, applyEntry codecs sm info r clock e = .error panic ∧ ∀ err, panic ≠ .addResult err) ∨
      applyEntry codecs sm info r clock e = .ok r ∨
      (∃ req, applyEntry codecs sm info r clock e =
        .ok { r with sessions := (handleSessionRegister r.sessions e clock.reqTime req).2 }) ∨
      ∃ req, applyEntry codecs sm info r clock e =
        .ok { r with membership := { r.membership with
          cluster := (handlePubAppService (R := R) r.membership.cluster e req).2 } } := by
  unfold applyEntry
  by_cases hdata : e.data = []
  · exact .inr (.inl (if_pos hdata))
  · rw [if_neg hdata]
    cases htype : e.type with
    | confChange => exact .inr (.inl rfl)
    | confChangeV2 => exact .inl ⟨_, rfl, nofun⟩
    | normal =>
      dsimp only
      by_cases hopen : e.index ≤ info.openAppliedIndex
      · rw [if_pos hopen]
        split
        · exact .inr (.inl rfl)
        · exact .inl ⟨_, rfl, nofun⟩
      · rw [if_neg hopen, applyNormalEntry]
        rw [clientRequest, if_pos ⟨hdata, htype, by omega⟩] at hnone
        cases hdecode : codecs.normalRequest e.data with
        | none => exact .inl ⟨_, rfl, nofun⟩
        | some req =>
          dsimp only
          cases hregister : req.register with
          | some register =>
            refine .inr (.inr (.inl ⟨register, ?_⟩))
            dsimp only
            rw [handleSessionRegister_isEmpty hpos]
            rfl
          | none =>
            cases hpub : req.pubAppService with
            | some pubAppService =>
              refine .inr (.inr (.inr ⟨pubAppService, ?_⟩))
              dsimp only
              rw [handlePubAppService_isEmpty hpos]
              rfl
            | none =>
              rw [hdecode, Option.filter_some, hregister, hpub] at hnone
              cases hnone

variable {confReq : ConfChangeRequest} {panic : ApplyPanic} {cc : ConfChange} {m : Membership}

def LeavesNoVoter (codecs : RequestCodecs) (m : Membership) (cc : ConfChange)
    (confReq : ConfChangeRequest) : Prop :=
  codecs.raft.applyConfChange m.configuration cc.type
    (if (clusterValidateAndApply m.cluster cc.type confReq).isOk then cc.nodeID else 0) = none

theorem processConfChange_eq_error_iff : processConfChange codecs m cc confReq = .error panic ↔
    panic = .removedAllVoters ∧ LeavesNoVoter codecs m cc confReq := by
  unfold processConfChange LeavesNoVoter
  cases clusterValidateAndApply m.cluster cc.type confReq
  all_goals
    dsimp only [Except.isOk, Except.toBool, if_true, Bool.false_eq_true, if_false]
    split
    all_goals simp [*, eq_comm (a := panic)]

variable {reqTime : Int}

/-- What ends the process after the sessions have expired: a change that is new to its session and
leaves no voter. -/
def ChangeFails (codecs : RequestCodecs) (sessions : SessionManager R) (m : Membership)
    (cc : ConfChange) (confReq : ConfChangeRequest) : Prop :=
  ∃ session found, sessions.getSession confReq.context.sessionID = .ok (session, found) ∧
    found.getResult session confReq.context.sequenceNum = none ∧ LeavesNoVoter codecs m cc confReq

theorem applyParsedConfChange_eq_error_iff :
    applyParsedConfChange codecs sessions m reqTime e cc confReq = .error panic ↔
      panic = .removedAllVoters ∧ ChangeFails codecs sessions m cc confReq := by
  unfold applyParsedConfChange ChangeFails
  cases hget : sessions.getSession confReq.context.sessionID with
  | error err => simp
  | ok x =>
    obtain ⟨session, found⟩ := x
    cases hresult : found.getResult session confReq.context.sequenceNum with
    | some ar => simp [doExactlyOnce_some _ hresult, hresult]
    | none =>
      have hright : (panic = .removedAllVoters ∧ ∃ s f, Except.ok (ε := SessionError)
          (session, found) = .ok (s, f) ∧ f.getResult s confReq.context.sequenceNum = none ∧
          LeavesNoVoter codecs m cc confReq) ↔ processConfChange codecs m cc confReq =
            .error panic := by
        simp [processConfChange_eq_error_iff, hresult]
      rw [hright]
      simp only [doExactlyOnce_none _ hresult, if_true]
      split
      · simp [*]
      · next outcome _ hprocess =>
        obtain ⟨sessions', hadd⟩ := SessionManager.addResult_of_none
          (SessionManager.getResult_clearResult hresult confReq.context.lowestSeqNumNotYetReplied)
          reqTime (confChangeResult e.index outcome)
        simp [hadd, hprocess]

theorem facadeApplyConfChangeEntry_error
    (h : facadeApplyConfChangeEntry codecs sessions m reqTime e = .error panic) :
    panic = .parseConfChange e.index ∨ panic = .removedAllVoters := by
  unfold facadeApplyConfChangeEntry at h
  split at h
  · cases h
    exact .inl rfl
  · exact .inr (applyParsedConfChange_eq_error_iff.mp h).1

variable {now : Int}

/-- A request that finds an empty result is applied, and its own result cannot be added if the empty
one is not cleared. -/
def RequestFails (sessions : SessionManager R) (ctx : RequestContext) : Prop :=
  ∃ session found ar, sessions.getSession ctx.sessionID = .ok (session, found) ∧
    found.getResult session ctx.sequenceNum = some ar ∧ ar.isEmpty ∧
    ((found.clearResult session ctx.lowestSeqNumNotYetReplied).getResult session
      ctx.sequenceNum).isSome

theorem applyCommand_eq_error_iff : applyCommand sm r now e req session = .error panic ↔
    panic = .addResult (.sequenceNumberExists req.context.sequenceNum) ∧
      (r.sessions.getResult session req.context.sequenceNum).isSome := by
  unfold applyCommand
  dsimp only
  cases hresult : r.sessions.getResult session req.context.sequenceNum with
  | none =>
    obtain ⟨sessions', hadd⟩ := SessionManager.addResult_of_none hresult now
      (sm r.stateMachine ⟨e.term, e.index, req.stateMachineLog⟩).2
    simp [hadd]
  | some ar => simp [SessionManager.addResult_of_some hresult, eq_comm (a := panic)]

theorem applyRequest_eq_error_iff : applyRequest sm r now e req = .error panic ↔
    panic = .addResult (.sequenceNumberExists req.context.sequenceNum) ∧
      RequestFails r.sessions req.context := by
  unfold applyRequest RequestFails
  cases hget : r.sessions.getSession req.context.sessionID with
  | error err => simp
  | ok x =>
    obtain ⟨session, found⟩ := x
    dsimp only
    cases hresult : found.getResult session req.context.sequenceNum with
    | none =>
      simp [applyCommand_eq_error_iff, SessionManager.getResult_clearResult hresult, hresult]
    | some ar =>
      dsimp only
      split
      · simp [applyCommand_eq_error_iff, *]
      · simp [*]
/-! ## What a request leaves behind -/

variable {r' : Replica σ R}

theorem applyCommand_ok (h : applyCommand sm r now e req session = .ok r') :
    let command : Command := ⟨e.term, e.index, req.stateMachineLog⟩
    ∃ sessions, r.sessions.addResult session req.context.sequenceNum now
        (sm r.stateMachine command).2 = .ok sessions ∧
      r' = { r with
        sessions := sessions
        stateMachine := (sm r.stateMachine command).1
        applied := r.applied ++ [⟨req.context, command⟩] } := by
  unfold applyCommand at h
  dsimp only at h
  split at h <;> cases h
  rename_i sessions hadd
  exact ⟨sessions, hadd, rfl⟩

theorem applyRequest_ok_cases (h : applyRequest sm r now e req = .ok r') :
    r' = r ∨ ∃ session sessions,
      r.sessions.getSession req.context.sessionID = .ok (session, sessions) ∧
        let cleared := sessions.clearResult session req.context.lowestSeqNumNotYetReplied
        r' = { r with sessions := cleared } ∨
          applyCommand sm { r with sessions := cleared } now e req session = .ok r' := by
  unfold applyRequest at h
  split at h
  · cases h
    exact .inl rfl
  · rename_i session sessions hget
    refine .inr ⟨session, sessions, hget, ?_⟩
    split at h
    · exact .inr h
    · split at h
      · exact .inr h
      · cases h
        exact .inl rfl

variable {sessions' : SessionManager R} {removeSelf : Bool}

def removesSelf : Except ClusterError (ConfState × Bool) → Bool
  | .ok (_, removeSelf) => removeSelf
  | .error _ => false

/-- A change of the configuration finds no session, is answered from its session, or is made and
answered with its outcome. -/
theorem applyParsedConfChange_ok_cases {m' : Membership}
    (h : applyParsedConfChange codecs sessions m reqTime e cc confReq =
      .ok (ar, removeSelf, sessions', m')) :
    ((∃ err, sessions.getSession confReq.context.sessionID = .error err) ∧ sessions' = sessions ∧
        m' = m) ∨
      ∃ session found, sessions.getSession confReq.context.sessionID = .ok (session, found) ∧
        let cleared := found.clearResult session confReq.context.lowestSeqNumNotYetReplied
        ((found.getResult session confReq.context.sequenceNum).isSome ∧ sessions' = cleared ∧
            m' = m) ∨
          (found.getResult session confReq.context.sequenceNum = none ∧
            ∃ outcome, processConfChange codecs m cc confReq = .ok (outcome, m') ∧
              cleared.addResult session confReq.context.sequenceNum reqTime
                (confChangeResult e.index outcome) = .ok sessions' ∧
              removeSelf = removesSelf outcome) := by
  unfold applyParsedConfChange at h
  split at h
  · rename_i err hget
    cases h
    exact .inl ⟨⟨err, hget⟩, rfl, rfl⟩
  · rename_i session found hget
    refine .inr ⟨session, found, hget, ?_⟩
    dsimp only at h
    cases hresult : found.getResult session confReq.context.sequenceNum with
    | some stored =>
      rw [doExactlyOnce_some _ hresult] at h
      cases h
      exact .inl ⟨rfl, rfl, rfl⟩
    | none =>
      rw [doExactlyOnce_none _ hresult] at h
      simp only [if_true] at h
      split at h
      · cases h
      · rename_i outcome m'' hprocess
        split at h <;> cases h
        rename_i hadd
        exact .inr ⟨rfl, outcome, hprocess, hadd, rfl⟩

/-! ## Invariants of the sessions -/

/-- A property that the operations on one session keep, as long as the results that are added
satisfy `N`. -/
structure KeptInPlace (P : SessionManager R → Prop)
    (N : SessionHandle → Nat → ApplyResult R → Prop) : Prop where
  getSession : ∀ {m sid h m'}, m.getSession sid = .ok (h, m') → P m → P m'
  clearResult : ∀ {m} (h : SessionHandle) (lowest : Nat), P m → P (m.clearResult h lowest)
  addResult : ∀ {m h seq now ar m'}, N h seq ar → m.addResult h seq now ar = .ok m' → P m → P m'

/-- A property that all operations on the sessions keep. -/
structure Kept (P : SessionManager R → Prop) (N : SessionHandle → Nat → ApplyResult R → Prop) :
    Prop extends KeptInPlace P N where
  expireSession : ∀ {m} (now : Int), P m → P (m.expireSession now)
  register : ∀ {m sid now m'}, m.register sid now = .ok m' → P m → P m'
  unRegister : ∀ {m sid m'}, m.unRegister sid = .ok m' → P m → P m'

section Kept

variable {P : SessionManager R → Prop} {N : SessionHandle → Nat → ApplyResult R → Prop}

theorem Kept.handleSessionRegister (h : Kept P N) (hP : P sessions) (e : Entry) (reqTime : Int)
    (req : RegisterSessionRequest) : P (handleSessionRegister sessions e reqTime req).2 := by
  unfold Raft.handleSessionRegister
  split
  · exact hP
  · rename_i sessions' hop
    split at hop
    · exact h.unRegister hop hP
    · exact h.register hop hP

theorem KeptInPlace.applyParsedConfChange (h : KeptInPlace P N) {m' : Membership}
    (hN : ∀ session seq outcome, N session seq (confChangeResult e.index outcome)) (hP : P sessions)
    (happly : applyParsedConfChange codecs sessions m reqTime e cc confReq =
      .ok (ar, removeSelf, sessions', m')) :
    P sessions' := by
  rcases applyParsedConfChange_ok_cases happly with ⟨-, rfl, -⟩ | ⟨session, found, hget, hcases⟩
  · exact hP
  · have hcleared : P (found.clearResult session confReq.context.lowestSeqNumNotYetReplied) :=
      h.clearResult _ _ (h.getSession hget hP)
    rcases hcases with ⟨-, rfl, -⟩ | ⟨-, outcome, -, hadd, -⟩
    · exact hcleared
    · exact h.addResult (hN _ _ _) hadd hcleared

theorem KeptInPlace.applyCommand (h : KeptInPlace P N)
    (hN : ∀ ar, N session req.context.sequenceNum ar) (hP : P r.sessions)
    (happly : applyCommand sm r now e req session = .ok r') : P r'.sessions := by
  obtain ⟨sessions, hadd, rfl⟩ := applyCommand_ok sm happly
  exact h.addResult (hN _) hadd hP

theorem KeptInPlace.applyRequest (h : KeptInPlace P N)
    (hN : ∀ {m m' : SessionManager R} {session}, m.getSession req.context.sessionID =
      .ok (session, m') → ∀ ar : ApplyResult R, N session req.context.sequenceNum ar)
    (hP : P r.sessions) (happly : applyRequest sm r now e req = .ok r') : P r'.sessions := by
  rcases applyRequest_ok_cases sm happly with rfl | ⟨session, sessions, hget, hcases⟩
  · exact hP
  · have hcleared : P (sessions.clearResult session req.context.lowestSeqNumNotYetReplied) :=
      h.clearResult _ _ (h.getSession hget hP)
    rcases hcases with rfl | happly
    · exact hcleared
    · exact h.applyCommand sm (hN hget) hcleared happly

theorem Kept.other (h : Kept P N) {e : TimedEntry} (hpos : 0 < e.2.index)
    (hconf : e.2.type ≠ .confChange) (hnone : clientRequest codecs info e.2 = none)
    (hP : P r.sessions) (hprocess : processEntry codecs sm info r e = .ok r') : P r'.sessions := by
  rw [processEntry_of_ne sm hconf] at hprocess
  rcases applyEntry_cases sm hpos hnone with
    ⟨panic, happly, -⟩ | happly | ⟨req, happly⟩ | ⟨req, happly⟩
  all_goals
    rw [happly] at hprocess
    cases hprocess
  · exact hP
  · exact h.handleSessionRegister hP _ _ _
  · exact hP

theorem Kept.processEntry (h : Kept P N) {e : TimedEntry} (hpos : 0 < e.2.index)
    (hconfN : ∀ session seq outcome, N session seq (confChangeResult e.2.index outcome))
    (hreqN : ∀ {req} {m m' : SessionManager R} {session}, clientRequest codecs info e.2 = some req →
      m.getSession req.context.sessionID = .ok (session, m') → ∀ ar : ApplyResult R,
      N session req.context.sequenceNum ar)
    (hP : P r.sessions) (hprocess : processEntry codecs sm info r e = .ok r') : P r'.sessions := by
  by_cases hconf : e.2.type = .confChange
  · rw [processEntry_confChange sm hconf, applyConfChangeEntry, if_pos hconf] at hprocess
    split at hprocess <;> cases hprocess
    rename_i happly
    unfold facadeApplyConfChangeEntry at happly
    split at happly
    · cases happly
    · exact h.applyParsedConfChange hconfN (h.expireSession _ hP) happly
  · cases hrequest : clientRequest codecs info e.2 with
    | some req =>
      rw [processEntry_clientRequest sm hrequest] at hprocess
      exact h.applyRequest sm (hreqN hrequest) (h.expireSession _ hP) hprocess
    | none => exact h.other sm hpos hconf hrequest hP hprocess

variable (R) in
theorem kept_results (Q : Nat → Nat → ApplyResult R → Prop) :
    Kept (fun m : SessionManager R => ∀ k s seq ar, m.find? k = some s →
      s.getResult seq = some ar → Q k seq ar) fun h seq ar => ∀ k, h = .registered k →
        Q k seq ar where
  expireSession now hP k s seq ar hfind := hP k s seq ar (SessionManager.find?_expireSession hfind)
  getSession hget hP k s seq ar hfind := by
    rcases SessionManager.getSession_eq_ok hget with ⟨-, rfl⟩ | ⟨-, -, hsame⟩
    · exact hP k s seq ar hfind
    · exact hP k s seq ar ((hsame k).symm.trans hfind)
  clearResult h lowest hP k s seq ar hfind hget := by
    cases h with
    | noOp => exact hP k s seq ar hfind hget
    | registered sid =>
      obtain ⟨s', hfind', rfl | ⟨-, rfl⟩⟩ := SessionManager.find?_modify_eq_some hfind
      · exact hP k s seq ar hfind' hget
      · rw [Session.getResult_clearResult] at hget
        split at hget
        · cases hget
        · exact hP k s' seq ar hfind' hget
  addResult {m h seq' now ar' m'} hN hadd hP k s seq ar hfind hget := by
    cases h with
    | noOp =>
      cases hadd
      exact hP k s seq ar hfind hget
    | registered sid =>
      rw [SessionManager.addResult_eq_modify hadd] at hfind
      obtain ⟨s', hfind', rfl | ⟨rfl, rfl⟩⟩ := SessionManager.find?_modify_eq_some hfind
      · exact hP k s seq ar hfind' hget
      · rw [Session.getResult_withResult] at hget
        split at hget
        · rename_i hseq
          cases hget
          rw [hseq]
          exact hN k rfl
        · exact hP k s' seq ar hfind' hget
  register hreg hP k s seq ar hfind hget := by
    rcases SessionManager.find?_register hreg hfind with ⟨-, rfl⟩ | hfind
    · rw [Session.getResult_newSession] at hget
      cases hget
    · exact hP k s seq ar hfind hget
  unRegister hunreg hP k s seq ar hfind :=
    hP k s seq ar (SessionManager.find?_unRegister hunreg hfind)

end Kept

theorem processEntry_tracks {e : TimedEntry} (hpos : 0 < e.2.index) (htracks : r.sessions.tracks)
    (hprocess : processEntry codecs sm info r e = .ok r') : r'.sessions.tracks := by
  have h : Kept (fun m : SessionManager R => m.tracks = true) (fun _ _ _ => True) := {
    expireSession := fun now hP => (SessionManager.tracks_expireSession _ now).trans hP
    getSession := fun hget hP => (SessionManager.tracks_getSession hget).trans hP
    clearResult := fun h lowest hP => (SessionManager.tracks_clearResult _ h lowest).trans hP
    addResult := fun _ hadd hP => (SessionManager.tracks_addResult hadd).trans hP
    register := fun hreg hP => (SessionManager.tracks_register hreg).trans hP
    unRegister := fun hunreg hP => (SessionManager.tracks_unRegister hunreg).trans hP }
  exact h.processEntry sm hpos (fun _ _ _ => trivial) (fun _ _ _ => trivial) htracks hprocess

/-- Codecs to evaluate the model with: an entry holds the position of its request in a list. -/
def requestTable (requests : List NormalRequest)
    (changes : List (ConfChangeType × ConfChangeRequest)) : RequestCodecs where
  normalRequest
    | [k] => requests[k.toNat]?
    | _ => none
  confChange
    | [k] => changes[k.toNat]?.map fun change => ⟨change.1, change.2.raftPeerAttr.peerID, [k]⟩
    | _ => none
  confChangeRequest
    | [k] => changes[k.toNat]?.map Prod.snd
    | _ => none
  raft := Configuration.changer

def registerRequest : NormalRequest := ⟨⟨0, 0, 0, 0⟩, some ⟨false, 0⟩, none, []⟩

def sessionRequest (sid seq lowest : Nat) (log : Bytes) : NormalRequest :=
  ⟨⟨0, sid, seq, lowest⟩, none, none, log⟩

/-- A log of normal entries, at time 0, that hold the given positions. -/
def normalLog (positions : List UInt8) : List TimedEntry :=
  positions.zipIdx.map fun p => (⟨0, 0⟩, ⟨1, p.2 + 1, .normal, [p.1]⟩)

/-- A state machine that counts the commands and answers with the count. -/
def counter : StateMachine Nat Nat := fun n c => (n + 1, ⟨c.index, some (.value n), none⟩)

/-- A replica before the first entry, with node 1 as the only voter. -/
def newReplica {σ R : Type} (sessions : SessionManager R) (stateMachine : σ) : Replica σ R :=
  ⟨sessions, ⟨.newCluster, ⟨[1], []⟩, ∅, .empty⟩, stateMachine, []⟩

def Replica.withVoter {σ R : Type} (r : Replica σ R) : Replica σ R :=
  { r with membership := { r.membership with
      cluster := r.membership.cluster.setPeer 1 ⟨⟨1, "a", false, 0⟩, []⟩ } }

/-- A change for the given peer, as request number `seq` of session `sid`. -/
def changeRequest (sid seq : Nat) (peer : RaftPeerAttribute) : ConfChangeRequest :=
  ⟨⟨0, sid, seq, 0⟩, 0, peer, false⟩

def changeEntry (index : Nat) (position : UInt8) : TimedEntry :=
  (⟨0, 0⟩, ⟨1, index, .confChange, [position]⟩)

end Babuza.Raft
