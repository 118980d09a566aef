import Babuza.Raftpb

/-!
# Requests and results

The messages of `ibabuza/babuzapb` that the entries of the log carry, `raftpb.ConfChange`, and the
`ApplyResult` that a state machine answers with (`ibabuza/statemachine.go`). The response of an
`ApplyResult` has type `any` in the source; here it is the configuration that a change of the
membership answers with, an error that is passed as the response, or a value of the state machine's
own type `R`.
-/

namespace Babuza

open Lib

structure RaftPeerAttribute where
  peerID : Nat
  raftListenAddr : String
  isLearner : Bool
  storeID : Nat
  deriving DecidableEq

structure Peer where
  raftPeerAttr : RaftPeerAttribute
  appServiceAddresses : List String
  deriving DecidableEq

structure RequestContext where
  replyID : Nat
  sessionID : Nat
  sequenceNum : Nat
  lowestSeqNumNotYetReplied : Nat
  deriving DecidableEq

structure RegisterSessionRequest where
  unregister : Bool
  sessionID : Nat
  deriving DecidableEq

structure PubAppServiceRequest where
  pubServicePeerID : Nat
  appServiceAddresses : List String
  deriving DecidableEq

structure NormalRequest where
  context : RequestContext
  register : Option RegisterSessionRequest
  pubAppService : Option PubAppServiceRequest
  stateMachineLog : Bytes
  deriving DecidableEq

structure ConfChangeRequest where
  context : RequestContext
  groupID : Nat
  raftPeerAttr : RaftPeerAttribute
  promoteLearner : Bool
  deriving DecidableEq

inductive ConfChangeType
  | addNode
  | removeNode
  | updateNode
  | addLearnerNode
  deriving DecidableEq

structure ConfChange where
  type : ConfChangeType
  nodeID : Nat
  context : Bytes
  deriving DecidableEq

/-- The voters and learners of a node that is not in a joint configuration. -/
structure Configuration where
  voters : List Nat
  learners : List Nat
  deriving DecidableEq

def Configuration.confState (cfg : Configuration) : ConfState :=
  ⟨cfg.voters, cfg.learners, [], [], false⟩

/-- `ApplyConfChange` of the raft library for a change of one node, with what is used of it. It
panics (`none`) when no voter is left. An id of 0 stands for a change that the application has
refused. -/
structure ConfChanger where
  applyConfChange : Configuration → ConfChangeType → Nat → Option Configuration
  refused : ∀ {cfg cfg' type}, applyConfChange cfg type 0 = some cfg' → cfg' = cfg
  updated : ∀ {cfg cfg' id}, applyConfChange cfg .updateNode id = some cfg' → cfg' = cfg
  others : ∀ {cfg cfg' type id k}, applyConfChange cfg type id = some cfg' → k ≠ id →
    (k ∈ cfg'.voters ↔ k ∈ cfg.voters) ∧ (k ∈ cfg'.learners ↔ k ∈ cfg.learners)
  changed : ∀ {cfg cfg' type id}, applyConfChange cfg type id = some cfg' → id ≠ 0 →
    type ≠ .updateNode →
    (id ∈ cfg'.voters ↔ type = .addNode) ∧ (id ∈ cfg'.learners ↔ type = .addLearnerNode)

/-- The libraries that the entries of the log go to: the `Unmarshal` functions of their messages,
which are generated code, and the raft library for changes of the configuration. -/
structure RequestCodecs where
  normalRequest : Bytes → Option NormalRequest
  confChange : Bytes → Option ConfChange
  confChangeRequest : Bytes → Option ConfChangeRequest
  raft : ConfChanger

inductive ClusterError
  | peerIDRemoved
  | peerIDExists
  | peerIDNotFound
  | peerNotLearner
  | peerRaftListenAddrExists
  deriving DecidableEq

inductive SessionError
  | notFound (sessionID : Nat)
  | alreadyExists (sessionID : Nat)
  | sequenceNumberExists (sequenceNum : Nat)
  deriving DecidableEq

inductive ApplyError
  | session (e : SessionError)
  | cluster (e : ClusterError)
  | resultNotFound (sessionID sequenceNum : Nat)
  | stateMachine (text : String)
  deriving DecidableEq

inductive Response (R : Type)
  /-- A `*raftpb.ConfState`, which may be nil. -/
  | confState (cs : Option ConfState)
  | clusterError (e : ClusterError)
  | value (r : R)
  deriving DecidableEq

structure ApplyResult (R : Type) where
  logIndex : Nat
  response : Option (Response R)
  error : Option ApplyError
  deriving DecidableEq

variable {R : Type}

def ApplyResult.empty : ApplyResult R := ⟨0, none, none⟩

def ApplyResult.isEmpty (ar : ApplyResult R) : Bool :=
  ar.logIndex == 0 && ar.response.isNone && ar.error.isNone

@[simp] theorem ApplyResult.isEmpty_empty : (ApplyResult.empty : ApplyResult R).isEmpty = true :=
  rfl

theorem ApplyResult.isEmpty_error (index : Nat) (response : Option (Response R)) (e : ApplyError) :
    (⟨index, response, some e⟩ : ApplyResult R).isEmpty = false := by
  simp [isEmpty]

/-- `ibabuza.Entry`, what a state machine is given to apply. -/
structure Command where
  term : Nat
  index : Nat
  command : Bytes
  deriving DecidableEq

abbrev StateMachine (σ R : Type) := σ → Command → σ × ApplyResult R

end Babuza
