import Babuza.Lib.Bytes
import Babuza.Lib.Run

/-!
# The requests of one TCP connection

A connection of the server has one request struct of each kind, and every frame is unmarshalled into
the struct of its kind (`session.messageHandler`, `pkg/transport/protocol/tcp/raft_msg_server.go`).
Generated code merges: a field that the frame lacks keeps its value, the elements of a repeated
field are appended. The handler clears some fields behind the call and leaves the others as they
are, so that a request can carry what an earlier one left.
-/

namespace Babuza.Transport.Tcp

open Lib List

/-! ## Requests -/

/-- A field of a Go struct. -/
abbrev Stored (α : Type) := α

/-- What the bytes of a frame do to an embedded message. -/
abbrev Merge (α : Type) := α → α

-- The fields of a struct are `Stored`; a frame has an `Option` of a number, `Merge` of a message

structure BatchMessage (F : Type → Type) (M : Type) where
  clusterID : F Nat
  messages : List M

structure SnapshotMessage (F G : Type → Type) (D C M : Type) where
  clusterID : F Nat
  groupID : F Nat
  fromID : F Nat
  toID : F Nat
  term : F Nat
  index : F Nat
  type : F Nat
  metadata : G D
  chunkMessage : G C
  finishMessage : G M

structure GetClusterPeersRequest (F : Type → Type) where
  clusterID : F Nat
  groupID : F Nat
  fromID : F Nat
  toID : F Nat

structure PublishApplicationServiceRequest (F : Type → Type) where
  clusterID : F Nat
  groupID : F Nat
  fromID : F Nat
  toID : F Nat
  proposalReplyID : F Nat
  appServiceAddresses : List String

variable {F G : Type → Type} {D C M : Type}

def SnapshotMessage.numbers (m : SnapshotMessage F G D C M) : List (F Nat) :=
  [m.clusterID, m.groupID, m.fromID, m.toID, m.term, m.index, m.type]

def GetClusterPeersRequest.numbers (r : GetClusterPeersRequest F) : List (F Nat) :=
  [r.clusterID, r.groupID, r.fromID, r.toID]

def PublishApplicationServiceRequest.numbers (r : PublishApplicationServiceRequest F) :
    List (F Nat) :=
  [r.clusterID, r.groupID, r.fromID, r.toID, r.proposalReplyID]

def BatchMessage.unmarshal (m : BatchMessage Stored M) (d : BatchMessage Option M) :
    BatchMessage Stored M :=
  ⟨d.clusterID.getD m.clusterID, m.messages ++ d.messages⟩

def SnapshotMessage.unmarshal (m : SnapshotMessage Stored Stored D C M)
    (d : SnapshotMessage Option Merge D C M) : SnapshotMessage Stored Stored D C M :=
  ⟨d.clusterID.getD m.clusterID, d.groupID.getD m.groupID, d.fromID.getD m.fromID,
    d.toID.getD m.toID, d.term.getD m.term, d.index.getD m.index, d.type.getD m.type,
    d.metadata m.metadata, d.chunkMessage m.chunkMessage, d.finishMessage m.finishMessage⟩

def GetClusterPeersRequest.unmarshal (r : GetClusterPeersRequest Stored)
    (d : GetClusterPeersRequest Option) : GetClusterPeersRequest Stored :=
  ⟨d.clusterID.getD r.clusterID, d.groupID.getD r.groupID, d.fromID.getD r.fromID,
    d.toID.getD r.toID⟩

def PublishApplicationServiceRequest.unmarshal (r : PublishApplicationServiceRequest Stored)
    (d : PublishApplicationServiceRequest Option) : PublishApplicationServiceRequest Stored :=
  ⟨d.clusterID.getD r.clusterID, d.groupID.getD r.groupID, d.fromID.getD r.fromID,
    d.toID.getD r.toID, d.proposalReplyID.getD r.proposalReplyID,
    r.appServiceAddresses ++ d.appServiceAddresses⟩

inductive HandlerError
  | unmarshal
  | unsupportedMessageType (msgType : Nat)

/-- The generated code: what the bytes of a frame hold, unless they are no message. -/
structure RequestCodec (D C M : Type) where
  batchMessage : Bytes → Except HandlerError (BatchMessage Option M)
  snapshotMessage : Bytes → Except HandlerError (SnapshotMessage Option Merge D C M)
  getClusterPeersRequest : Bytes → Except HandlerError (GetClusterPeersRequest Option)
  publishApplicationServiceRequest :
    Bytes → Except HandlerError (PublishApplicationServiceRequest Option)

structure Session (D C M : Type) where
  batchMsg : BatchMessage Stored M
  snapshotMsg : SnapshotMessage Stored Stored D C M
  getClusterPeersReq : GetClusterPeersRequest Stored
  pubAppServiceReq : PublishApplicationServiceRequest Stored

inductive Request (D C M : Type)
  | processBatchMessage (m : BatchMessage Stored M)
  | processSnapshotMessage (m : SnapshotMessage Stored Stored D C M)
  | getClusterPeer (r : GetClusterPeersRequest Stored)
  | publishApplicationService (r : PublishApplicationServiceRequest Stored)

variable [Inhabited D] [Inhabited C] [Inhabited M] (codec : RequestCodec D C M)

/-- `newSession`: the zero value of every struct. -/
def newSession : Session D C M :=
  ⟨⟨0, []⟩, ⟨0, 0, 0, 0, 0, 0, 0, default, default, default⟩, ⟨0, 0, 0, 0⟩, ⟨0, 0, 0, 0, 0, []⟩⟩

/-- `session.messageHandler` for a frame `(msgType, msgBuf)`: the call, and the structs behind it.
An answer that cannot be sent ends the connection. -/
def messageHandler (s : Session D C M) :
    Nat × Bytes → Except HandlerError (Request D C M × Session D C M)
  | (1, msgBuf) => (codec.batchMessage msgBuf).map fun d =>
    let m := s.batchMsg.unmarshal d
    (.processBatchMessage m, { s with batchMsg := { m with messages := [] } })
  | (2, msgBuf) => (codec.snapshotMessage msgBuf).map fun d =>
    let m := s.snapshotMsg.unmarshal d
    (.processSnapshotMessage m, { s with snapshotMsg :=
      { m with metadata := default, chunkMessage := default, finishMessage := default } })
  | (4, msgBuf) => (codec.getClusterPeersRequest msgBuf).map fun d =>
    let r := s.getClusterPeersReq.unmarshal d
    (.getClusterPeer r, { s with getClusterPeersReq := r })
  | (6, msgBuf) => (codec.publishApplicationServiceRequest msgBuf).map fun d =>
    let r := s.pubAppServiceReq.unmarshal d
    (.publishApplicationService r, { s with pubAppServiceReq := r })
  | (msgType, _) => .error (.unsupportedMessageType msgType)

/-- The loop of `session.start`, by one frame. -/
def serve (s : Session D C M) (f : Nat × Bytes) : Except HandlerError (Session D C M) :=
  (messageHandler codec s f).map Prod.snd

/-- The raft handler gets what a fresh connection would hand it for the frame. -/
def Independent (s : Session D C M) (f : Nat × Bytes) : Prop :=
  (messageHandler codec s f).map Prod.fst = (messageHandler codec newSession f).map Prod.fst

/-! ## What is left of earlier frames -/

def Renewed (set : Option Nat) (stored : Nat) : Prop := set = none → stored = 0

/-- The frame sets every number that an earlier frame of its kind has left, and no addresses are
left. -/
def Renews (s : Session D C M) : Nat × Bytes → Prop
  | (1, msgBuf) => ∀ d, codec.batchMessage msgBuf = .ok d → Renewed d.clusterID s.batchMsg.clusterID
  | (2, msgBuf) => ∀ d, codec.snapshotMessage msgBuf = .ok d →
      Forall₂ Renewed d.numbers s.snapshotMsg.numbers
  | (4, msgBuf) => ∀ d, codec.getClusterPeersRequest msgBuf = .ok d →
      Forall₂ Renewed d.numbers s.getClusterPeersReq.numbers
  | (6, msgBuf) => ∀ d, codec.publishApplicationServiceRequest msgBuf = .ok d →
      Forall₂ Renewed d.numbers s.pubAppServiceReq.numbers ∧
        s.pubAppServiceReq.appServiceAddresses = []
  | _ => True

/-- The fields that the handler clears behind every call. -/
structure Cleared (s : Session D C M) : Prop where
  messages : s.batchMsg.messages = []
  metadata : s.snapshotMsg.metadata = default
  chunkMessage : s.snapshotMsg.chunkMessage = default
  finishMessage : s.snapshotMsg.finishMessage = default

theorem map_map_fst_eq_iff {ε α β γ : Type} {x : Except ε α} {g h : α → β × γ} :
    (x.map g).map Prod.fst = (x.map h).map Prod.fst ↔ ∀ a, x = .ok a → (g a).1 = (h a).1 := by
  cases x with
  | error e | ok a => simp [Except.map]

variable {codec} {s s' : Session D C M} {f : Nat × Bytes}

theorem getD_eq_iff {set : Option Nat} {stored : Nat} :
    set.getD stored = set.getD 0 ↔ Renewed set stored := by
  cases set with
  | none | some v => simp [Renewed]

theorem Cleared.serve (h : Cleared s) (hserve : serve codec s f = .ok s') : Cleared s' := by
  obtain ⟨x, hhandler, rfl⟩ := map_eq_ok hserve
  obtain ⟨hmessages, hmetadata, hchunk, hfinish⟩ := h
  unfold messageHandler at hhandler
  split at hhandler <;> [skip; skip; skip; skip; cases hhandler]
  all_goals obtain ⟨d, -, rfl⟩ := map_eq_ok hhandler
  · exact ⟨rfl, hmetadata, hchunk, hfinish⟩
  · exact ⟨hmessages, rfl, rfl, rfl⟩
  all_goals exact ⟨hmessages, hmetadata, hchunk, hfinish⟩

theorem independent_iff (h : Cleared s) : Independent codec s f ↔ Renews codec s f := by
  obtain ⟨hmessages, hmetadata, hchunk, hfinish⟩ := h
  unfold Independent messageHandler
  split
  · simp [map_map_fst_eq_iff, Renews, BatchMessage.unmarshal, newSession, hmessages, getD_eq_iff]
  · simp [map_map_fst_eq_iff, Renews, SnapshotMessage.unmarshal, SnapshotMessage.numbers,
      newSession, hmetadata, hchunk, hfinish, getD_eq_iff]
  · simp [map_map_fst_eq_iff, Renews, GetClusterPeersRequest.unmarshal,
      GetClusterPeersRequest.numbers, newSession, getD_eq_iff]
  · simp [map_map_fst_eq_iff, Renews, PublishApplicationServiceRequest.unmarshal,
      PublishApplicationServiceRequest.numbers, newSession, getD_eq_iff, and_assoc]
  · exact iff_of_true rfl (by unfold Renews; split <;> simp_all)

/-- Each request of a connection is the one of its frame alone just when every frame sets all that
earlier ones have left. -/
theorem requests_independent_iff (frames : List (Nat × Bytes)) :
    Throughout (serve codec) (Independent codec) newSession frames ↔
      Throughout (serve codec) (Renews codec) newSession frames :=
  throughout_iff (fun _ => independent_iff) (fun _ h _ hserve => h.serve hserve) ⟨rfl, rfl, rfl,
    rfl⟩

def publications : RequestCodec Unit Unit Unit :=
  ⟨fun _ => .error .unmarshal, fun _ => .error .unmarshal, fun _ => .error .unmarshal, fun msgBuf =>
    .ok ⟨some 1, some 0, some 2, some 3, some 4, [toString msgBuf.length]⟩⟩

/-- The second publication carries the address of the first one as well. -/
theorem publication_repeats_address :
    ¬ Throughout (serve publications) (Independent publications) newSession
      [(6, [0]), (6, [0, 0])] := by
  intro h
  have := (h.2 _ rfl).1
  simp [Independent, messageHandler, publications, Except.map, newSession,
    PublishApplicationServiceRequest.unmarshal] at this

end Babuza.Transport.Tcp
