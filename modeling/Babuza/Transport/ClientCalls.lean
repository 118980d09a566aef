import Babuza.Ibabuza

/-!
# Calls of the transport clients

`SendSnapshotMessage`, `GetClusterPeers` and `PublishApplicationService` of the TCP and of the HTTP
client (`pkg/transport/protocol`, `raft_msg_client.go`), with what the sender of a snapshot
(`peer.go`) and the publisher of the application service (`raft_publish_service.go`) make of their
results. The zero response says `SUCCESS`, and two of the six functions return it with a nil error
for a request that was not sent. The publisher does not look at the error at all.
-/

namespace Babuza.Transport.Calls

inductive RpcStatus
  | success
  | rejected
  | failed
  deriving DecidableEq

/-- A response: `X` is what it has besides the status and the message. -/
structure Response (X : Type) where
  status : RpcStatus
  message : String
  rest : X
  deriving DecidableEq

/-- How far a request gets, with the error of the stage that fails. -/
inductive Exchange (R : Type)
  /-- `ResolvePeerAddress` fails. -/
  | unresolved (err : String)
  /-- `pool.Get`, or `http.NewRequest`, fails. -/
  | unconnected (err : String)
  /-- `SendFrame`, or `client.Do`, fails. -/
  | unsent (err : String)
  /-- A frame of another type, or another status code than 200, comes back. -/
  | unexpected (code : Nat)
  /-- The response breaks off: what was decoded of it. -/
  | undecoded (res : R) (err : String)
  /-- The response of the server comes back. -/
  | answered (res : R)
  deriving DecidableEq

variable {X R : Type}

def Exchange.answer? : Exchange R → Option R
  | answered res => some res
  | _ => none

namespace Tcp

/-- `GetClusterPeers` and `PublishApplicationService`. -/
def request (zero : R) : Exchange R → R × Option String
  | .unresolved err => (zero, some ("failed to resolve peer address: " ++ err))
  | .unconnected err => (zero, some ("failed to get connection from pool: " ++ err))
  | .unsent err => (zero, some err)
  | .unexpected msgType => (zero, some ("unexpected message type: " ++ toString msgType))
  | .undecoded res err => (res, some err)
  | .answered res => (res, none)

def sendSnapshotMessage (zero : R) : Exchange R → R × Option String
  -- `return res, nil`
  | .unsent _ => (zero, none)
  | x => request zero x

end Tcp

namespace Http

/-- `SendSnapshotMessage` and `GetClusterPeers`, which differ in the text for a status code. -/
def request (text : Nat → String) (zero : R) : Exchange R → R × Option String
  | .unresolved err | .unconnected err | .unsent err => (zero, some err)
  | .unexpected statusCode => (zero, some (text statusCode))
  | .undecoded res err => (res, some err)
  | .answered res => (res, none)

def publishApplicationService (zero : R) : Exchange R → R × Option String
  -- `return resp, nil`
  | .unresolved _ | .unconnected _ | .unsent _ => (zero, none)
  | .unexpected statusCode => (zero, some ("unexpected status code: " ++ toString statusCode))
  | .undecoded res _ | .answered res => (res, none)

end Http

inductive Client
  | tcp
  | http

def zero (rest : X) : Response X := ⟨.success, "", rest⟩

namespace Client

def sendSnapshotMessage (x : Exchange (Response Unit)) : Client → Response Unit × Option String
  | tcp => Tcp.sendSnapshotMessage (zero ()) x
  | http => Http.request (fun _ => "unexpected status code") (zero ()) x

def getClusterPeers (x : Exchange (Response (List Peer))) :
    Client → Response (List Peer) × Option String
  | tcp => Tcp.request (zero []) x
  | http => Http.request (fun code => "unexpected status code: " ++ toString code) (zero []) x

def publishApplicationService (x : Exchange (Response Unit)) :
    Client → Response Unit × Option String
  | tcp => Tcp.request (zero ()) x
  | http => Http.publishApplicationService (zero ()) x

end Client

/-- `sendSnapshotMsg` with the result of its call: the error, unless the message counts as sent. -/
def sendSnapshotMsg (result : Response Unit × Option String) : Option String :=
  match result.2 with
  | some err => some err
  | none => if result.1.status ≠ .success then some result.1.message else none

inductive Publication
  /-- Wait for the result of the proposal. -/
  | wait
  /-- Return the error, on which `applicationServiceStart` tries again. -/
  | fail (message : String)
  deriving DecidableEq

/-- `sendPubAppServiceMsgToLeader` with the result of its call. -/
def sendPubAppServiceMsgToLeader (result : Response Unit × Option String) : Publication :=
  if result.1.status = .success then .wait else .fail result.1.message

/-! ## Which failures are seen -/

def Reports (x : Exchange R) (result : R × Option String) : Prop :=
  result.2 = none → x.answer? = some result.1

/-- The calls report their failures, a message of a snapshot counts as sent only with an answer, and
the publisher waits for the result of answered requests only. -/
structure FailuresSeen (client : Client) (snapshot publish : Exchange (Response Unit))
    (peers : Exchange (Response (List Peer))) : Prop where
  sendSnapshotMessage : Reports snapshot (client.sendSnapshotMessage snapshot)
  getClusterPeers : Reports peers (client.getClusterPeers peers)
  publishApplicationService : Reports publish (client.publishApplicationService publish)
  sender : sendSnapshotMsg (client.sendSnapshotMessage snapshot) = none → snapshot.answer?.isSome
  publisher : sendPubAppServiceMsgToLeader (client.publishApplicationService publish) = .wait →
    publish.answer?.isSome

/-- The exchanges that hide no failure: over TCP a message of a snapshot is sent once there is a
connection, and a publication is answered or breaks off behind a status that is not `SUCCESS`. -/
def Plain (snapshot publish : Exchange (Response Unit)) : Client → Prop
  | .tcp => (∀ err, snapshot ≠ .unsent err) ∧
      (publish.answer?.isSome ∨
        ∃ res err, publish = .undecoded res err ∧ res.status ≠ .success)
  | .http => publish.answer?.isSome

theorem request_reports (x : Exchange R) (o : R) : Reports x (Tcp.request o x) := by
  cases x <;> simp [Reports, Tcp.request, Exchange.answer?]

theorem http_request_reports (x : Exchange R) (text : Nat → String) (o : R) :
    Reports x (Http.request text o x) := by
  cases x <;> simp [Reports, Http.request, Exchange.answer?]

theorem sendSnapshotMessage_reports_iff (x : Exchange R) (o : R) :
    Reports x (Tcp.sendSnapshotMessage o x) ↔ ∀ err, x ≠ .unsent err := by
  cases x with
  | unsent err => simp [Reports, Tcp.sendSnapshotMessage, Exchange.answer?]
  | _ => exact iff_of_true (request_reports _ o) (by simp)

variable {result : Response Unit × Option String}

theorem isSome_of_reports {x : Exchange (Response Unit)} (h : Reports x result)
    (hsent : sendSnapshotMsg result = none) : x.answer?.isSome := by
  obtain ⟨res, _ | err⟩ := result
  · rw [h rfl]
    rfl
  · cases hsent

theorem wait_iff : sendPubAppServiceMsgToLeader result = .wait ↔ result.1.status = .success := by
  unfold sendPubAppServiceMsgToLeader
  split <;> simp_all

theorem publisher_tcp_iff (x : Exchange (Response Unit)) :
    (sendPubAppServiceMsgToLeader (Client.tcp.publishApplicationService x) = .wait →
      x.answer?.isSome) ↔
      x.answer?.isSome ∨ ∃ res err, x = .undecoded res err ∧ res.status ≠ .success := by
  rw [wait_iff]
  cases x <;> simp [Client.publishApplicationService, Tcp.request, zero, Exchange.answer?]

theorem publisher_http (x : Exchange (Response Unit))
    (hreports : Reports x (Client.http.publishApplicationService x))
    (hpublisher : sendPubAppServiceMsgToLeader (Client.http.publishApplicationService x) = .wait →
      x.answer?.isSome) :
    x.answer?.isSome := by
  cases x with
  | unexpected code => exact hpublisher rfl
  | _ =>
    rw [hreports rfl]
    rfl

/-- The failures of the calls are seen just in the exchanges that hide none. -/
theorem failuresSeen_iff (client : Client) (snapshot publish : Exchange (Response Unit))
    (peers : Exchange (Response (List Peer))) :
    FailuresSeen client snapshot publish peers ↔ Plain snapshot publish client := by
  cases client with
  | tcp =>
    constructor
    · intro h
      exact ⟨(sendSnapshotMessage_reports_iff ..).mp h.sendSnapshotMessage,
        (publisher_tcp_iff publish).mp h.publisher⟩
    · intro h
      have hsnapshot := (sendSnapshotMessage_reports_iff snapshot (zero ())).mpr h.1
      exact ⟨hsnapshot, request_reports _ _, request_reports _ _, isSome_of_reports hsnapshot,
        (publisher_tcp_iff publish).mpr h.2⟩
  | http =>
    constructor
    · exact fun h => publisher_http publish h.publishApplicationService h.publisher
    · intro h
      have hsnapshot := http_request_reports snapshot (fun _ => "unexpected status code") (zero ())
      refine ⟨hsnapshot, http_request_reports _ _ _, fun _ => ?_, isSome_of_reports hsnapshot,
        fun _ => h⟩
      obtain ⟨res, hanswer⟩ := Option.isSome_iff_exists.mp h
      cases publish with
      | answered res => rfl
      | _ => cases hanswer

/-- Over TCP a chunk that cannot be sent counts as sent. Over HTTP a publication is waited for whose
leader cannot be resolved. -/
theorem unsent_counts_as_sent :
    ¬ FailuresSeen .tcp (.unsent "broken pipe") (.answered (zero ())) (.answered (zero [])) ∧
      ¬ FailuresSeen .http (.answered (zero ())) (.unresolved "unknown peer")
        (.answered (zero [])) :=
  ⟨fun h => Bool.noConfusion (h.sender rfl), fun h => Bool.noConfusion (h.publisher rfl)⟩

end Babuza.Transport.Calls
