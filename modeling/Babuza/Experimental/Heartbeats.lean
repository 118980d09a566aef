import Babuza.Raftpb
import Babuza.Transport.PeerManager
import Mathlib.Data.List.TakeWhile

/-!
# Coalesced heartbeats

The groups of a store do not send their heartbeats one by one. `sendRaftMessage` puts them into a
queue for the address of the target, and `SendHeartbeat` sends what has gathered there in one
message of a batch. This wrapper has room for one target id, which is that of the first heartbeat,
although the groups may know the receiving store under different ids. The receiver validates every
heartbeat with the id of the wrapper, and leaves the whole batch at the first message that fails.
-/

namespace Babuza.Experimental

open Transport List

structure MultiRaftHeartbeatMessage where
  groupID : Nat
  fromPeerID : Nat
  toPeerID : Nat
  term : Nat
  commit : Nat
  context : Lib.Bytes
  deriving DecidableEq

structure MultiRaftMessage where
  groupID : Nat
  message : Message
  heartbeatMessages : List MultiRaftHeartbeatMessage
  heartbeatResponseMessages : List MultiRaftHeartbeatMessage
  deriving DecidableEq

/-- What `sendRaftMessage` puts into the queue for a heartbeat or its response. -/
def coalesce (groupID : Nat) (m : Message) : MultiRaftHeartbeatMessage :=
  ⟨groupID, m.fromID, m.toID, m.term, m.commit, m.context⟩

/-- The queues of heartbeats and of responses, by the address of the receiver. -/
structure CoalescedHeartbeatQueue where
  heartbeatMsg : String → List MultiRaftHeartbeatMessage
  heartbeatRespMsg : String → List MultiRaftHeartbeatMessage

/-- `sendRaftMessage` for one heartbeat or response; without an address it is dropped. -/
def queueHeartbeat (peers : PeerManager) (groupID : Nat) (q : CoalescedHeartbeatQueue)
    (m : Message) : CoalescedHeartbeatQueue :=
  match peers.resolvePeerAddress groupID m.toID with
  | .error _ => q
  | .ok address =>
    match m.type with
    | .heartbeat => { q with
        heartbeatMsg := Function.update q.heartbeatMsg address
          (q.heartbeatMsg address ++ [coalesce groupID m]) }
    | .heartbeatResp => { q with
        heartbeatRespMsg := Function.update q.heartbeatRespMsg address
          (q.heartbeatRespMsg address ++ [coalesce groupID m]) }
    | _ => q

/-- `SendHeartbeat`: what is handed to the peer. -/
def sendHeartbeat (heartbeats heartbeatResponse : List MultiRaftHeartbeatMessage) :
    List MultiRaftMessage :=
  (match heartbeats with
    | [] => []
    | h :: _ =>
      [⟨h.groupID, { Message.empty .heartbeat with toID := h.toPeerID }, heartbeats, []⟩]) ++
  (match heartbeatResponse with
    | [] => []
    | h :: _ =>
      [⟨h.groupID, { Message.empty .heartbeatResp with toID := h.toPeerID }, [],
        heartbeatResponse⟩])

/-- What `validateRequest` reads of a replica. -/
structure ReplicaIds where
  clusterID : Nat
  localPeerID : Nat
  deriving DecidableEq

abbrev ReplicaSet := AList fun _ : Nat => ReplicaIds

def validateRequest (s : ReplicaSet) (groupID clusterID peerID : Nat) : Bool :=
  match s.lookup groupID with
  | none => false
  | some r => clusterID = r.clusterID && peerID = r.localPeerID

def stepMessage (type : MessageType) (m : MultiRaftHeartbeatMessage) : Message :=
  { Message.empty type with
    toID := m.toPeerID
    fromID := m.fromPeerID
    term := m.term
    commit := m.commit
    context := m.context }

/-- The loop over the heartbeats of one message: the calls of `enqueueStep`, and whether the loop
came to its end. -/
def processHeartbeats (s : ReplicaSet) (clusterID target : Nat) (type : MessageType) :
    List MultiRaftHeartbeatMessage → List (Nat × Message) × Bool
  | [] => ([], true)
  | m :: ms =>
    if validateRequest s m.groupID clusterID target then
      let (calls, finished) := processHeartbeats s clusterID target type ms
      ((m.groupID, stepMessage type m) :: calls, finished)
    else ([], false)

def processMessage (s : ReplicaSet) (clusterID : Nat) (msg : MultiRaftMessage) :
    List (Nat × Message) × Bool :=
  match msg.message.type with
  | .heartbeat =>
    processHeartbeats s clusterID msg.message.toID .heartbeat msg.heartbeatMessages
  | .heartbeatResp =>
    processHeartbeats s clusterID msg.message.toID .heartbeatResp msg.heartbeatResponseMessages
  | _ =>
    if validateRequest s msg.groupID clusterID msg.message.toID then
      ([(msg.groupID, msg.message)], true)
    else ([], false)

/-- `ProcessMultiRaftMessage`: the calls of `enqueueStep`, in order. -/
def processMultiRaftMessage (s : ReplicaSet) (clusterID : Nat) :
    List MultiRaftMessage → List (Nat × Message)
  | [] => []
  | msg :: msgs =>
    let (calls, finished) := processMessage s clusterID msg
    calls ++ (if finished then processMultiRaftMessage s clusterID msgs else [])

/-- A message for a group, and the target under which the receiver validates it. -/
structure Addressed where
  groupID : Nat
  target : Nat
  message : Message
  deriving DecidableEq

def carried (msg : MultiRaftMessage) : List Addressed :=
  match msg.message.type with
  | .heartbeat => msg.heartbeatMessages.map fun m =>
      ⟨m.groupID, msg.message.toID, stepMessage .heartbeat m⟩
  | .heartbeatResp => msg.heartbeatResponseMessages.map fun m =>
      ⟨m.groupID, msg.message.toID, stepMessage .heartbeatResp m⟩
  | _ => [⟨msg.groupID, msg.message.toID, msg.message⟩]

namespace Addressed

/-- The message is for a replica of the store, by its own target. -/
def Valid (s : ReplicaSet) (clusterID : Nat) (x : Addressed) : Bool :=
  validateRequest s x.groupID clusterID x.message.toID

/-- The wrapper's target is the id of the replica. -/
def TargetFits (s : ReplicaSet) (clusterID : Nat) (x : Addressed) : Bool :=
  validateRequest s x.groupID clusterID x.target

def step (x : Addressed) : Nat × Message := (x.groupID, x.message)

end Addressed

theorem processHeartbeats_eq (s : ReplicaSet) (clusterID target : Nat) (type : MessageType)
    (ms : List MultiRaftHeartbeatMessage) :
    let xs := ms.map fun m => (⟨m.groupID, target, stepMessage type m⟩ : Addressed)
    processHeartbeats s clusterID target type ms =
      ((xs.takeWhile (·.TargetFits s clusterID)).map (·.step),
        xs.all (·.TargetFits s clusterID)) := by
  induction ms with
  | nil => rfl
  | cons m ms ih =>
    simp only [processHeartbeats, map_cons, takeWhile_cons, all_cons,
      Addressed.TargetFits] at ih ⊢
    by_cases h : validateRequest s m.groupID clusterID target
    · simp [h, ih, Addressed.step]
    · simp [h]

theorem processMessage_eq (s : ReplicaSet) (clusterID : Nat) (msg : MultiRaftMessage) :
    processMessage s clusterID msg =
      (((carried msg).takeWhile (·.TargetFits s clusterID)).map (·.step),
        (carried msg).all (·.TargetFits s clusterID)) := by
  unfold processMessage carried
  split
  · exact processHeartbeats_eq ..
  · exact processHeartbeats_eq ..
  · by_cases h : validateRequest s msg.groupID clusterID msg.message.toID
    · simp [Addressed.TargetFits, h, Addressed.step]
    · simp [Addressed.TargetFits, h]

theorem processMultiRaftMessage_eq (s : ReplicaSet) (clusterID : Nat)
    (msgs : List MultiRaftMessage) :
    processMultiRaftMessage s clusterID msgs =
      ((msgs.flatMap carried).takeWhile (·.TargetFits s clusterID)).map (·.step) := by
  induction msgs with
  | nil => rfl
  | cons msg msgs ih =>
    rw [processMultiRaftMessage, processMessage_eq, flatMap_cons]
    simp only
    by_cases hall : (carried msg).all (·.TargetFits s clusterID)
    · have hfits := all_eq_true.mp hall
      rw [if_pos hall, ih, takeWhile_append_of_pos hfits, map_append,
        takeWhile_eq_self_iff.mpr hfits]
    · rw [if_neg hall, append_nil, takeWhile_append, if_neg]
      intro hlength
      refine hall (all_eq_true.mpr ?_)
      exact takeWhile_eq_self_iff.mp ((takeWhile_sublist _).eq_of_length hlength)

/-- The elements before the first that fails `c` are those that satisfy `v`, exactly if `c` holds up
to the first failure of `v`, fails there, and nothing behind it satisfies `v`. -/
theorem map_takeWhile_eq_map_filter_iff {α β : Type} {f : α → β} {c v : α → Bool}
    (hv : ∀ x y, f x = f y → v x = v y) (l : List α) :
    (l.takeWhile c).map f = (l.filter v).map f ↔
      (∀ x ∈ l.takeWhile v, c x) ∧ (∀ x ∈ (l.dropWhile v).head?, ¬ c x) ∧
        ∀ x ∈ l.dropWhile v, ¬ v x := by
  induction l with
  | nil => simp
  | cons a l ih =>
    by_cases hc : c a
    · by_cases hva : v a
      · simp only [takeWhile_cons, filter_cons, dropWhile_cons, hc, hva, if_true,
          map_cons, List.cons.injEq, true_and, mem_cons, forall_eq_or_imp]
        exact ih
      · simp only [takeWhile_cons, filter_cons, dropWhile_cons, hc, hva, if_true,
          map_cons]
        constructor
        · intro heq
          have hmem : f a ∈ (l.filter v).map f := by
            simp only [Bool.false_eq_true, if_false] at heq
            rw [← heq]
            exact mem_cons_self
          obtain ⟨y, hy, hfy⟩ := mem_map.mp hmem
          exact absurd ((hv y a hfy).symm.trans (mem_filter.mp hy).2) hva
        · rintro ⟨-, hhead, -⟩
          exact absurd hc (hhead a rfl)
    · by_cases hva : v a <;> simp [hc, hva]

/-! ## What the sender hands over -/

/-- The message is of the type and its target is at the address. -/
def goesTo (peers : PeerManager) (type : MessageType) (address : String) (x : Nat × Message) :
    Bool :=
  x.2.type = type && peers.resolvePeerAddress x.1 x.2.toID = .ok address

/-- What a heartbeat or its response consists of. -/
def heartbeatPart (m : Message) : Message :=
  { Message.empty m.type with
    toID := m.toID, fromID := m.fromID, term := m.term, commit := m.commit, context := m.context }

theorem goesTo_type {peers : PeerManager} {type : MessageType} {address : String}
    {x : Nat × Message} (h : goesTo peers type address x = true) : x.2.type = type := by
  unfold goesTo at h
  rw [Bool.and_eq_true] at h
  exact of_decide_eq_true h.1

theorem stepMessage_coalesce {groupID : Nat} {m : Message} {type : MessageType}
    (h : m.type = type) : stepMessage type (coalesce groupID m) = heartbeatPart m := by
  rw [← h]
  rfl

theorem queueHeartbeat_foldl (peers : PeerManager) (address : String) (sent : List (Nat × Message))
    (q : CoalescedHeartbeatQueue) :
    let q' := sent.foldl (fun q x => queueHeartbeat peers x.1 q x.2) q
    q'.heartbeatMsg address = q.heartbeatMsg address ++
        (sent.filter (goesTo peers .heartbeat address)).map (fun x => coalesce x.1 x.2) ∧
      q'.heartbeatRespMsg address = q.heartbeatRespMsg address ++
        (sent.filter (goesTo peers .heartbeatResp address)).map (fun x => coalesce x.1 x.2) := by
  induction sent generalizing q with
  | nil => simp
  | cons x sent ih =>
    obtain ⟨hheartbeats, hresponses⟩ := ih (queueHeartbeat peers x.1 q x.2)
    simp only [foldl_cons, filter_cons]
    rw [hheartbeats, hresponses]
    unfold queueHeartbeat goesTo
    cases hresolve : peers.resolvePeerAddress x.1 x.2.toID with
    | error e => simp
    | ok a =>
      by_cases ha : a = address
      · subst ha
        cases htype : x.2.type <;> simp
      · cases htype : x.2.type <;> simp [ha, Ne.symm ha]

theorem carried_sendHeartbeat (heartbeats responses : List MultiRaftHeartbeatMessage) :
    ((sendHeartbeat heartbeats responses).flatMap carried).map (·.step) =
      heartbeats.map (fun m => (m.groupID, stepMessage .heartbeat m)) ++
        responses.map (fun m => (m.groupID, stepMessage .heartbeatResp m)) := by
  unfold sendHeartbeat
  rw [flatMap_append, map_append]
  cases heartbeats <;> cases responses <;>
    simp [carried, Message.empty, Addressed.step, Function.comp_def]

/-- `ProcessMultiRaftMessage` enqueues exactly the valid messages of a batch, exactly if the
wrappers have the right targets up to the first invalid message, a wrong one there, and no valid
message comes behind it. The heartbeats that were queued for an address are carried unchanged in any
case. -/
theorem coalesced_heartbeats_iff (s : ReplicaSet) (clusterID : Nat) (msgs : List MultiRaftMessage) :
    (processMultiRaftMessage s clusterID msgs =
        ((msgs.flatMap carried).filter (·.Valid s clusterID)).map (·.step) ↔
      (∀ x ∈ (msgs.flatMap carried).takeWhile (·.Valid s clusterID), x.TargetFits s clusterID) ∧
      (∀ x ∈ ((msgs.flatMap carried).dropWhile (·.Valid s clusterID)).head?,
        ¬ x.TargetFits s clusterID) ∧
      ∀ x ∈ (msgs.flatMap carried).dropWhile (·.Valid s clusterID), ¬ x.Valid s clusterID) ∧
    ∀ (peers : PeerManager) (sent : List (Nat × Message)) (address : String),
      let q := sent.foldl (fun q x => queueHeartbeat peers x.1 q x.2) ⟨fun _ => [], fun _ => []⟩
      ((sendHeartbeat (q.heartbeatMsg address) (q.heartbeatRespMsg address)).flatMap carried).map
          (·.step) =
        (sent.filter (goesTo peers .heartbeat address)).map (fun x => (x.1, heartbeatPart x.2)) ++
        (sent.filter (goesTo peers .heartbeatResp address)).map
          (fun x => (x.1, heartbeatPart x.2)) := by
  constructor
  · rw [processMultiRaftMessage_eq]
    apply map_takeWhile_eq_map_filter_iff
    intro x y heq
    obtain ⟨hgroup, hmessage⟩ := Prod.mk.inj heq
    unfold Addressed.Valid
    rw [hgroup, hmessage]
  · intro peers sent address q
    obtain ⟨hheartbeats, hresponses⟩ := queueHeartbeat_foldl peers address sent
      ⟨fun _ => [], fun _ => []⟩
    rw [nil_append] at hheartbeats hresponses
    rw [hheartbeats, hresponses, carried_sendHeartbeat]
    simp only [map_map]
    congr 1
    all_goals
      refine map_congr_left fun x hx => ?_
      simp only [Function.comp_apply, stepMessage_coalesce (goesTo_type (mem_filter.mp hx).2)]
      rfl

/-- A store that is peer 2 of group 1 and peer 3 of group 2, in cluster 9. -/
def twoGroups : ReplicaSet := ((∅ : ReplicaSet).insert 1 ⟨9, 2⟩).insert 2 ⟨9, 3⟩

def twoHeartbeats : List MultiRaftMessage :=
  sendHeartbeat [⟨1, 1, 2, 5, 4, []⟩, ⟨2, 1, 3, 5, 4, []⟩] []

theorem second_heartbeat_dropped :
    ((twoHeartbeats.flatMap carried).map (·.Valid twoGroups 9) = [true, true]) ∧
      processMultiRaftMessage twoGroups 9 twoHeartbeats =
        [(1, { Message.empty .heartbeat with
          toID := 2, fromID := 1, term := 5, commit := 4 })] := by
  constructor
  · decide
  · decide

/-! ## Reports of unreachable peers -/

namespace MultiRaftMessage

/-- `reportUnreachable` of `pkg/transport/peer/multiraft_peer.go`: the calls of
`ReportUnreachable`. -/
def reportUnreachable (msg : MultiRaftMessage) : List (Nat × Nat) :=
  match msg.message.type with
  | .heartbeat | .heartbeatResp =>
    (msg.heartbeatMessages ++ msg.heartbeatResponseMessages).map (·.groupID, msg.message.toID)
  | _ => [(msg.groupID, msg.message.toID)]

/-- The groups and peers that a message was for. -/
def targets (msg : MultiRaftMessage) : List (Nat × Nat) :=
  match msg.message.type with
  | .heartbeat | .heartbeatResp =>
    (msg.heartbeatMessages ++ msg.heartbeatResponseMessages).map fun m => (m.groupID, m.toPeerID)
  | _ => [(msg.groupID, msg.message.toID)]

/-- All heartbeats are for the peer of the wrapper. -/
def OneTarget (msg : MultiRaftMessage) : Prop :=
  msg.message.type = .heartbeat ∨ msg.message.type = .heartbeatResp →
    ∀ m ∈ msg.heartbeatMessages ++ msg.heartbeatResponseMessages, m.toPeerID = msg.message.toID

theorem reportUnreachable_eq_iff (msg : MultiRaftMessage) :
    msg.reportUnreachable = msg.targets ↔ msg.OneTarget := by
  unfold reportUnreachable targets OneTarget
  split
  · rename_i htype
    simp only [htype, map_inj_left, Prod.mk.injEq, true_and, true_or, forall_const, eq_comm]
  · rename_i htype
    simp only [htype, map_inj_left, Prod.mk.injEq, true_and, or_true, forall_const, eq_comm]
  · rename_i hbeat hresp
    exact iff_of_true rfl fun h => absurd h (not_or.mpr ⟨hbeat, hresp⟩)

theorem length_reportUnreachable (msg : MultiRaftMessage) :
    msg.reportUnreachable.length = msg.targets.length := by
  unfold reportUnreachable targets
  split
  · rw [length_map, length_map]
  · rw [length_map, length_map]
  · rfl

theorem flatMap_reportUnreachable_eq_iff (msgs : List MultiRaftMessage) :
    msgs.flatMap reportUnreachable = msgs.flatMap targets ↔ ∀ msg ∈ msgs, msg.OneTarget := by
  induction msgs with
  | nil => exact iff_of_true rfl nofun
  | cons msg msgs ih =>
    rw [flatMap_cons, flatMap_cons, forall_mem_cons, ← ih, ← reportUnreachable_eq_iff]
    constructor
    · exact fun h => append_inj h (length_reportUnreachable msg)
    · rintro ⟨hmsg, hmsgs⟩
      rw [hmsg, hmsgs]

/-- `SendRaftMessage` up to the queue: whether it fails, and the reports. -/
def sendRaftMessage (breakerReady memoryAllowed : Bool) (msg : MultiRaftMessage) :
    Bool × List (Nat × Nat) :=
  if !breakerReady then (true, msg.reportUnreachable)
  else if !memoryAllowed then (true, msg.reportUnreachable)
  else (false, [])

def sendBatch (delivered : Bool) (msgBuf : List MultiRaftMessage) : Bool × List (Nat × Nat) :=
  if delivered then (false, []) else (true, msgBuf.flatMap reportUnreachable)

/-- What fails is reported once for each of its messages, with its own group and peer. -/
def ReportsTargets (breakerReady memoryAllowed delivered : Bool) (msgs : List MultiRaftMessage) :
    Prop :=
  (∀ msg ∈ msgs, (msg.sendRaftMessage breakerReady memoryAllowed).1 →
    (msg.sendRaftMessage breakerReady memoryAllowed).2 = msg.targets) ∧
  ((sendBatch delivered msgs).1 → (sendBatch delivered msgs).2 = msgs.flatMap targets)

/-- Exactly when nothing fails, or every wrapper holds heartbeats for one peer id only. -/
theorem reportsTargets_iff (breakerReady memoryAllowed delivered : Bool)
    (msgs : List MultiRaftMessage) :
    ReportsTargets breakerReady memoryAllowed delivered msgs ↔
      (breakerReady && memoryAllowed && delivered) = true ∨ ∀ msg ∈ msgs, msg.OneTarget := by
  have heach : (∀ msg ∈ msgs, msg.reportUnreachable = msg.targets) ↔
      ∀ msg ∈ msgs, msg.OneTarget :=
    forall₂_congr fun msg _ => msg.reportUnreachable_eq_iff
  unfold ReportsTargets sendRaftMessage sendBatch
  cases breakerReady <;> cases memoryAllowed <;> cases delivered <;>
    simp [heach, flatMap_reportUnreachable_eq_iff]

theorem second_target_reported_wrong :
    twoHeartbeats.flatMap targets = [(1, 2), (2, 3)] ∧
      sendBatch false twoHeartbeats = (true, [(1, 2), (2, 2)]) := by
  decide

end MultiRaftMessage

end Babuza.Experimental
