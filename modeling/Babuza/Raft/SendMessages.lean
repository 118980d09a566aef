import Babuza.Raft.ReadyOrder

/-!
# Sending the messages of a Ready

`sendRaftMessage` goes through the messages once (`raft/raft_ready.go`,
`raft/experimental/replica_raft_processor.go`). An accepting `MsgAppResp` with a larger index than
those before is held back, and the last one held back is sent behind all others. A replica of many
puts heartbeats into the queue of their address, and drops one without an address.
-/

namespace Babuza.Raft

open Lib List

inductive SendCall
  | send
  | sendSnapshot
  | put
  deriving DecidableEq

structure Sent where
  call : SendCall
  message : Message
  deriving DecidableEq

/-- `MsgAppResp` without `Reject`. -/
def accepts (m : Message) : Bool := m.type = .appResp && !m.reject

/-- What is called for a message that is not held back. A `MsgSnap` gets the `ConfState` of the
status, and a heartbeat of a replica needs an address. -/
def handed (kind : LoopKind) (confState : ConfState) (resolves : Nat → Bool) (m : Message) :
    Option Sent :=
  if m.type = .snap then some ⟨.sendSnapshot, { m with
    snapshot :=
      { m.snapshot with metadata := { m.snapshot.metadata with confState := confState } } }⟩
  else if kind = .multi ∧ (m.type = .heartbeat ∨ m.type = .heartbeatResp) then
    if resolves m.toID then some ⟨.put, m⟩ else none
  else some ⟨.send, m⟩

/-- A `Put` for the message with number `i` panics when the queue has no room (`takes`). -/
def handOver (kind : LoopKind) (confState : ConfState) (resolves takes : Nat → Bool) (i : Nat)
    (m : Message) : Except Unit (Option Sent) :=
  if handed kind confState resolves m = some ⟨.put, m⟩ ∧ takes i = false then .error ()
  else .ok (handed kind confState resolves m)

variable (hand : Nat → Message → Except Unit (Option Sent))

/-- The loop with its three variables, at the message with number `i`. -/
def sendLoop (msgs : List Message) (appRespIndex lastAppRespMsgIndex : Nat)
    (optimiseAppendEntryResp : Bool) (i : Nat) : List Message → Except Unit (List Sent)
  | [] => .ok (if optimiseAppendEntryResp then
      msgs[lastAppRespMsgIndex]?.toList.map (⟨.send, ·⟩) else [])
  | m :: rest =>
    if accepts m ∧ appRespIndex < m.index then sendLoop msgs m.index i true (i + 1) rest
    else do
      let call ← hand i m
      let sent ←
        sendLoop msgs appRespIndex lastAppRespMsgIndex optimiseAppendEntryResp (i + 1) rest
      return call.toList ++ sent

def sendRaftMessage (kind : LoopKind) (confState : ConfState) (resolves takes : Nat → Bool)
    (msgs : List Message) : Except Unit (List Sent) :=
  sendLoop (handOver kind confState resolves takes) msgs 0 0 false 0 msgs

/-- An accepting message is sent that has at least the index `k`. -/
def Reaches (sent : List Sent) (k : Nat) : Prop :=
  ∃ x ∈ sent, accepts x.message ∧ k ≤ x.message.index

/-- What is sent for a list of messages: the others as they stand, and of the accepting ones all but
some for which one with a larger index is sent. -/
structure Coalesced (handed : Message → Option Sent) (msgs : List Message) (sent : List Sent) :
    Prop where
  others : sent.filter (!accepts ·.message) = (msgs.filter (!accepts ·)).filterMap handed
  accepting : ∃ dropped, (msgs.filter accepts).Perm ((sent.map Sent.message).filter accepts ++
    dropped) ∧
    ∀ m ∈ dropped, Reaches sent (m.index + 1)

variable {hand} {f : Message → Option Sent} {msgs rest held : List Message}
  {appRespIndex last i : Nat} {optimise : Bool} {sent : List Sent} {m : Message}

theorem Coalesced.cons (h : Coalesced f (held ++ rest) sent) (hheld : ∀ c ∈ held, accepts c)
    (hsame : ∀ x ∈ f m, accepts x.message = accepts m)
      (haccepts : accepts m → f m = some ⟨.send, m⟩) :
    Coalesced f (held ++ m :: rest) ((f m).toList ++ sent) := by
  have hothers : held.filter (!accepts ·) = [] := by simpa [filter_eq_nil_iff] using hheld
  have hself : held.filter accepts = held := filter_eq_self.mpr hheld
  obtain ⟨dropped, hperm, hdropped⟩ := h.accepting
  have hreach : ∀ c ∈ dropped, Reaches ((f m).toList ++ sent) (c.index + 1) := by
    intro c hc
    obtain ⟨x, hx, hle⟩ := hdropped c hc
    exact ⟨x, mem_append_right _ hx, hle⟩
  have hrest := h.others
  simp only [filter_append, hothers, hself, nil_append] at hrest hperm
  cases hm : accepts m with
  | true =>
    refine ⟨?_, dropped, ?_, hreach⟩
    · simp [haccepts hm, hm, hothers, hrest]
    · simp only [haccepts hm, filter_append, hself, filter_cons, hm, if_true, Option.toList_some,
        cons_append, nil_append, map_cons]
      exact perm_middle.trans (hperm.cons m)
  | false =>
    refine ⟨?_, dropped, ?_, hreach⟩
    · cases hcall : f m with
      | none => simp [hm, hothers, hrest, hcall]
      | some x => simp [hm, hothers, hrest, hcall, hsame x hcall]
    · cases hcall : f m with
      | none => simpa [hm, hself] using hperm
      | some x => simpa [hm, hself, hsame x hcall] using hperm

theorem Coalesced.hold (h : Coalesced f rest sent) (hheld : ∀ c ∈ held, accepts c)
    (hreach : ∀ c ∈ held, Reaches sent (c.index + 1)) : Coalesced f (held ++ rest) sent := by
  obtain ⟨dropped, hperm, hdropped⟩ := h.accepting
  refine ⟨?_, held ++ dropped, ?_, forall_mem_append.mpr ⟨hreach, hdropped⟩⟩
  · have hothers : held.filter (!accepts ·) = [] := by simpa [filter_eq_nil_iff] using hheld
    rw [filter_append, hothers, nil_append]
    exact h.others
  · rw [filter_append, filter_eq_self.mpr hheld]
    exact (hperm.append_left held).trans (perm_append_comm_assoc _ _ _)

theorem sendLoop_coalesced (hhand : ∀ i m r, hand i m = .ok r → r = f m)
    (hsame : ∀ m, ∀ x ∈ f m, accepts x.message = accepts m)
    (haccepts : ∀ m, accepts m → f m = some ⟨.send, m⟩) (hrest : msgs.drop i = rest)
    (hheld : held = if optimise then msgs[last]?.toList else [])
    (hcand : ∀ c ∈ held, accepts c ∧ c.index = appRespIndex)
    (h : sendLoop hand msgs appRespIndex last optimise i rest = .ok sent) :
    Coalesced f (held ++ rest) sent ∧ ∀ c ∈ held, Reaches sent c.index := by
  induction rest generalizing held appRespIndex last optimise i sent with
  | nil =>
    have haccept : ∀ c ∈ held, accepts c := fun c hc => (hcand c hc).1
    have hsent : sent = held.map (⟨.send, ·⟩) := by
      cases h
      rw [hheld]
      split <;> rfl
    rw [hsent, append_nil]
    refine ⟨⟨?_, [], ?_, nofun⟩, fun c hc => ⟨_, mem_map_of_mem hc, haccept c hc, le_rfl⟩⟩
    · have hothers : held.filter (!accepts ·) = [] := by simpa [filter_eq_nil_iff] using haccept
      rw [hothers, filterMap_nil, filter_eq_nil_iff]
      simpa using haccept
    · rw [map_map, append_nil]
      exact (map_id held).symm ▸ .rfl
  | cons m rest ih =>
    have haccept : ∀ c ∈ held, accepts c := fun c hc => (hcand c hc).1
    have hdrop : msgs.drop (i + 1) = rest := by
      rw [← drop_drop, hrest]
      rfl
    unfold sendLoop at h
    split at h
    · rename_i hlarger
      have hself : msgs[i]? = some m := by
        rw [← Nat.add_zero i, ← getElem?_drop, hrest]
        rfl
      have hnext := ih hdrop rfl (by simp [hself, hlarger.1]) h
      rw [if_pos rfl, hself] at hnext
      obtain ⟨x, hx, hxaccepts, hle⟩ := hnext.2 m (mem_singleton_self m)
      have hreach : ∀ c ∈ held, Reaches sent (c.index + 1) := by
        intro c hc
        have := (hcand c hc).2
        exact ⟨x, hx, hxaccepts, by omega⟩
      refine ⟨hnext.1.hold haccept hreach, fun c hc => ?_⟩
      obtain ⟨x, hx, hxaccepts, hle⟩ := hreach c hc
      exact ⟨x, hx, hxaccepts, by omega⟩
    · obtain ⟨call, hcall, h⟩ := bind_eq_ok.mp h
      obtain ⟨sent', hsent', hpure⟩ := bind_eq_ok.mp h
      cases hpure
      obtain ⟨hcoalesced, hreach⟩ := ih hdrop hheld hcand hsent'
      cases hhand i m call hcall
      refine ⟨hcoalesced.cons haccept (hsame m) (haccepts m), fun c hc => ?_⟩
      obtain ⟨x, hx, hle⟩ := hreach c hc
      exact ⟨x, mem_append_right _ hx, hle⟩

theorem sendLoop_isOk (hhand : ∀ i m, (hand i m).isOk) (appRespIndex last : Nat) (optimise : Bool)
    (i : Nat) : (sendLoop hand msgs appRespIndex last optimise i rest).isOk := by
  induction rest generalizing appRespIndex last optimise i with
  | nil => rfl
  | cons m rest ih =>
    unfold sendLoop
    split
    · exact ih m.index i true (i + 1)
    · obtain ⟨call, hcall⟩ := exists_eq_ok (hhand i m)
      obtain ⟨sent, hsent⟩ := exists_eq_ok (ih appRespIndex last optimise (i + 1))
      rw [hcall, ok_bind, hsent]
      rfl

theorem handed_single_ne_put {confState : ConfState} {resolves : Nat → Bool} :
    handed .single confState resolves m ≠ some ⟨.put, m⟩ := by
  unfold handed
  split <;> simp

/-- Both loops send what is no accepting `MsgAppResp` once and in order, but for heartbeats of a
replica without an address, and the others once or dominated by one that is sent. The loop of one
group always returns, that of a replica while the queues have room. -/
theorem messages_coalesced (kind : LoopKind) (confState : ConfState) (resolves takes : Nat → Bool)
    (msgs : List Message) :
    ((kind = .single ∨ ∀ i, takes i) →
      ∃ sent, sendRaftMessage kind confState resolves takes msgs = .ok sent) ∧
    ∀ sent, sendRaftMessage kind confState resolves takes msgs = .ok sent →
      Coalesced (handed kind confState resolves) msgs sent := by
  refine ⟨fun hroom => exists_eq_ok (sendLoop_isOk ?_ 0 0 false 0), fun sent hsent =>
    (sendLoop_coalesced ?_ ?_ ?_ rfl rfl (fun _ hc => absurd hc not_mem_nil) hsent).1⟩
  · intro i m
    rw [handOver]
    rcases hroom with rfl | htakes
    · rw [if_neg fun h => handed_single_ne_put h.1]
      rfl
    · rw [if_neg fun h => Bool.noConfusion (h.2.symm.trans (htakes i))]
      rfl
  · intro i m r hr
    unfold handOver at hr
    split at hr
    · cases hr
    · cases hr
      rfl
  · intro m x hx
    unfold handed at hx
    split at hx
    · cases hx
      rfl
    split at hx
    · split at hx
      · cases hx
        rfl
      · cases hx
    · cases hx
      rfl
  · intro m hm
    have htype : m.type = .appResp := by
      rw [accepts, Bool.and_eq_true, decide_eq_true_eq] at hm
      exact hm.1
    simp [handed, htype]

theorem heartbeat_dropped :
    sendRaftMessage .multi .empty (fun _ => false) (fun _ => true) [.empty .heartbeat] =
      .ok [] := by
  decide

end Babuza.Raft
