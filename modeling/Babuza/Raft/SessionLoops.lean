import Babuza.Raft.Determinism
import Babuza.Raft.Loops

/-!
# The sessions between the two loops

Changes of the configuration are requests of sessions too, but the Ready loop makes them. Both loops
call the session manager, and with the LRU manager even `GetSession` changes the order of eviction
(`pkg/session/lru_manager.go`).

The sessions are a heap of objects, and the manager is the list of the ids in the order of last use:
a loop keeps its session also when the other loop takes it out of the manager. If no conflicting
calls change places, the sessions are those of the log taken entry by entry (`sessions_of_log`).
-/

namespace Babuza.Raft

open Lib List

variable {σ R : Type}

inductive SessionOp
  | getSession (sid : Nat)
  | repeatSequenceNum (sid seqNum : Nat)
  | getResult (sid seqNum : Nat)
  | clearResult (sid lowestSeqNumNotYetReplied : Nat)
  | addResult (sid sequenceNum : Nat) (lastActiveNanoseconds : Int)
  deriving DecidableEq

inductive SessionCall
  | handOver
  | ready (op : SessionOp)
  | change (index : Nat) (cc : ConfChange) (confReq : ConfChangeRequest)
  | finish
  | parsePanic
  | receive
  | apply (op : SessionOp)
  | command (c : Command)
  | register (sid : Nat) (lastActivateTime : Int)
  | unRegister (sid : Nat)
  | applyPanic
  deriving DecidableEq

/-- `GetSession` and `doExactlyOnce`. -/
def exactlyOnceOps (ctx : RequestContext) : List SessionOp :=
  [.getSession ctx.sessionID, .repeatSequenceNum ctx.sessionID ctx.sequenceNum,
    .getResult ctx.sessionID ctx.sequenceNum,
    .clearResult ctx.sessionID ctx.lowestSeqNumNotYetReplied]

def confChangeCalls (codecs : RequestCodecs) (e : TimedEntry) : List SessionCall :=
  match parseConfChangeEntry codecs e.2 with
  | none => [.parsePanic]
  | some (cc, confReq) =>
    (exactlyOnceOps confReq.context).map .ready ++
      [.change e.2.index cc confReq,
        .ready (.addResult confReq.context.sessionID confReq.context.sequenceNum e.1.reqTime),
        .finish]

def normalCalls (codecs : RequestCodecs) (info : BasedStateMachineInfo) (e : TimedEntry) :
    List SessionCall :=
  if e.2.index ≤ info.openAppliedIndex then if info.diskType then [] else [.applyPanic]
  else match codecs.normalRequest e.2.data with
    | none => [.applyPanic]
    | some req =>
      match req.register, req.pubAppService with
      | some register, _ =>
        [if register.unregister then .unRegister register.sessionID
          else .register e.2.index e.1.reqTime]
      | none, some _ => []
      | none, none =>
        (exactlyOnceOps req.context).map .apply ++
          [.command ⟨e.2.term, e.2.index, req.stateMachineLog⟩,
            .apply (.addResult req.context.sessionID req.context.sequenceNum e.1.now)]

def sessionCalls (codecs : RequestCodecs) (info : BasedStateMachineInfo) (e : TimedEntry) :
    List SessionCall :=
  match e.2.type with
  | .confChange => confChangeCalls codecs e
  | .normal => if e.2.data = [] then [] else normalCalls codecs info e
  | .confChangeV2 => if e.2.data = [] then [] else [.applyPanic]

def batchCalls (codecs : RequestCodecs) (info : BasedStateMachineInfo) (entries : List TimedEntry) :
    List SessionCall :=
  .handOver :: .receive :: entries.flatMap (sessionCalls codecs info)

/-! ## Their effects -/

/-- What a loop knows while it works on an entry, with what only this loop uses. -/
structure Locals (R X : Type) where
  found : Bool
  repeated : Bool
  stored : Option (ApplyResult R)
  toAdd : Option (ApplyResult R)
  halted : Bool
  rest : X

def Locals.active {X : Type} (p : Locals R X) : Bool := p.found && !p.halted

/-- At an entry whose session was found, or was not. -/
def Locals.opened {X : Type} (p : Locals R X) (found : Bool) : Locals R X :=
  { p with found := found, repeated := false, stored := none, toAdd := none }

def SessionOp.effect {X : Type} : SessionOp → Effect Nat (List Nat) (Session R) (Locals R X)
  | getSession sid =>
    if sid = 0 then .own fun p => if p.halted then p else p.opened true
    else .value fun p order =>
      if p.halted then (p, order)
      else if sid ∈ order then (p.opened true, sid :: order.erase sid)
      else (p.opened false, order)
  | repeatSequenceNum sid seqNum =>
    if sid = 0 then .own id
    else .read sid fun p s =>
      if p.active then { p with repeated := s.repeatSequenceNum seqNum } else p
  | getResult sid seqNum =>
    if sid = 0 then .own id
    else .read sid fun p s =>
      if p.active && p.repeated then { p with stored := s.getResult seqNum } else p
  | clearResult sid lowestSeqNumNotYetReplied =>
    if sid = 0 then .own id
    else .object sid fun p s =>
      (p, if p.active then s.clearResult lowestSeqNumNotYetReplied else s)
  | addResult sid sequenceNum lastActiveNanoseconds =>
    if sid = 0 then .own id
    else .object sid fun p s =>
      match if p.active then p.toAdd else none with
      | none => (p, s)
      | some ar =>
        if s.repeatSequenceNum sequenceNum then ({ p with halted := true }, s)
        else (p, s.withResult sequenceNum lastActiveNanoseconds ar)

structure ReadyRest where
  membership : Membership
  removeSelf : Bool

variable (codecs : RequestCodecs)

/-- `processConfChange`, unless the session has answered. -/
def Locals.change (p : Locals R ReadyRest) (index : Nat) (cc : ConfChange)
    (confReq : ConfChangeRequest) : Locals R ReadyRest :=
  if p.active && !p.repeated then
    match processConfChange codecs p.rest.membership cc confReq with
    | .error _ => { p with halted := true }
    | .ok (outcome, m) => { p with
        toAdd := some (confChangeResult index outcome)
        rest := ⟨m, removesSelf outcome⟩ }
  else p

variable {codecs} {outcome : Except ClusterError (ConfState × Bool)} {confReq : ConfChangeRequest}
  {cc : ConfChange}

variable {sid seq index : Nat} {m m' n' : Membership} {p : Locals R ReadyRest}

theorem Locals.change_of_ok (hactive : p.active = true) (hnew : p.repeated = false)
    (hmade : processConfChange codecs p.rest.membership cc confReq = .ok (outcome, m)) :
    p.change codecs index cc confReq = { p with
      toAdd := some (confChangeResult index outcome)
      rest := ⟨m, removesSelf outcome⟩ } := by
  rw [change, hactive, hnew, Bool.not_false, Bool.and_true, if_pos rfl, hmade]

theorem Locals.change_of_repeated (hrepeated : p.repeated = true) (index : Nat) (cc : ConfChange)
    (confReq : ConfChangeRequest) : p.change codecs index cc confReq = p := by
  rw [change, hrepeated, Bool.not_true, Bool.and_false]
  rfl

variable (codecs) (sm : StateMachine σ R) (maxSessions : Int)

/-- The state machine applies the command, unless the session has answered. -/
def Locals.command (p : Locals R σ) (c : Command) : Locals R σ :=
  if p.active && (!p.repeated || p.stored.any ApplyResult.isEmpty) then
    { p with rest := (sm p.rest c).1, toAdd := some (sm p.rest c).2 }
  else p

/-- `Register`, with the eviction of the session that was not used for longest. -/
def registerOrder (order : List Nat) (sid : Nat) : List Nat :=
  let order := sid :: order
  if (order.length : Int) > maxSessions then order.dropLast else order

def SessionCall.effect : SessionCall →
    Effect Nat (List Nat) (Session R) (Locals R ReadyRest) ⊕
      Effect Nat (List Nat) (Session R) (Locals R σ)
  | handOver => .inl (.own id)
  | ready op => .inl op.effect
  | change index cc confReq => .inl (.own fun p => p.change codecs index cc confReq)
  | finish => .inl (.own fun p => { p with halted := p.halted || p.rest.removeSelf })
  | parsePanic => .inl (.own fun p => { p with halted := true })
  | receive => .inr (.own id)
  | apply op => .inr op.effect
  | command c => .inr (.own fun p => p.command sm c)
  | register sid lastActivateTime => .inr (.both sid fun p order s =>
      if p.halted ∨ sid ∈ order then (p, order, s)
      else (p, registerOrder maxSessions order sid, .newSession sid lastActivateTime))
  | unRegister sid => .inr (.both sid fun p order s =>
      if p.halted ∨ sid ∉ order then (p, order, s)
      else (p, order.erase sid, s.clearResult (2 ^ 63 - 1)))
  | applyPanic => .inr (.own fun p => { p with halted := true })

abbrev SessionState (σ R : Type) :=
  Shared Nat (List Nat) (Session R) (Locals R ReadyRest) (Locals R σ)

def SessionCall.act (s : SessionState σ R) (call : SessionCall) : SessionState σ R :=
  match call.effect codecs sm maxSessions with
  | .inl e => e.onLeft s
  | .inr e => e.onRight s

def SessionCall.byReady : SessionCall → Bool
  | handOver | ready _ | change _ _ _ | finish | parsePanic => true
  | _ => false

/-- The calls of each loop are in order, and no batch is received before it is handed over. -/
structure SessionInterleaving (codecs : RequestCodecs) (info : BasedStateMachineInfo)
    (batches : List (List TimedEntry)) (ys : List (SessionCall × Nat)) : Prop where
  perm : ys.Perm (positions (batches.flatMap (batchCalls codecs info)))
  inLoop : InOrder (fun a b => a.byReady = b.byReady) ys
  handedOver : ys.Pairwise fun a b => a.1 = .receive → a.2 ≠ b.2 + 1

/-! ## Calls that do not conflict -/

def SessionOp.onOrder : SessionOp → Bool
  | getSession sid => sid ≠ 0
  | _ => false

def SessionOp.object? : SessionOp → Option Nat
  | getSession _ => none
  | repeatSequenceNum sid _ | getResult sid _ | clearResult sid _ | addResult sid _ _ =>
    if sid = 0 then none else some sid

def SessionOp.reads : SessionOp → Bool
  | repeatSequenceNum _ _ | getResult _ _ => true
  | _ => false

variable {a b : SessionCall}

namespace SessionCall

def onOrder : SessionCall → Bool
  | ready op | apply op => op.onOrder
  | register _ _ | unRegister _ => true
  | _ => false

def object? : SessionCall → Option Nat
  | ready op | apply op => op.object?
  | register sid _ | unRegister sid => some sid
  | _ => none

def reads : SessionCall → Bool
  | ready op | apply op => op.reads
  | _ => false

/-- Both calls use the order, but it does not matter which comes first. -/
def orderFree : SessionCall → SessionCall → Bool
  | ready (.getSession sid), apply (.getSession sid')
  | apply (.getSession sid), ready (.getSession sid') => sid = sid'
  | ready (.getSession sid), unRegister sid'
  | unRegister sid', ready (.getSession sid) => sid ≠ sid'
  | _, _ => false

/-- Calls of the two loops on the order, or on one session that one of them changes. -/
def Conflict (a b : SessionCall) : Prop :=
  a.byReady ≠ b.byReady ∧
    ((a.onOrder ∧ b.onOrder ∧ ¬ a.orderFree b) ∨
      (a.object? ≠ none ∧ a.object? = b.object? ∧ ¬ (a.reads ∧ b.reads)))

instance : DecidableRel Conflict := fun _ _ =>
  inferInstanceAs (Decidable (_ ∧ (_ ∨ (_ ∧ _ ∧ _))))

theorem orderFree_comm (a b : SessionCall) : a.orderFree b = b.orderFree a := by
  unfold orderFree
  split
  · exact decide_eq_decide.mpr eq_comm
  · exact decide_eq_decide.mpr eq_comm
  · rfl
  · rfl
  · split
    on_goal 5 => rfl
    all_goals simp_all

theorem Conflict.symm (h : Conflict a b) : Conflict b a := by
  refine ⟨h.1.symm, h.2.imp ?_ ?_⟩
  · rintro ⟨ha, hb, hfree⟩
    exact ⟨hb, ha, orderFree_comm a b ▸ hfree⟩
  · rintro ⟨hsome, heq, hreads⟩
    exact ⟨heq ▸ hsome, heq.symm, fun h => hreads h.symm⟩

end SessionCall

section Effect

variable {X : Type}

theorem SessionOp.onValue_effect (op : SessionOp) :
    (op.effect : Effect Nat (List Nat) (Session R) (Locals R X)).onValue = op.onOrder := by
  cases op with
  | getSession sid | _ sid =>
    by_cases hzero : sid = 0
    all_goals simp [effect, onOrder, hzero, Effect.onValue]

theorem SessionOp.key?_effect (op : SessionOp) :
    (op.effect : Effect Nat (List Nat) (Session R) (Locals R X)).key? = op.object? := by
  cases op with
  | _ sid =>
    by_cases hzero : sid = 0
    all_goals simp [effect, object?, hzero, Effect.key?]

theorem SessionOp.isRead_effect {op : SessionOp} (h : op.object? ≠ none) :
    (op.effect : Effect Nat (List Nat) (Session R) (Locals R X)).isRead = op.reads := by
  cases op with
  | getSession sid => exact absurd rfl h
  | _ sid =>
    have hzero : sid ≠ 0 := fun hzero => h (if_pos hzero)
    simp [effect, reads, hzero, Effect.isRead]

end Effect

variable {info : BasedStateMachineInfo} {codecs}

namespace SessionCall

variable {sm : StateMachine σ R} {maxSessions : Int}

variable (codecs sm maxSessions) in
theorem effect_of_byReady (h : a.byReady = true) :
    ∃ e, a.effect codecs sm maxSessions = .inl e ∧ e.onValue = a.onOrder ∧ e.key? = a.object? ∧
      (a.object? ≠ none → e.isRead = a.reads) := by
  cases a with
  | ready op =>
    exact ⟨op.effect, rfl, op.onValue_effect, op.key?_effect, SessionOp.isRead_effect⟩
  | _ => first
    | exact Bool.noConfusion h
    | exact ⟨_, rfl, rfl, rfl, fun hsome => absurd rfl hsome⟩

variable (codecs sm maxSessions) in
theorem effect_of_not_byReady (h : a.byReady = false) :
    ∃ e, a.effect codecs sm maxSessions = .inr e ∧ e.onValue = a.onOrder ∧ e.key? = a.object? ∧
      (a.object? ≠ none → e.isRead = a.reads) := by
  cases a with
  | apply op =>
    exact ⟨op.effect, rfl, op.onValue_effect, op.key?_effect, SessionOp.isRead_effect⟩
  | _ => first
    | exact Bool.noConfusion h
    | exact ⟨_, rfl, rfl, rfl, fun _ => rfl⟩

variable (s : SessionState σ R)

theorem act_comm_of_orderFree (ha : a.byReady = true) (hfree : a.orderFree b) :
    act codecs sm maxSessions (act codecs sm maxSessions s a) b =
      act codecs sm maxSessions (act codecs sm maxSessions s b) a := by
  unfold orderFree at hfree
  split at hfree
  · rename_i sid sid'
    obtain rfl : sid = sid' := of_decide_eq_true hfree
    by_cases hzero : sid = 0
    · simp only [act, effect, SessionOp.effect, if_pos hzero]
      rfl
    · simp only [act, effect, SessionOp.effect, if_neg hzero, Effect.onLeft, Effect.onRight,
        Effect.run]
      by_cases hleft : s.left.halted <;> by_cases hright : s.right.halted <;>
        by_cases hmem : sid ∈ s.value <;> simp [hleft, hright, hmem]
  · exact Bool.noConfusion ha
  · rename_i sid sid'
    have hne : sid ≠ sid' := of_decide_eq_true hfree
    by_cases hzero : sid = 0
    · simp only [act, effect, SessionOp.effect, if_pos hzero]
      rfl
    · have hmem' : sid' ∈ sid :: s.value.erase sid ↔ sid' ∈ s.value := by
        rw [mem_cons, mem_erase_of_ne hne.symm]
        exact or_iff_right hne.symm
      have herase : (sid :: s.value.erase sid).erase sid' =
          sid :: (s.value.erase sid').erase sid := by
        rw [erase_cons_tail (by simpa using hne), erase_comm]
      simp only [act, effect, SessionOp.effect, if_neg hzero, Effect.onLeft, Effect.onRight,
        Effect.run]
      by_cases hleft : s.left.halted
      · simp [hleft]
      · by_cases hmem : sid ∈ s.value
        · by_cases hout : s.right.halted ∨ sid' ∉ s.value
          · simp only [hleft, hmem, hmem', hout, if_true, if_false, Bool.false_eq_true]
          · simp only [hleft, hmem, hmem', hout, herase, mem_erase_of_ne hne, if_true, if_false,
              Bool.false_eq_true]
        · by_cases hout : s.right.halted ∨ sid' ∉ s.value
          · simp only [hleft, hmem, hout, if_true, if_false, Bool.false_eq_true]
          · simp only [hleft, hmem, hout, mem_erase_of_ne hne, if_false, Bool.false_eq_true]
  · exact Bool.noConfusion ha
  · exact Bool.noConfusion hfree

theorem act_comm_of_ready (ha : a.byReady = true) (hb : b.byReady = false)
    (hconflict : ¬ Conflict a b) :
    act codecs sm maxSessions (act codecs sm maxSessions s a) b =
      act codecs sm maxSessions (act codecs sm maxSessions s b) a := by
  by_cases hfree : a.orderFree b
  · exact act_comm_of_orderFree s ha hfree
  · obtain ⟨e, he, hvalue, hkey, hread⟩ := effect_of_byReady codecs sm maxSessions ha
    obtain ⟨e', he', hvalue', hkey', hread'⟩ := effect_of_not_byReady codecs sm maxSessions hb
    have hne : a.byReady ≠ b.byReady := by rw [ha, hb]; exact Bool.noConfusion
    have hnot := not_or.mp fun h => hconflict ⟨hne, h⟩
    have honValue : e.onValue = false ∨ e'.onValue = false := by
      rw [hvalue, hvalue']
      by_contra h
      rw [not_or, Bool.not_eq_false, Bool.not_eq_false] at h
      exact hnot.1 ⟨h.1, h.2, hfree⟩
    have hapart : e.Apart e' := by
      by_cases hnone : a.object? = none
      · exact .inl (hkey.trans hnone)
      · by_cases heq : a.object? = b.object?
        · have hreads : a.reads ∧ b.reads := by
            by_contra h
            exact hnot.2 ⟨hnone, heq, h⟩
          exact .inr (.inr ⟨(hread hnone).trans hreads.1, (hread' (heq ▸ hnone)).trans hreads.2⟩)
        · exact .inr (.inl (by rw [hkey, hkey']; exact heq))
    simp only [act, he, he']
    exact e.onRight_onLeft e' honValue hapart s

end SessionCall

open SessionCall (act)

/-! ## The calls in the order of the log -/

def HandleOf (session : SessionHandle) (sid : Nat) (order : List Nat) : Prop :=
  session = .noOp ∧ sid = 0 ∨ session = .registered sid ∧ sid ≠ 0 ∧ sid ∈ order

variable {session : SessionHandle} {now : Int}

section Ops

variable {X : Type} {l : Keyed (Session.id : Session R → Nat)} {order : List Nat}
  {objects : Nat → Session R} {p : Locals R X} {maxSessions : Int}

variable (maxSessions) in
theorem exactlyOnceOps_run (hrep : l.Represents order objects) (hrunning : p.halted = false)
    (ctx : RequestContext) :
    (∃ err, (SessionManager.lru ⟨maxSessions, l⟩).getSession ctx.sessionID = .error err ∧
      ((exactlyOnceOps ctx).map SessionOp.effect).foldl Effect.run (p, order, objects) =
        (p.opened false, order, objects)) ∨
    ∃ session m l' order' objects',
      (SessionManager.lru ⟨maxSessions, l⟩).getSession ctx.sessionID = .ok (session, m) ∧
      m.clearResult session ctx.lowestSeqNumNotYetReplied = .lru ⟨maxSessions, l'⟩ ∧
      l'.Represents order' objects' ∧ HandleOf session ctx.sessionID order' ∧
      ((exactlyOnceOps ctx).map SessionOp.effect).foldl Effect.run (p, order, objects) =
        ({ p.opened true with
          repeated := (m.getResult session ctx.sequenceNum).isSome
          stored := m.getResult session ctx.sequenceNum }, order', objects') := by
  by_cases hzero : ctx.sessionID = 0
  · refine .inr ⟨.noOp, _, l, order, objects, ?_, rfl, hrep, .inl ⟨rfl, hzero⟩, ?_⟩
    · rw [hzero]
      exact SessionManager.getSession_zero _
    · simp [exactlyOnceOps, SessionOp.effect, hzero, Effect.run, hrunning, Locals.opened,
        SessionManager.getResult, SessionManager.session?]
  · by_cases hmem : ctx.sessionID ∈ order
    · have hfind : l.find? ctx.sessionID = some (objects ctx.sessionID) := hrep.find?_of_mem hmem
      have hmoved := hrep.moveToFront hmem
      have hresult : (SessionManager.lru ⟨maxSessions, l.moveToFront ctx.sessionID⟩).getResult
          (.registered ctx.sessionID) ctx.sequenceNum =
            (objects ctx.sessionID).getResult ctx.sequenceNum := by
        apply SessionManager.getResult_registered
        exact (Keyed.find?_moveToFront l _ _).trans hfind
      refine .inr ⟨.registered ctx.sessionID, .lru ⟨maxSessions, l.moveToFront ctx.sessionID⟩, _, _,
        _, ?_, rfl,
        hmoved.modify ctx.sessionID (·.clearResult ctx.lowestSeqNumNotYetReplied) fun _ => rfl,
        .inr ⟨rfl, hzero, mem_cons_self⟩, ?_⟩
      · simp [SessionManager.getSession, hzero, hfind, LruManager.getSession]
      · rw [hresult]
        cases hstored : (objects ctx.sessionID).getResult ctx.sequenceNum with
        | none | some ar =>
          simp [exactlyOnceOps, SessionOp.effect, hzero, Effect.run, hrunning, hmem, Locals.opened,
            Locals.active, Session.repeatSequenceNum, hstored]
    · refine .inl ⟨.notFound ctx.sessionID, ?_, ?_⟩
      · exact SessionManager.getSession_none rfl hzero (hrep.find?_of_not_mem hmem)
      · simp [exactlyOnceOps, SessionOp.effect, hzero, Effect.run, hrunning, hmem, Locals.opened,
          Locals.active]

theorem addResult_run {m : SessionManager R} {ar : ApplyResult R}
    (hrep : l.Represents order objects) (hsession : HandleOf session sid order) (hactive : p.active)
    (htoAdd : p.toAdd = some ar)
    (hadd : (SessionManager.lru ⟨maxSessions, l⟩).addResult session seq now ar = .ok m) :
    ∃ l' objects', m = .lru ⟨maxSessions, l'⟩ ∧ l'.Represents order objects' ∧
      (SessionOp.addResult sid seq now).effect.run (p, order, objects) = (p, order, objects') := by
  rcases hsession with ⟨rfl, rfl⟩ | ⟨rfl, hzero, hmem⟩
  · cases hadd
    exact ⟨l, objects, rfl, hrep, rfl⟩
  · have hrepeat : (SessionManager.lru ⟨maxSessions, l⟩).repeatSequenceNum (.registered sid) seq =
        (objects sid).repeatSequenceNum seq := by
      simp [SessionManager.repeatSequenceNum, SessionManager.session?, SessionManager.find?,
        hrep.find?_of_mem hmem]
    simp only [SessionManager.addResult, hrepeat] at hadd
    split at hadd <;> cases hadd
    rename_i hnew
    refine ⟨_, _, rfl, hrep.modify sid (·.withResult seq now ar) fun _ => rfl, ?_⟩
    simp [SessionOp.effect, hzero, Effect.run, hactive, htoAdd, hnew]

theorem addResult_run_of_none (htoAdd : p.toAdd = none) :
    (SessionOp.addResult sid seq now).effect.run (p, order, objects) = (p, order, objects) := by
  by_cases hzero : sid = 0
  · simp [SessionOp.effect, hzero, Effect.run]
  · simp [SessionOp.effect, hzero, Effect.run, htoAdd]

end Ops

theorem processConfChange_same (hcluster : m.cluster.SameAttributes m'.cluster)
    (hconf : m.configuration = m'.configuration)
    (h : processConfChange codecs m' cc confReq = .ok (outcome, n')) :
    ∃ n, processConfChange codecs m cc confReq = .ok (outcome, n) ∧
      n.cluster.SameAttributes n'.cluster ∧ n.configuration = n'.configuration := by
  unfold processConfChange at h ⊢
  obtain ⟨err, hvalidate, hvalidate'⟩ | ⟨c, c', hvalidate, hvalidate', hsame⟩ :=
    clusterValidateAndApply_same hcluster cc.type confReq
  · rw [hvalidate'] at h
    rw [hvalidate, hconf]
    cases happly : codecs.raft.applyConfChange m'.configuration cc.type 0 <;> rw [happly] at h <;>
      cases h
    exact ⟨_, rfl, hcluster, rfl⟩
  · rw [hvalidate'] at h
    rw [hvalidate, hconf]
    cases happly : codecs.raft.applyConfChange m'.configuration cc.type cc.nodeID <;>
      rw [happly] at h <;> cases h
    dsimp only
    rw [hsame.localPeerID]
    exact ⟨_, rfl, hsame, rfl⟩

/-- The sessions, and what decides about changes and commands, are those of the replica. -/
structure Linked (maxSessions : Int) (s : SessionState σ R) (r : Replica σ R) : Prop where
  sessions : ∃ l, r.sessions = .lru ⟨maxSessions, l⟩ ∧ l.Represents s.value s.objects
  cluster : s.left.rest.membership.cluster.SameAttributes r.membership.cluster
  configuration : s.left.rest.membership.configuration = r.membership.configuration
  stateMachine : s.right.rest = r.stateMachine
  running : s.right.halted = false

/-- The Ready loop has not come to the removal of the node itself. -/
def Staying (s : SessionState σ R) : Prop :=
  s.left.halted = false ∧ s.left.rest.removeSelf = false

/-- The entry makes the Ready loop stop: the node removes itself. -/
def RemovesSelfAt (codecs : RequestCodecs) (r : Replica σ R) (e : TimedEntry) : Prop :=
  e.2.type = .confChange ∧ ∃ ar sessions m,
    facadeApplyConfChangeEntry codecs r.sessions r.membership e.1.reqTime e.2 =
      .ok (ar, true, sessions, m)

section Step

variable {sm : StateMachine σ R} {maxSessions : Int} {s : SessionState σ R} {r r' : Replica σ R}
  {e : TimedEntry}

theorem foldl_act_ready (ops : List SessionOp) (s : SessionState σ R) :
    (ops.map SessionCall.ready).foldl (act codecs sm maxSessions) s =
      let y := (ops.map SessionOp.effect).foldl Effect.run (s.left, s.value, s.objects)
      ⟨y.1, s.right, y.2.1, y.2.2⟩ := by
  induction ops generalizing s with
  | nil => rfl
  | cons op ops ih => exact ih _

theorem foldl_act_apply (ops : List SessionOp) (s : SessionState σ R) :
    (ops.map SessionCall.apply).foldl (act codecs sm maxSessions) s =
      let y := (ops.map SessionOp.effect).foldl Effect.run (s.right, s.value, s.objects)
      ⟨s.left, y.1, y.2.1, y.2.2⟩ := by
  induction ops generalizing s with
  | nil => rfl
  | cons op ops ih => exact ih _

theorem foldl_act_change (s : SessionState σ R) (index : Nat) (cc : ConfChange)
    (confReq : ConfChangeRequest) (op : SessionOp) :
    [SessionCall.change index cc confReq, .ready op, .finish].foldl (act codecs sm maxSessions)
      s =
      let y := op.effect.run (s.left.change codecs index cc confReq, s.value, s.objects)
      ⟨{ y.1 with halted := y.1.halted || y.1.rest.removeSelf }, s.right, y.2.1, y.2.2⟩ := rfl

theorem foldl_act_command (s : SessionState σ R) (c : Command) (op : SessionOp) :
    [SessionCall.command c, .apply op].foldl (act codecs sm maxSessions) s =
      let y := op.effect.run (s.right.command sm c, s.value, s.objects)
      ⟨s.left, y.1, y.2.1, y.2.2⟩ := rfl

variable {l' : Keyed (Session.id : Session R → Nat)} {objects' : Nat → Session R}
  {order' : List Nat}

theorem Linked.unchanged (h : Linked maxSessions s r) (hstay : Staying s)
    (hrep : l'.Represents order' objects') (p : Locals R ReadyRest) (hrest : p.rest = s.left.rest)
    (hhalted : p.halted = false) (membership : Membership)
    (hcluster : membership.cluster = r.membership.cluster)
    (hconf : membership.configuration = r.membership.configuration) :
    Linked maxSessions ⟨{ p with halted := p.halted || p.rest.removeSelf }, s.right, order',
      objects'⟩ { r with sessions := .lru ⟨maxSessions, l'⟩, membership := membership } ∧
      Staying (⟨{ p with halted := p.halted || p.rest.removeSelf }, s.right, order', objects'⟩ :
        SessionState σ R) := by
  refine ⟨⟨⟨l', rfl, hrep⟩, ?_, ?_, h.stateMachine, h.running⟩, ?_, ?_⟩
  · rw [hrest, hcluster]
    exact h.cluster
  · rw [hrest, hconf]
    exact h.configuration
  · rw [hhalted, hrest, hstay.2]
    rfl
  · rw [hrest]
    exact hstay.2

variable (sm) in
theorem Linked.changed {sessions : SessionManager R} (h : Linked maxSessions s r)
    (hstay : Staying s) (hrep : l'.Represents order' objects')
    (hsession : HandleOf session sid order')
    (hmade : processConfChange codecs r.membership cc confReq = .ok (outcome, n'))
    (hadd : (SessionManager.lru ⟨maxSessions, l'⟩).addResult session seq now
      (confChangeResult index outcome) = .ok sessions)
    (confState : ConfState) :
    let s' := [SessionCall.change index cc confReq, .ready (.addResult sid seq now), .finish].foldl
      (act codecs sm maxSessions) ⟨s.left.opened true, s.right, order', objects'⟩
    Linked maxSessions s'
        { r with sessions := sessions, membership := { n' with confState := confState } } ∧
      (removesSelf outcome = false → Staying s') := by
  obtain ⟨n, hmade', hcluster, hconf⟩ := processConfChange_same h.cluster h.configuration hmade
  have hactive : (s.left.opened true).active = true := by
    simp only [Locals.active, Locals.opened, hstay.1, Bool.not_false, Bool.and_true]
  let p : Locals R ReadyRest := { s.left.opened true with
    toAdd := some (confChangeResult index outcome)
    rest := ⟨n, removesSelf outcome⟩ }
  have hchange : (s.left.opened true).change codecs index cc confReq = p :=
    Locals.change_of_ok hactive rfl hmade'
  have hpactive : p.active = true := hactive
  obtain ⟨l'', objects'', rfl, hrep', hrun⟩ := addResult_run hrep hsession hpactive rfl hadd
  intro s'
  have hs' : s' = ⟨{ p with halted := s.left.halted || removesSelf outcome }, s.right, order',
      objects''⟩ := by
    simp only [s', foldl_act_change, hchange, hrun]
    rfl
  rw [hs']
  refine ⟨⟨⟨l'', rfl, hrep'⟩, hcluster, hconf, h.stateMachine, h.running⟩,
    fun hremove => ⟨?_, hremove⟩⟩
  rw [hstay.1, hremove]
  rfl

theorem Linked.confChange (h : Linked maxSessions s r) (hstay : Staying s)
    (htype : e.2.type = .confChange) (hprocess : applyConfChangeEntry codecs r e.1 e.2 = .ok r') :
    Linked maxSessions ((confChangeCalls codecs e).foldl (act codecs sm maxSessions) s) r' ∧
      (Staying ((confChangeCalls codecs e).foldl (act codecs sm maxSessions) s) ∨
        RemovesSelfAt codecs r e) := by
  obtain ⟨l, hsessions, hrep⟩ := h.sessions
  rw [applyConfChangeEntry, if_pos htype] at hprocess
  split at hprocess <;> cases hprocess
  rename_i ar removeSelf sessions m' hfacade
  have hparsed := hfacade
  unfold facadeApplyConfChangeEntry at hparsed
  cases hparse : parseConfChangeEntry codecs e.2 with
  | none =>
    rw [hparse] at hparsed
    cases hparsed
  | some parsed =>
    obtain ⟨cc, confReq⟩ := parsed
    rw [hparse, hsessions] at hparsed
    simp only [confChangeCalls, hparse, foldl_append, foldl_act_ready]
    have hops := exactlyOnceOps_run maxSessions hrep hstay.1 confReq.context
    have hcases := applyParsedConfChange_ok_cases hparsed
    rcases hops with ⟨err, hget, hops⟩ | ⟨session, m, l', order', objects', hget, hcleared, hrep',
      hsession, hops⟩
    · rcases hcases with ⟨-, rfl, rfl⟩ | ⟨session, found, hfound, -⟩
      · have hchange : (s.left.opened false).change codecs e.2.index cc confReq =
            s.left.opened false := rfl
        rw [hops, foldl_act_change]
        rw [hchange, addResult_run_of_none rfl]
        have hnext := h.unchanged hstay hrep (s.left.opened false) rfl hstay.1
          { r.membership with confState := (newConfState ar).getD r.membership.confState } rfl rfl
        exact ⟨hnext.1, .inl hnext.2⟩
      · cases hget.symm.trans hfound
    · rcases hcases with ⟨⟨err, herr⟩, -⟩ | ⟨session, found, hfound, hcases⟩
      · cases hget.symm.trans herr
      · cases hget.symm.trans hfound
        rw [hcleared] at hcases
        rw [hops]
        rcases hcases with ⟨hstored, rfl, rfl⟩ | ⟨hstored, outcome, hmade, hadd, hremoved⟩
        · let p : Locals R ReadyRest := { s.left.opened true with
            repeated := (m.getResult session confReq.context.sequenceNum).isSome
            stored := m.getResult session confReq.context.sequenceNum }
          have hchange : p.change codecs e.2.index cc confReq = p :=
            Locals.change_of_repeated hstored _ _ _
          rw [foldl_act_change]
          rw [hchange, addResult_run_of_none rfl]
          have hnext := h.unchanged hstay hrep' p rfl hstay.1
            { r.membership with confState := (newConfState ar).getD r.membership.confState } rfl rfl
          exact ⟨hnext.1, .inl hnext.2⟩
        · have hnext := h.changed sm hstay hrep' hsession hmade hadd
            ((newConfState ar).getD m'.confState)
          rw [hstored]
          refine ⟨hnext.1, ?_⟩
          cases hremove : removesSelf outcome with
          | false => exact .inl (hnext.2 hremove)
          | true =>
            rw [hremoved, hremove] at hfacade
            exact .inr ⟨htype, _, _, _, hfacade⟩

theorem Linked.withSessions (h : Linked maxSessions s r) (hrep : l'.Represents order' objects') :
    Linked maxSessions ⟨s.left, s.right, order', objects'⟩
      { r with sessions := .lru ⟨maxSessions, l'⟩ } :=
  { h with sessions := ⟨l', rfl, hrep⟩ }

theorem Linked.register (h : Linked maxSessions s r) (req : RegisterSessionRequest) :
    Linked maxSessions
      (act codecs sm maxSessions s (if req.unregister then .unRegister req.sessionID
        else .register e.2.index e.1.reqTime))
      { r with sessions := (handleSessionRegister r.sessions e.2 e.1.reqTime req).2 } := by
  obtain ⟨l, hsessions, hrep⟩ := h.sessions
  rw [hsessions]
  cases hunregister : req.unregister with
  | true =>
    by_cases hmem : req.sessionID ∈ s.value
    · have hhandled : (handleSessionRegister (.lru ⟨maxSessions, l⟩) e.2 e.1.reqTime req).2 =
          .lru ⟨maxSessions, l.erase req.sessionID⟩ := by
        simp [handleSessionRegister, hunregister, SessionManager.unRegister, LruManager.unRegister,
          hrep.find?_of_mem hmem, Except.map]
      have hact : act codecs sm maxSessions s (.unRegister req.sessionID) =
          ⟨s.left, s.right, s.value.erase req.sessionID, Function.update s.objects req.sessionID
            ((s.objects req.sessionID).clearResult (2 ^ 63 - 1))⟩ := by
        simp [act, SessionCall.effect, Effect.onRight, Effect.run, h.running, hmem]
      rw [hhandled, if_pos rfl, hact]
      have hnot : req.sessionID ∉ s.value.erase req.sessionID := by
        have hnodup : s.value.Nodup := hrep.map_key ▸ l.nodup
        exact hnodup.not_mem_erase
      exact h.withSessions ((hrep.erase req.sessionID).update_of_not_mem hnot _)
    · have hhandled : (handleSessionRegister (.lru ⟨maxSessions, l⟩) e.2 e.1.reqTime req).2 =
          .lru ⟨maxSessions, l⟩ := by
        simp [handleSessionRegister, hunregister, SessionManager.unRegister, LruManager.unRegister,
          hrep.find?_of_not_mem hmem, Except.map]
      have hact : act codecs sm maxSessions s (.unRegister req.sessionID) = s := by
        simp [act, SessionCall.effect, Effect.onRight, Effect.run, hmem]
      rw [hhandled, if_pos rfl, hact]
      exact h.withSessions hrep
  | false =>
    rw [if_neg Bool.false_ne_true]
    by_cases hmem : e.2.index ∈ s.value
    · have hhandled : (handleSessionRegister (.lru ⟨maxSessions, l⟩) e.2 e.1.reqTime req).2 =
          .lru ⟨maxSessions, l⟩ := by
        simp [handleSessionRegister, hunregister, SessionManager.register, LruManager.register,
          hrep.find?_of_mem hmem, Except.map]
      have hact : act codecs sm maxSessions s (.register e.2.index e.1.reqTime) = s := by
        simp [act, SessionCall.effect, Effect.onRight, Effect.run, hmem]
      rw [hhandled, hact]
      exact h.withSessions hrep
    · have hpush := hrep.pushFront (a := .newSession e.2.index e.1.reqTime) hmem
      have hlength := congrArg List.length hpush.toList
      rw [length_map] at hlength
      have hhandled : (handleSessionRegister (.lru ⟨maxSessions, l⟩) e.2 e.1.reqTime req).2 =
          .lru ⟨maxSessions, if ((e.2.index :: s.value).length : Int) > maxSessions
            then (l.pushFront (.newSession e.2.index e.1.reqTime)).dropLast
            else l.pushFront (.newSession e.2.index e.1.reqTime)⟩ := by
        simp only [handleSessionRegister, hunregister, SessionManager.register, LruManager.register,
          hrep.find?_of_not_mem hmem, Except.map, hlength]
        rfl
      have hact : act codecs sm maxSessions s (.register e.2.index e.1.reqTime) =
          ⟨s.left, s.right, registerOrder maxSessions s.value e.2.index,
            Function.update s.objects e.2.index (.newSession e.2.index e.1.reqTime)⟩ := by
        simp [act, SessionCall.effect, Effect.onRight, Effect.run, h.running, hmem]
      rw [hhandled, hact]
      apply h.withSessions
      unfold registerOrder
      dsimp only
      split
      · exact hpush.dropLast
      · exact hpush

theorem Linked.applied {req : NormalRequest} (h : Linked maxSessions s r)
    (hrep : l'.Represents order' objects') (hsession : HandleOf session sid order')
    (p : Locals R σ) (hp : p.rest = s.right.rest) (hrunning : p.halted = false)
    (hactive : p.active = true)
    (hcond : (!p.repeated || p.stored.any ApplyResult.isEmpty) = true)
    (happly : applyCommand sm { r with sessions := .lru ⟨maxSessions, l'⟩ } now e.2 req session =
      .ok r') :
    Linked maxSessions ([SessionCall.command ⟨e.2.term, e.2.index, req.stateMachineLog⟩,
      .apply (.addResult sid req.context.sequenceNum now)].foldl (act codecs sm maxSessions)
        ⟨s.left, p, order', objects'⟩) r' := by
  let command : Command := ⟨e.2.term, e.2.index, req.stateMachineLog⟩
  let p' : Locals R σ := { p with
    rest := (sm r.stateMachine command).1
    toAdd := some (sm r.stateMachine command).2 }
  have hcommand : p.command sm command = p' := by
    rw [Locals.command, hactive, hcond, hp, h.stateMachine]
    rfl
  unfold applyCommand at happly
  dsimp only at happly
  cases hadd : (SessionManager.lru ⟨maxSessions, l'⟩).addResult session req.context.sequenceNum now
      (sm r.stateMachine command).2 with
  | error err =>
    rw [hadd] at happly
    cases happly
  | ok sessions =>
    rw [hadd] at happly
    cases happly
    have hactive' : p'.active = true := hactive
    obtain ⟨l'', objects'', rfl, hrep', hrun⟩ := addResult_run hrep hsession hactive' rfl hadd
    rw [foldl_act_command]
    rw [hcommand, hrun]
    exact ⟨⟨l'', rfl, hrep'⟩, h.cluster, h.configuration, rfl, hrunning⟩

theorem Linked.request (h : Linked maxSessions s r) {req : NormalRequest}
    (happly : applyRequest sm r e.1.now e.2 req = .ok r') :
    Linked maxSessions (((exactlyOnceOps req.context).map SessionCall.apply ++
      [SessionCall.command ⟨e.2.term, e.2.index, req.stateMachineLog⟩,
        .apply (.addResult req.context.sessionID req.context.sequenceNum e.1.now)]).foldl
          (act codecs sm maxSessions) s) r' := by
  obtain ⟨l, hsessions, hrep⟩ := h.sessions
  rw [foldl_append, foldl_act_apply]
  unfold applyRequest at happly
  rw [hsessions] at happly
  have hops := exactlyOnceOps_run maxSessions hrep h.running req.context
  rcases hops with ⟨err, hget, hops⟩ | ⟨session, m, l', order', objects', hget, hcleared, hrep',
    hsession, hops⟩
  · rw [hget] at happly
    cases happly
    have hcommand : (s.right.opened false).command sm ⟨e.2.term, e.2.index, req.stateMachineLog⟩ =
        s.right.opened false := rfl
    rw [hops, foldl_act_command]
    rw [hcommand, addResult_run_of_none rfl]
    exact { h with sessions := ⟨l, hsessions, hrep⟩ }
  · rw [hget] at happly
    dsimp only at happly
    have hactive : (s.right.opened true).active = true := by
      simp only [Locals.active, Locals.opened, h.running, Bool.not_false, Bool.and_true]
    rw [hops]
    cases hstored : m.getResult session req.context.sequenceNum with
    | none =>
      rw [hstored, hcleared] at happly
      exact h.applied hrep' hsession (s.right.opened true) rfl h.running hactive rfl happly
    | some ar =>
      rw [hstored, hcleared] at happly
      dsimp only at happly
      let p : Locals R σ := { s.right.opened true with repeated := true, stored := some ar }
      cases hempty : ar.isEmpty with
      | true =>
        rw [hempty] at happly
        exact h.applied hrep' hsession p rfl h.running hactive hempty happly
      | false =>
        rw [hempty] at happly
        cases happly
        have hcommand : p.command sm ⟨e.2.term, e.2.index, req.stateMachineLog⟩ = p := by
          have hcond : (!p.repeated || p.stored.any ApplyResult.isEmpty) = false := hempty
          rw [Locals.command, hcond, Bool.and_false]
          rfl
        rw [foldl_act_command]
        rw [show Option.isSome (some ar) = true from rfl, hcommand, addResult_run_of_none rfl]
        exact { h with sessions := ⟨l', rfl, hrep'⟩ }

theorem foldl_act_left {calls : List SessionCall} (h : ∀ call ∈ calls, call.byReady = false)
    (s : SessionState σ R) : (calls.foldl (act codecs sm maxSessions) s).left = s.left := by
  induction calls generalizing s with
  | nil => rfl
  | cons call calls ih =>
    obtain ⟨hcall, hcalls⟩ := forall_mem_cons.mp h
    obtain ⟨effect, heffect, -⟩ := SessionCall.effect_of_not_byReady codecs sm maxSessions hcall
    refine (ih hcalls _).trans ?_
    rw [act, heffect]
    rfl

theorem byReady_normalCalls : ∀ call ∈ normalCalls codecs info e, call.byReady = false := by
  unfold normalCalls
  split
  · split
    · simp
    · simp [SessionCall.byReady]
  · split
    · simp [SessionCall.byReady]
    · split
      · split
        all_goals simp [SessionCall.byReady]
      · simp
      · simp [SessionCall.byReady, exactlyOnceOps]

theorem Linked.normal (h : Linked maxSessions s r) (hpos : 0 < e.2.index)
    (htype : e.2.type = .normal) (hdata : e.2.data ≠ [])
    (hprocess : processEntry codecs sm info r e = .ok r') :
    Linked maxSessions ((normalCalls codecs info e).foldl (act codecs sm maxSessions) s) r' := by
  have happly : applyEntry codecs sm info r e.1 e.2 = .ok r' := by
    rwa [← processEntry_of_ne sm (by rw [htype]; exact nofun)]
  rw [applyEntry, if_neg hdata, htype] at happly
  unfold normalCalls
  by_cases hopen : e.2.index ≤ info.openAppliedIndex
  · rw [if_pos hopen] at happly ⊢
    cases hdisk : info.diskType with
    | false =>
      rw [hdisk] at happly
      cases happly
    | true =>
      rw [hdisk] at happly
      cases happly
      exact h
  · rw [if_neg hopen] at happly ⊢
    rw [applyNormalEntry] at happly
    cases hdecode : codecs.normalRequest e.2.data with
    | none =>
      rw [hdecode] at happly
      cases happly
    | some req =>
      rw [hdecode] at happly
      dsimp only at happly ⊢
      cases hregister : req.register with
      | some register =>
        rw [hregister] at happly
        dsimp only at happly ⊢
        rw [handleSessionRegister_isEmpty hpos] at happly
        cases happly
        exact h.register register
      | none =>
        cases hpub : req.pubAppService with
        | some pubAppService =>
          rw [hregister, hpub] at happly
          dsimp only at happly ⊢
          rw [handlePubAppService_isEmpty hpos] at happly
          cases happly
          exact { h with
            cluster := h.cluster.trans
              (handlePubAppService_same _ _ _) }
        | none =>
          have hrequest : clientRequest codecs info e.2 = some req := by
            rw [clientRequest, if_pos ⟨hdata, htype, by omega⟩, hdecode, Option.filter_some,
              hregister, hpub]
            rfl
          have hsame : r.expireSession e.1.reqTime = r := by
            obtain ⟨l, hsessions, -⟩ := h.sessions
            have hexpire : r.sessions.expireSession e.1.reqTime = r.sessions := by
              rw [hsessions]
              rfl
            rw [Replica.expireSession, hexpire]
          rw [processEntry_clientRequest sm hrequest, hsame] at hprocess
          exact h.request hprocess

theorem Linked.entry (h : Linked maxSessions s r) (hstay : Staying s) (hpos : 0 < e.2.index)
    (hprocess : processEntry codecs sm info r e = .ok r') :
    Linked maxSessions ((sessionCalls codecs info e).foldl (act codecs sm maxSessions) s) r' ∧
      (Staying ((sessionCalls codecs info e).foldl (act codecs sm maxSessions) s) ∨
        RemovesSelfAt codecs r e) := by
  unfold sessionCalls
  cases htype : e.2.type with
  | confChange =>
    rw [processEntry_confChange sm htype] at hprocess
    exact h.confChange hstay htype hprocess
  | normal =>
    by_cases hdata : e.2.data = []
    · rw [if_pos hdata]
      rw [processEntry_of_ne sm (by simp [htype]), applyEntry, if_pos hdata] at hprocess
      cases hprocess
      exact ⟨h, .inl hstay⟩
    · rw [if_neg hdata]
      refine ⟨h.normal hpos htype hdata hprocess, .inl ?_⟩
      rwa [Staying, foldl_act_left byReady_normalCalls]
  | confChangeV2 =>
    dsimp only
    rw [processEntry_of_ne sm (by simp [htype]), applyEntry, htype] at hprocess
    by_cases hdata : e.2.data = []
    · rw [if_pos hdata] at hprocess ⊢
      cases hprocess
      exact ⟨h, .inl hstay⟩
    · rw [if_neg hdata] at hprocess
      cases hprocess

theorem expiryAgrees_lru (m : SessionManager R) (l : LruManager R) (now now' : Int) :
    ExpiryAgrees m now (.lru l) now' := by
  cases m with
  | _ => exact trivial

theorem removesSelfAt_forget {e' : TimedEntry} (hlru : ∃ m, r.sessions = .lru m)
    (hforget : r'.forget = r.forget) (he : e'.2 = e.2) (h : RemovesSelfAt codecs r e) :
    RemovesSelfAt codecs r' e' := by
  obtain ⟨htype, ar, sessions, m, hfacade⟩ := h
  obtain ⟨hsessions, hmembership, -⟩ := Replica.mk.inj hforget
  have hsessions : r'.sessions.forget = r.sessions.forget := hsessions
  have hmembership : r'.membership = r.membership := hmembership
  have hexpired : (r'.sessions.expireSession e'.1.reqTime).forget =
      (r.sessions.expireSession e.1.reqTime).forget := by
    apply expireSession_forget hsessions
    obtain ⟨l, hl⟩ := hlru
    rw [hl]
    exact expiryAgrees_lru _ _ _ _
  refine ⟨he ▸ htype, ?_⟩
  unfold facadeApplyConfChangeEntry at hfacade ⊢
  rw [he]
  cases hparse : parseConfChangeEntry codecs e.2 with
  | none =>
    rw [hparse] at hfacade
    cases hfacade
  | some parsed =>
    obtain ⟨cc, confReq⟩ := parsed
    rw [hparse] at hfacade
    dsimp only at hfacade ⊢
    have h' : applyParsedConfChange codecs _ _ _ _ _ _ = _ :=
      applyParsedConfChange_forget (r'.sessions.expireSession e'.1.reqTime) r'.membership
        e'.1.reqTime e.2 cc confReq
    rw [hexpired, hmembership, applyParsedConfChange_forget _ _ e.1.reqTime, hfacade] at h'
    obtain ⟨⟨ar', removeSelf, sessions', m'⟩, happly, heq⟩ := map_eq_ok h'.symm
    obtain rfl : true = removeSelf := congrArg (fun p => p.2.1) heq
    rw [hmembership]
    exact ⟨_, _, _, happly⟩

theorem Linked.entries {log log' : List TimedEntry} {r'' : Replica σ R} (h : Linked maxSessions s r)
    (hforget : r'.forget = r.forget) (hstay : log ≠ [] → Staying s)
    (hlog : log'.map Prod.snd = log.map Prod.snd) (hpos : ∀ e ∈ log, 0 < e.2.index)
    (hlast : ∀ pre e post m, log' = pre ++ e :: post → run (processEntry codecs sm info) r' pre =
      .ok m → RemovesSelfAt codecs m e → post = [])
    (hrun : run (processEntry codecs sm info) r' log' = .ok r'') :
    ∃ r₁, r''.forget = r₁.forget ∧ Linked maxSessions
      ((log.flatMap (sessionCalls codecs info)).foldl (act codecs sm maxSessions) s) r₁ := by
  induction log generalizing log' s r r' with
  | nil =>
    rw [map_nil, map_eq_nil_iff] at hlog
    rw [hlog] at hrun
    cases hrun
    exact ⟨r, hforget, h⟩
  | cons e log ih =>
    obtain ⟨e', log', rfl, he, htail⟩ := map_eq_cons_iff.mp hlog
    obtain ⟨r₁', hstep', hrest⟩ := run_cons_eq_ok.mp hrun
    obtain ⟨hpos₀, hpos₁⟩ := forall_mem_cons.mp hpos
    obtain ⟨l, hsessions, -⟩ := h.sessions
    obtain ⟨clock, entry⟩ := e
    obtain ⟨clock', entry'⟩ := e'
    obtain rfl : entry' = entry := he
    have hsame : (processEntry codecs sm info r' (clock', entry')).map Replica.forget =
        (processEntry codecs sm info r (clock, entry')).map Replica.forget :=
      processEntry_map_forget sm (x := ⟨clock', clock, entry'⟩) hforget fun _ => by
        rw [hsessions]
        exact expiryAgrees_lru _ _ _ _
    rw [hstep'] at hsame
    obtain ⟨r₁, hstep, hforget₁⟩ := map_eq_ok hsame.symm
    obtain ⟨hlinked, hnext⟩ := h.entry (hstay nofun) hpos₀ hstep
    rw [flatMap_cons, foldl_append]
    refine ih hlinked hforget₁ (fun hne => ?_) htail hpos₁ (fun pre e post m hsplit hpre => ?_)
      hrest
    · rcases hnext with hstaying | hremoves
      · exact hstaying
      · have hremoves' : RemovesSelfAt codecs r' (clock', entry') :=
          removesSelfAt_forget (e := (clock, entry')) ⟨_, hsessions⟩ hforget rfl hremoves
        have hend : log' = [] := hlast [] _ log' r' rfl rfl hremoves'
        rw [hend, map_nil, eq_comm, map_eq_nil_iff] at htail
        exact absurd htail hne
    · apply hlast ((clock', entry') :: pre) e post m
      · rw [hsplit, cons_append]
      · rwa [run_cons_ok _ hstep']

theorem foldl_act_batches (batches : List (List TimedEntry)) (s : SessionState σ R) :
    (batches.flatMap (batchCalls codecs info)).foldl (act codecs sm maxSessions) s =
      (batches.flatten.flatMap (sessionCalls codecs info)).foldl (act codecs sm maxSessions) s := by
  induction batches generalizing s with
  | nil => rfl
  | cons entries batches ih =>
    rw [flatMap_cons, foldl_append, ih, flatten_cons, flatMap_append,
      foldl_append]
    rfl

/-- The sessions of the manager, the latest first, without the times of last activity. -/
def sessionsOf (s : SessionState σ R) : List (Session R) :=
  s.value.map fun sid => (s.objects sid).forget

theorem Linked.sessionsOf_eq (h : Linked maxSessions s r) :
    sessionsOf s = r.sessions.forget.toList := by
  obtain ⟨l, hsessions, hrep⟩ := h.sessions
  rw [hsessions]
  change _ = l.toList.map Session.forget
  rw [hrep.toList, map_map]
  rfl

/-- When both loops have processed a log, the sessions, their order and their results are those of
the log taken entry by entry, whatever the batches, the interleaving and the clocks are, if no
conflicting calls change places and nothing is committed behind the removal of the node itself. -/
theorem sessions_of_log {batches : List (List TimedEntry)} {ys : List (SessionCall × Nat)}
    {log : List TimedEntry} (hinterleaving : SessionInterleaving codecs info batches ys)
    (hordered : InOrder SessionCall.Conflict ys)
    (hlog : log.map Prod.snd = batches.flatten.map Prod.snd)
    (hpos : ∀ e ∈ batches.flatten, 0 < e.2.index)
    (hlast : ∀ pre e post m, log = pre ++ e :: post →
      run (processEntry codecs sm info) r pre = .ok m → RemovesSelfAt codecs m e → post = [])
    (hstart : Linked maxSessions s r) (hstay : Staying s)
    (hrun : run (processEntry codecs sm info) r log = .ok r') :
    sessionsOf ((ys.map Prod.fst).foldl (act codecs sm maxSessions) s) =
      r'.sessions.forget.toList := by
  have hact := foldl_sim_of_interleaving eq_equivalence
    (fun call h => congrArg (act codecs sm maxSessions · call) h) SessionCall.Conflict.symm
    (fun s => SessionCall.act_comm_of_ready s) hinterleaving.perm hinterleaving.inLoop hordered s
  rw [hact, foldl_act_batches]
  obtain ⟨r₁, hforget, hlinked⟩ := hstart.entries rfl (fun _ => hstay) hlog hpos hlast hrun
  rw [hlinked.sessionsOf_eq]
  exact congrArg SessionManager.toList (Replica.mk.inj hforget).1.symm

end Step

/-! ## Two sessions and room for two -/

/-- Sessions 1 and 2 of a manager that keeps two, the second used last. -/
def twoSessions : SessionState Nat Nat :=
  ⟨⟨false, false, none, none, false,
    ⟨(newReplica (.noOp : SessionManager Nat) 0).withVoter.membership, false⟩⟩,
    ⟨false, false, none, none, false, 0⟩, [2, 1], fun sid => .newSession sid 0⟩

def changeAndRegister : List TimedEntry :=
  [changeEntry 3 0, (⟨0, 0⟩, ⟨1, 4, .normal, [0]⟩)]

def changeAndRegisterCodecs : RequestCodecs :=
  requestTable [registerRequest] [(.addNode, changeRequest 1 1 ⟨2, "b", false, 0⟩)]

def changeAndRegisterCalls (order : List Nat) : List (SessionCall × Nat) :=
  order.filterMap fun i =>
    (positions ([changeAndRegister].flatMap (batchCalls changeAndRegisterCodecs ⟨0, false⟩)))[i]?

/-- The apply loop registers the session before the Ready loop has got session 1. -/
def registerFirst : List (SessionCall × Nat) :=
  changeAndRegisterCalls [0, 1, 9, 2, 3, 4, 5, 6, 7, 8]

/-- The Ready loop makes the change before the apply loop has received the batch. -/
def changeBeforeRegister : List (SessionCall × Nat) :=
  changeAndRegisterCalls [0, 2, 3, 4, 5, 6, 7, 8, 1, 9]

/-- Which session is evicted depends on the interleaving. -/
theorem registerFirst_evicts_other :
    SessionInterleaving changeAndRegisterCodecs ⟨0, false⟩ [changeAndRegister] registerFirst ∧
    SessionInterleaving changeAndRegisterCodecs ⟨0, false⟩ [changeAndRegister]
      changeBeforeRegister ∧
    (sessionsOf ((registerFirst.map Prod.fst).foldl (act changeAndRegisterCodecs counter 2)
      twoSessions)).map Session.id = [4, 2] ∧
    (sessionsOf ((changeBeforeRegister.map Prod.fst).foldl (act changeAndRegisterCodecs counter 2)
      twoSessions)).map Session.id = [4, 1] := by
  refine ⟨⟨?_, ?_, ?_⟩, ⟨?_, ?_, ?_⟩, ?_, ?_⟩
  all_goals decide +kernel

def twoSessionsReplica : Replica Nat Nat :=
  (newReplica (.lru ⟨2, ⟨[.newSession 2 0, .newSession 1 0], by decide⟩⟩) 0).withVoter

theorem changeBeforeRegister_sessions :
    ∃ r', run (processEntry changeAndRegisterCodecs counter ⟨0, false⟩) twoSessionsReplica
        changeAndRegister = .ok r' ∧
      sessionsOf ((changeBeforeRegister.map Prod.fst).foldl (act changeAndRegisterCodecs counter 2)
        twoSessions) = r'.sessions.forget.toList := by
  refine (exists_eq_ok (by decide +kernel)).imp fun r' hrun => ⟨hrun, ?_⟩
  have hinterleaving : SessionInterleaving changeAndRegisterCodecs ⟨0, false⟩ [changeAndRegister]
      changeBeforeRegister :=
    ⟨by decide +kernel, by decide +kernel, by decide +kernel⟩
  have hstays : ¬ RemovesSelfAt changeAndRegisterCodecs twoSessionsReplica (changeEntry 3 0) := by
    rintro ⟨-, ar, sessions, m, hfacade⟩
    have hremove : (facadeApplyConfChangeEntry changeAndRegisterCodecs twoSessionsReplica.sessions
        twoSessionsReplica.membership (changeEntry 3 0).1.reqTime (changeEntry 3 0).2).map
          (fun p => p.2.1) = .ok false := by
      decide +kernel
    rw [hfacade] at hremove
    cases hremove
  have hlast : ∀ pre e post m, changeAndRegister = pre ++ e :: post →
      run (processEntry changeAndRegisterCodecs counter ⟨0, false⟩) twoSessionsReplica pre = .ok m →
      RemovesSelfAt changeAndRegisterCodecs m e → post = [] := by
    intro pre e post m hsplit hpre hremoves
    cases pre with
    | nil =>
      cases hpre
      obtain ⟨rfl, -⟩ := List.cons.inj hsplit
      exact absurd hremoves hstays
    | cons e₁ pre =>
      have hlength := congrArg List.length hsplit
      simp only [changeAndRegister, length_cons, length_nil, length_append,
        cons_append] at hlength
      exact eq_nil_of_length_eq_zero (by omega)
  have hlinked : Linked 2 twoSessions twoSessionsReplica :=
    ⟨⟨_, rfl, rfl, fun _ _ => rfl⟩, .refl _, rfl, rfl, rfl⟩
  exact sessions_of_log hinterleaving (by decide +kernel) rfl (by decide) hlast hlinked ⟨rfl, rfl⟩
    hrun

end Babuza.Raft
