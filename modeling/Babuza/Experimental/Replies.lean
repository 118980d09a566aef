import Babuza.Lib.Run
import Mathlib.Data.List.Infix
import Mathlib.Logic.Function.Basic

/-!
# Replies to the calls of a store

A call of the store's interface queues a request and returns a channel on which the caller waits. A
request that the raw node refuses is answered at once, one that is accepted when its entry is
applied. An answer for a reply id without a channel is dropped. `Propose` registers the channel
before it queues the request, the other calls after that.

Reply ids carry a sequence number and the id of the store, so the state is a record for each call. A
worker may take a request as soon as it is queued.
-/

namespace Babuza.Experimental

open Lib List

/-! ## One call -/

/-- The calls that queue a request; all conf changes go through `enqueueConfigChange`. -/
inductive Api where
  | propose
  | registerSession
  | unregisterSession
  | enqueueConfigChange
  deriving DecidableEq

inductive CallStep where
  | acquireResultChan
  | put
  | enqueueState
  deriving DecidableEq

def Api.steps : Api → List CallStep
  | .propose => [.acquireResultChan, .put, .enqueueState]
  | .registerSession => [.put, .enqueueState, .acquireResultChan]
  | .unregisterSession => [.put, .enqueueState, .acquireResultChan]
  | .enqueueConfigChange => [.put, .enqueueState, .acquireResultChan]

inductive Place where
  | withCaller
  | queued
  | proposed
  | answered
  deriving DecidableEq

/-- A call, with the steps it still has to take. `registered` says that the map of result channels
has its reply id, and `received` is what was sent on the channel. `answer` is what was passed to
`SendResult` for it. -/
structure Call (T : Type*) where
  api : Api
  remaining : List CallStep
  place : Place
  registered : Bool
  received : Option T
  answer : Option T
  deriving DecidableEq

/-- What happens to a call: its own steps, and those of the workers and of the apply jobs. -/
inductive CallEvent (T : Type*) where
  | advance
  | putFails
  | accepted
  | rejected (result : T)
  | applied (result : T)
  deriving DecidableEq

inductive CallError where
  | disabled
  deriving DecidableEq

namespace Call

variable {T : Type*}

def start (api : Api) : Call T := ⟨api, api.steps, .withCaller, false, none, none⟩

def sendResult (c : Call T) (result : T) : Call T :=
  if c.registered then { c with
    place := .answered, answer := some result, registered := false, received := some result }
  else { c with place := .answered, answer := some result }

def step (c : Call T) : CallEvent T → Except CallError (Call T)
  | .advance =>
    match c.remaining with
    | [] => .error .disabled
    | .acquireResultChan :: rest => .ok { c with registered := true, remaining := rest }
    | .put :: rest => .ok { c with place := .queued, remaining := rest }
    | .enqueueState :: rest => .ok { c with remaining := rest }
  | .putFails =>
    match c.remaining with
    | .put :: _ => .ok { c with registered := false, remaining := [] }
    | _ => .error .disabled
  | .accepted => if c.place = .queued then .ok { c with place := .proposed } else .error .disabled
  | .rejected result => if c.place = .queued then .ok (c.sendResult result) else .error .disabled
  | .applied result => if c.place = .proposed then .ok (c.sendResult result) else .error .disabled

def Delivered (c : Call T) : Prop :=
  ∀ result, c.answer = some result → c.received = some result

/-- The event is no answer that comes before the channel of a call other than `Propose`. -/
def InTime (c : Call T) : CallEvent T → Prop
  | .rejected _ | .applied _ => c.api = .propose ∨ .acquireResultChan ∉ c.remaining
  | _ => True

instance (c : Call T) (e : CallEvent T) : Decidable (c.InTime e) := by
  cases e <;> unfold InTime <;> infer_instance

/-- What holds of a call at any time. While its answer can still come, the channel is registered as
soon as the call has taken that step. -/
structure WellFormed (c : Call T) : Prop where
  suffix : c.remaining <:+ c.api.steps
  queued_of_put : c.place ≠ .withCaller → .put ∉ c.remaining
  unanswered : c.place ≠ .answered → c.answer = none ∧ c.received = none
  registered_iff : c.place = .queued ∨ c.place = .proposed ∨ .put ∈ c.remaining →
    (c.registered = true ↔ .acquireResultChan ∉ c.remaining)

theorem start_wellFormed (api : Api) : (start api : Call T).WellFormed where
  suffix := suffix_rfl
  queued_of_put := fun h => absurd rfl h
  unanswered := fun _ => ⟨rfl, rfl⟩
  registered_iff := by cases api <;> simp [start, Api.steps]

variable {c : Call T} {rest : List CallStep}

section

variable (h : c.WellFormed)
include h

theorem WellFormed.notMem_rest {x : CallStep} (heq : c.remaining = x :: rest) : x ∉ rest := by
  have hnodup : c.remaining.Nodup := h.suffix.sublist.nodup (by cases c.api <;> decide)
  rw [heq] at hnodup
  exact (nodup_cons.mp hnodup).1

theorem WellFormed.suffix_rest {x : CallStep} (heq : c.remaining = x :: rest) :
    rest <:+ c.api.steps :=
  (suffix_cons x rest).trans (heq ▸ h.suffix)

theorem WellFormed.propose (hapi : c.api = .propose) (hput : .put ∉ c.remaining) :
    .acquireResultChan ∉ c.remaining := by
  have hsuffix := h.suffix
  rw [hapi, Api.steps, suffix_cons_iff, suffix_cons_iff] at hsuffix
  rcases hsuffix with heq | heq | hsuffix
  · simp [heq] at hput
  · simp [heq] at hput
  · intro hmem
    have := hsuffix.subset hmem
    simp at this

theorem WellFormed.sendResult (hplace : c.place ≠ .withCaller) (result : T) :
    (c.sendResult result).WellFormed := by
  have hput := h.queued_of_put hplace
  unfold Call.sendResult
  split
  all_goals exact ⟨h.suffix, fun _ => hput, fun h => absurd rfl h, by simp [hput]⟩

theorem WellFormed.withCaller (heq : c.remaining = .put :: rest) : c.place = .withCaller := by
  by_contra hplace
  exact h.queued_of_put hplace (by simp [heq])

theorem WellFormed.step {c' : Call T} {e : CallEvent T} (hstep : c.step e = .ok c') :
    c'.WellFormed := by
  cases e with
  | advance =>
    simp only [Call.step] at hstep
    split at hstep
    · cases hstep
    · next rest heq =>
      cases hstep
      have hmem : .put ∈ rest → .put ∈ c.remaining := by simp [heq]
      refine ⟨h.suffix_rest heq, fun hplace hput => h.queued_of_put hplace (hmem hput),
        h.unanswered, fun _ => ?_⟩
      simp [h.notMem_rest heq]
    · next rest heq =>
      cases hstep
      have hwith := h.withCaller heq
      refine ⟨h.suffix_rest heq, fun _ => h.notMem_rest heq,
        fun _ => h.unanswered (by simp [hwith]), fun _ => ?_⟩
      have hiff := h.registered_iff (.inr (.inr (by simp [heq])))
      simpa [heq] using hiff
    · next rest heq =>
      cases hstep
      have hmem : .put ∈ rest ↔ .put ∈ c.remaining := by simp [heq]
      refine ⟨h.suffix_rest heq, fun hplace hput => h.queued_of_put hplace (hmem.mp hput),
        h.unanswered, fun hplace => ?_⟩
      have hiff := h.registered_iff (by simpa [hmem] using hplace)
      simpa [heq] using hiff
  | putFails =>
    simp only [Call.step] at hstep
    split at hstep
    · next rest heq =>
      cases hstep
      have hwith := h.withCaller heq
      exact ⟨nil_suffix, fun _ => not_mem_nil, h.unanswered, by simp [hwith]⟩
    · cases hstep
  | accepted =>
    simp only [Call.step] at hstep
    split at hstep
    · next hplace =>
      cases hstep
      exact ⟨h.suffix, fun _ => h.queued_of_put (by simp [hplace]),
        fun _ => h.unanswered (by simp [hplace]), fun _ => h.registered_iff (.inl hplace)⟩
    · cases hstep
  | rejected result | applied result =>
    simp only [Call.step] at hstep
    split at hstep
    · next hplace =>
      cases hstep
      exact h.sendResult (by simp [hplace]) result
    · cases hstep

theorem delivered_sendResult_iff (hplace : c.place = .queued ∨ c.place = .proposed) (result : T) :
    (c.sendResult result).Delivered ↔ c.api = .propose ∨ .acquireResultChan ∉ c.remaining := by
  have hput : .put ∉ c.remaining := h.queued_of_put (by rcases hplace with hp | hp <;> simp [hp])
  have hnone : c.received = none :=
    (h.unanswered (by rcases hplace with hp | hp <;> simp [hp])).2
  have hiff := h.registered_iff (by tauto)
  have hregistered : (c.sendResult result).Delivered ↔ c.registered = true := by
    unfold Delivered Call.sendResult
    split
    · next hreg => simp [hreg]
    · next hreg => simp [hreg, hnone]
  rw [hregistered, hiff]
  constructor
  · exact .inr
  · rintro (hapi | hacquired)
    · exact h.propose hapi hput
    · exact hacquired

theorem delivered_step_iff {c' : Call T} (hdelivered : c.Delivered) {e : CallEvent T}
    (hstep : c.step e = .ok c') : c'.Delivered ↔ c.InTime e := by
  cases e with
  | advance =>
    refine iff_of_true ?_ trivial
    simp only [Call.step] at hstep
    split at hstep
    · cases hstep
    all_goals
      cases hstep
      exact hdelivered
  | putFails | accepted =>
    refine iff_of_true ?_ trivial
    simp only [Call.step] at hstep
    split at hstep <;> cases hstep
    exact hdelivered
  | rejected result | applied result =>
    simp only [Call.step] at hstep
    split at hstep
    · next hplace =>
      cases hstep
      exact delivered_sendResult_iff h (by simp [hplace]) result
    · cases hstep

end

end Call

/-! ## All calls of a store to a group -/

structure Calls (T : Type*) where
  nextID : Nat
  calls : Nat → Option (Call T)

/-- A goroutine starts a call, or something happens to the call with a reply id. -/
inductive CallsInput (T : Type*) where
  | call (api : Api)
  | event (replyID : Nat) (e : CallEvent T)

namespace Calls

variable {T : Type*}

def none : Calls T := ⟨0, fun _ => .none⟩

def exec (s : Calls T) : CallsInput T → Except CallError (Calls T)
  | .call api => .ok ⟨s.nextID + 1, Function.update s.calls s.nextID (some (.start api))⟩
  | .event replyID e =>
    match s.calls replyID with
    | .none => .error .disabled
    | some c =>
      match c.step e with
      | .error err => .error err
      | .ok c' => .ok { s with calls := Function.update s.calls replyID (some c') }

/-- Every answer given so far was delivered on the channel that the caller got. -/
def Delivered (s : Calls T) : Prop :=
  ∀ replyID c, s.calls replyID = some c → c.Delivered

def InTime (s : Calls T) : CallsInput T → Prop
  | .call _ => True
  | .event replyID e => ∀ c, s.calls replyID = some c → c.InTime e

instance (s : Calls T) : (i : CallsInput T) → Decidable (s.InTime i)
  | .call _ => .isTrue trivial
  | .event replyID e =>
    match hc : s.calls replyID with
    | .none => .isTrue fun c h => by rw [hc] at h; cases h
    | some c => decidable_of_iff (c.InTime e) (by simp [InTime, hc])

def WellFormed (s : Calls T) : Prop :=
  (∀ replyID, s.nextID ≤ replyID → s.calls replyID = .none) ∧
    ∀ replyID c, s.calls replyID = some c → c.WellFormed

variable {s s' : Calls T} {replyID : Nat}

theorem exec_event_eq_ok {e : CallEvent T} (h : s.exec (.event replyID e) = .ok s') :
    ∃ c c', s.calls replyID = some c ∧ c.step e = .ok c' ∧
      s' = { s with calls := Function.update s.calls replyID (some c') } := by
  simp only [exec] at h
  split at h
  · cases h
  · next c hc =>
    split at h
    · cases h
    · next c' hstep => exact ⟨c, c', hc, hstep, (Except.ok.inj h).symm⟩

theorem forall_update_iff {calls : Nat → Option (Call T)} {P : Call T → Prop} {c' : Call T}
    (h : ∀ id c, id ≠ replyID → calls id = some c → P c) :
    (∀ id c, Function.update calls replyID (some c') id = some c → P c) ↔ P c' := by
  constructor
  · intro hall
    exact hall replyID c' (Function.update_self ..)
  · intro hc id c heq
    by_cases hid : id = replyID
    · rw [hid, Function.update_self] at heq
      exact Option.some.inj heq ▸ hc
    · rw [Function.update_of_ne hid] at heq
      exact h id c hid heq

theorem WellFormed.exec (h : s.WellFormed) {i : CallsInput T} (hstep : s.exec i = .ok s') :
    s'.WellFormed := by
  cases i with
  | call api =>
    cases hstep
    refine ⟨fun id hid => ?_, (forall_update_iff fun id c _ => h.2 id c).mpr
      (Call.start_wellFormed api)⟩
    have hlt : s.nextID + 1 ≤ id := hid
    show Function.update _ _ _ id = _
    rw [Function.update_of_ne (by omega)]
    exact h.1 id (by omega)
  | event replyID e =>
    obtain ⟨c, c', hc, hcall, rfl⟩ := exec_event_eq_ok hstep
    refine ⟨fun id hid => ?_,
      (forall_update_iff fun id c _ => h.2 id c).mpr ((h.2 replyID c hc).step hcall)⟩
    have hne : id ≠ replyID := by
      rintro rfl
      rw [h.1 id hid] at hc
      cases hc
    show Function.update _ _ _ id = _
    rw [Function.update_of_ne hne]
    exact h.1 id hid

theorem delivered_exec_iff (h : s.WellFormed) (hdelivered : s.Delivered) {i : CallsInput T}
    (hstep : s.exec i = .ok s') : s'.Delivered ↔ s.InTime i := by
  cases i with
  | call api =>
    cases hstep
    refine iff_of_true ((forall_update_iff fun id c _ => hdelivered id c).mpr ?_) trivial
    intro result hresult
    cases hresult
  | event replyID e =>
    obtain ⟨c, c', hc, hcall, rfl⟩ := exec_event_eq_ok hstep
    have hiff := Call.delivered_step_iff (h.2 replyID c hc) (hdelivered replyID c hc) hcall
    refine (forall_update_iff fun id c _ => hdelivered id c).trans (hiff.trans ?_)
    unfold InTime
    simp [hc]

/-- In every interleaving the answers are all delivered exactly if none comes between the queueing
of a request and the registration of its channel, which can only happen to calls other than
`Propose`. -/
theorem answers_delivered_iff {inputs : List (CallsInput T)} {t : Calls T}
    (hrun : run exec none inputs = .ok t) :
    (∀ pre s, pre <+: inputs → run exec none pre = .ok s → s.Delivered) ↔
      Throughout exec InTime none inputs := by
  have hwf : (none : Calls T).WellFormed := ⟨fun _ _ => rfl, fun _ _ h => by cases h⟩
  have hdelivered : (none : Calls T).Delivered := fun _ _ h => by cases h
  exact forall_reached_iff_throughout (fun h hstep => h.exec hstep)
    (fun h hd hstep => delivered_exec_iff h hd hstep) hwf hdelivered hrun

/-- A worker refuses the request of `RegisterSession` before the call has its channel: the caller
waits on a channel on which nothing will be sent. -/
theorem answer_before_channel :
    ∃ t c : _, run exec none [.call .registerSession, .event 0 .advance,
        .event 0 (.rejected "not leader"), .event 0 .advance, .event 0 .advance] = .ok t ∧
      t.calls 0 = some c ∧ c.answer = some "not leader" ∧ c.remaining = [] ∧ c.received = .none ∧
      ¬ t.Delivered := by
  refine ⟨_, _, rfl, rfl, rfl, rfl, rfl, fun h => ?_⟩
  have := h 0 _ rfl "not leader" rfl
  cases this

theorem answers_after_channel :
    ∃ t, run exec none [.call .propose, .event 0 .advance, .event 0 .advance,
        .event 0 (.rejected "not leader"), .call .registerSession, .event 1 .advance,
        .event 1 .accepted, .event 1 .advance, .event 1 .advance, .event 1 (.applied "7")] = .ok t ∧
      ∀ s, run exec none [.call .propose, .event 0 .advance, .event 0 .advance,
        .event 0 (.rejected "not leader"), .call .registerSession, .event 1 .advance,
        .event 1 .accepted, .event 1 .advance, .event 1 .advance, .event 1 (.applied "7")] = .ok s →
        s.Delivered :=
  ⟨_, rfl, fun s hs => (answers_delivered_iff rfl).mpr (by decide +kernel) _ s (prefix_refl _) hs⟩

end Calls

end Babuza.Experimental
