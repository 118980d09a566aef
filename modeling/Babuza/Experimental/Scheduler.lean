import Mathlib.Data.Finset.Basic
import Mathlib.Data.Fintype.Basic
import Mathlib.Logic.Function.Basic

/-!
# The scheduler of a multi-raft store

A shard of the scheduler has a queue of group ids, the requests of each group as bits, and the
groups in processing. `EnqueueState` sets bits under the lock of the shard and queues the group. The
`stateQueue` bit is set in a local copy only; in the map it appears when a worker takes the
requests, and it keeps the group from being queued until that worker's final check. A worker that
pops a group in processing drops it. One step of a worker is one operation on the shared data, or
the start of one callback.
-/

namespace Babuza.Experimental

open List

/-! ## The model -/

inductive StateBit
  | queue
  | tick
  | proposal
  | configChange
  | step
  | ready
  deriving DecidableEq

structure InternalState where
  state : Finset StateBit
  ticks : Nat
  deriving DecidableEq

/-- What the map yields for a group without an entry. -/
def InternalState.zero : InternalState := ⟨∅, 0⟩

inductive Callback
  | processTick
  | processProposal
  | processConfigChange
  | processStep
  | processReady
  deriving DecidableEq

def Callback.bit : Callback → StateBit
  | processTick => .tick
  | processProposal => .proposal
  | processConfigChange => .configChange
  | processStep => .step
  | processReady => .ready

/-- The callbacks that a worker makes for the requests it has taken. -/
def InternalState.callbacks (s : InternalState) : List Callback :=
  (if .proposal ∈ s.state then [.processProposal] else []) ++
  (if .configChange ∈ s.state then [.processConfigChange] else []) ++
  (if .step ∈ s.state then [.processStep] else []) ++
  (if .tick ∈ s.state then List.replicate s.ticks .processTick else []) ++
  (if .proposal ∈ s.state ∨ .configChange ∈ s.state ∨ .step ∈ s.state ∨ .tick ∈ s.state ∨
      .ready ∈ s.state then [.processReady] else [])

inductive Worker
  /-- in `GetOne` -/
  | waiting
  /-- before the test of `inProcessing` -/
  | popped (groupID : Nat)
  /-- before it takes the requests -/
  | marked (groupID : Nat)
  /-- with the callbacks that are still to start -/
  | running (groupID : Nat) (rest : List Callback)
  /-- before the final check -/
  | cleared (groupID : Nat)
  /-- the final check has found requests, the group is to be put into the queue again -/
  | putBack (groupID : Nat)
  deriving DecidableEq

/-- What has happened: the calls of `EnqueueState` and the callbacks that were started. -/
inductive LogEvent
  | call (state : Finset StateBit) (groupID : Nat)
  | callback (c : Callback) (groupID : Nat)
  deriving DecidableEq

structure Sharder (n : Nat) where
  queue : List Nat
  groupState : Nat → InternalState
  inProcessing : Finset Nat
  workers : Fin n → Worker
  log : List LogEvent

namespace Sharder

variable {n : Nat}

def start (n : Nat) : Sharder n := ⟨[], fun _ => .zero, ∅, fun _ => .waiting, []⟩

/-- The requests of the group after `EnqueueState` has added to them. -/
def addState (maxTicks : Nat) (old : InternalState) (state : Finset StateBit) : InternalState where
  state := old.state ∪ state
  ticks := if .tick ∈ state then min (old.ticks + 1) maxTicks else old.ticks

/-- `EnqueueState`, under the lock of the shard. -/
def enqueueState (maxTicks : Nat) (s : Sharder n) (state : Finset StateBit) (groupID : Nat) :
    Sharder n :=
  let s := { s with log := s.log ++ [.call state groupID] }
  let old := s.groupState groupID
  if .tick ∉ state ∧ state ⊆ old.state then s
  else
    let new := addState maxTicks old state
    { s with
      groupState := Function.update s.groupState groupID new
      queue := if .queue ∈ new.state then s.queue else s.queue ++ [groupID] }

/-- One step of a worker. In `GetOne` it waits while the queue is empty. -/
def work (s : Sharder n) (i : Fin n) : Sharder n :=
  let goto := fun w => Function.update s.workers i w
  match s.workers i with
  | .waiting =>
    match s.queue with
    | [] => s
    | g :: queue =>
      { s with queue := queue, workers := goto (if g = 0 then .waiting else .popped g) }
  | .popped g =>
    if g ∈ s.inProcessing then { s with workers := goto .waiting }
    else { s with inProcessing := insert g s.inProcessing, workers := goto (.marked g) }
  | .marked g =>
    { s with
      groupState := Function.update s.groupState g ⟨{.queue}, 0⟩
      workers := goto (.running g (s.groupState g).callbacks) }
  | .running g [] =>
    { s with inProcessing := s.inProcessing.erase g, workers := goto (.cleared g) }
  | .running g (c :: rest) =>
    { s with log := s.log ++ [.callback c g], workers := goto (.running g rest) }
  | .cleared g =>
    if (s.groupState g).state = {.queue} then
      { s with groupState := Function.update s.groupState g .zero, workers := goto .waiting }
    else { s with workers := goto (.putBack g) }
  | .putBack g => { s with queue := s.queue ++ [g], workers := goto .waiting }

inductive Input (n : Nat)
  | enqueueState (state : Finset StateBit) (groupID : Nat)
  | work (i : Fin n)

def exec (maxTicks : Nat) (s : Sharder n) : Input n → Sharder n
  | .enqueueState state groupID => s.enqueueState maxTicks state groupID
  | .work i => s.work i

end Sharder

namespace Worker

/-- The worker has the group to itself: it may run callbacks for it. -/
def Holds (g : Nat) : Worker → Prop
  | marked g' | running g' _ => g' = g
  | _ => False

/-- The worker has the group and has not yet made its final check. -/
def Busy (g : Nat) : Worker → Prop
  | popped g' | marked g' | running g' _ | cleared g' => g' = g
  | _ => False

/-- The worker will look at the group or put it into the queue. -/
def Cares (g : Nat) (w : Worker) : Prop := w.Busy g ∨ w = putBack g

def WillStart (c : Callback) (g : Nat) : Worker → Prop
  | running g' rest => g' = g ∧ c ∈ rest
  | _ => False

theorem Holds.cares {g : Nat} {w : Worker} (h : w.Holds g) : w.Cares g := by
  cases w with
  | marked | running => exact .inl h
  | waiting | popped | cleared | putBack => exact h.elim

end Worker

namespace Sharder

variable {n maxTicks : Nat} {s t : Sharder n} {i : Fin n} {v w : Worker} {g : Nat}

def Located (s : Sharder n) (g : Nat) : Prop := g ∈ s.queue ∨ ∃ i, (s.workers i).Cares g

/-- The callback will come: a worker has it before it, or the bit is set. -/
def Pending (s : Sharder n) (c : Callback) (g : Nat) : Prop :=
  (∃ i, (s.workers i).WillStart c g) ∨ c.bit ∈ (s.groupState g).state

/-- Behind every call the callbacks for its bits have been started or will come. -/
def Owed (maxTicks : Nat) (s : Sharder n) : Prop :=
  ∀ before state g after, s.log = before ++ .call state g :: after →
    ∀ c : Callback, c.bit ∈ state → (c = .processTick → 0 < maxTicks) →
      .callback c g ∈ after ∨ s.Pending c g

structure Invariant (maxTicks : Nat) (s : Sharder n) : Prop where
  holds_unique : ∀ {g i j}, (s.workers i).Holds g → (s.workers j).Holds g → i = j
  inProcessing_iff : ∀ g, g ∈ s.inProcessing ↔ ∃ i, (s.workers i).Holds g
  located : ∀ g, g ≠ 0 → (s.groupState g).state ≠ ∅ → s.Located g
  ticks_pos : ∀ g, .tick ∈ (s.groupState g).state → 0 < maxTicks → 0 < (s.groupState g).ticks
  owed : s.Owed maxTicks

/-! ### One worker moves on -/

theorem exists_update_iff {P : Worker → Prop} :
    (∃ j, P (Function.update s.workers i w j)) ↔ P w ∨ ∃ j, j ≠ i ∧ P (s.workers j) := by
  constructor
  · rintro ⟨j, hj⟩
    by_cases hji : j = i
    · rw [hji, Function.update_self] at hj
      exact .inl hj
    · rw [Function.update_of_ne hji] at hj
      exact .inr ⟨j, hji, hj⟩
  · rintro (hw | ⟨j, hji, hj⟩)
    · exact ⟨i, by rwa [Function.update_self]⟩
    · exact ⟨j, by rwa [Function.update_of_ne hji]⟩

theorem holds_update_iff (hi : s.workers i = v) (hw : ∀ g, w.Holds g ↔ v.Holds g) (g : Nat)
    (j : Fin n) :
    (Function.update s.workers i w j).Holds g ↔ (s.workers j).Holds g := by
  by_cases hji : j = i
  · rw [hji, Function.update_self, hi]
    exact hw g
  · rw [Function.update_of_ne hji]

theorem Located.update (h : s.Located g) (hi : s.workers i = v)
    (hworkers : t.workers = Function.update s.workers i w)
    (hqueue : g ∈ s.queue → g ∈ t.queue ∨ w.Cares g)
    (hcares : v.Cares g → g ∈ t.queue ∨ w.Cares g ∨ ∃ j, j ≠ i ∧ (s.workers j).Cares g) :
    t.Located g := by
  unfold Located
  rw [hworkers, exists_update_iff]
  rcases h with hmem | ⟨j, hj⟩
  · rcases hqueue hmem with hmem | hw
    · exact .inl hmem
    · exact .inr (.inl hw)
  · by_cases hji : j = i
    · rw [hji, hi] at hj
      rcases hcares hj with hmem | hw
      · exact .inl hmem
      · exact .inr hw
    · exact .inr (.inr ⟨j, hji, hj⟩)

variable {c : Callback}

theorem Pending.update (h : s.Pending c g) (hi : s.workers i = v)
    (hworkers : t.workers = Function.update s.workers i w)
      (hwill : v.WillStart c g → w.WillStart c g)
    (hstate : c.bit ∈ (s.groupState g).state → w.WillStart c g ∨ c.bit ∈ (t.groupState g).state) :
    t.Pending c g := by
  unfold Pending
  rw [hworkers, exists_update_iff]
  rcases h with ⟨j, hj⟩ | hbit
  · by_cases hji : j = i
    · rw [hji, hi] at hj
      exact .inl (.inl (hwill hj))
    · exact .inl (.inr ⟨j, hji, hj⟩)
  · rcases hstate hbit with hw | hbit
    · exact .inl (.inl hw)
    · exact .inr hbit

theorem Owed.append (h : s.Owed maxTicks) {event : LogEvent} (hlog : t.log = s.log ++ [event])
    (hpending : ∀ c g, s.Pending c g → .callback c g = event ∨ t.Pending c g)
    (hnew : ∀ state g, event = .call state g → ∀ c : Callback, c.bit ∈ state → t.Pending c g) :
    t.Owed maxTicks := by
  intro before state g after hsplit c hc hticks
  rw [hlog] at hsplit
  rcases eq_nil_or_concat' after with rfl | ⟨after', last, rfl⟩
  · have hlast := append_inj_right' hsplit rfl
    cases hlast
    exact .inr (hnew state g rfl c hc)
  · have hsplit' : s.log ++ [event] = (before ++ .call state g :: after') ++ [last] := by
      rw [hsplit, append_assoc, cons_append]
    obtain ⟨hinit, hlast⟩ := append_inj' hsplit' rfl
    cases hlast
    rcases h _ _ _ _ hinit c hc hticks with hmem | hp
    · exact .inl (mem_append_left _ hmem)
    · rcases hpending c g hp with rfl | hp
      · exact .inl (mem_append_right _ mem_cons_self)
      · exact .inr hp

theorem Owed.keep (h : s.Owed maxTicks) (hlog : t.log = s.log)
    (hpending : ∀ c g, (c = .processTick → 0 < maxTicks) → s.Pending c g → t.Pending c g) :
    t.Owed maxTicks := by
  intro before state g after hsplit c hc hticks
  rw [hlog] at hsplit
  rcases h _ _ _ _ hsplit c hc hticks with hmem | hp
  · exact .inl hmem
  · exact .inr (hpending c g hticks hp)

/-! ### The steps -/

theorem invariant_start : (start n).Invariant maxTicks where
  holds_unique h := h.elim
  inProcessing_iff g := by
    constructor
    · intro h
      exact absurd h (Finset.notMem_empty g)
    · rintro ⟨i, hi⟩
      exact hi.elim
  located g _ h := absurd rfl h
  ticks_pos g h := absurd h (Finset.notMem_empty _)
  owed := by
    intro before state g after hsplit
    exact absurd hsplit.symm (append_ne_nil_of_right_ne_nil _ (cons_ne_nil _ _))

/-- The requests of the group are added, and unless the group is in the hands of a worker it is put
into the queue. -/
theorem Invariant.enqueueState (h : s.Invariant maxTicks) {state : Finset StateBit}
    (hqueue : .queue ∉ state) : (s.enqueueState maxTicks state g).Invariant maxTicks := by
  unfold Sharder.enqueueState
  simp only
  split
  next hskip =>
    refine { h with owed := h.owed.append rfl (fun c g hp => .inr hp) ?_ }
    rintro _ _ ⟨⟩ c hc
    exact .inr (hskip.2 hc)
  next hadd =>
    have hother : ∀ {g'}, g' ≠ g → Function.update s.groupState g
        (addState maxTicks (s.groupState g) state) g' = s.groupState g' :=
      fun hne => Function.update_of_ne hne _ _
    refine { h with located := ?_, ticks_pos := ?_, owed := h.owed.append rfl ?_ ?_ }
    · intro g' hg' hne
      simp only at hne ⊢
      by_cases heq : g' = g
      · rw [heq]
        split
        next hmem =>
          -- the bit comes from the state before, so a worker has the group or it is queued
          have hold : .queue ∈ (s.groupState g).state :=
            (Finset.mem_union.mp hmem).resolve_right hqueue
          exact h.located g (heq ▸ hg') (Finset.ne_empty_of_mem hold)
        · exact .inl (mem_append_right _ mem_cons_self)
      · rw [hother heq] at hne
        rcases h.located g' hg' hne with hmem | hcares
        · left
          split
          · exact hmem
          · exact mem_append_left _ hmem
        · exact .inr hcares
    · intro g' htick hmax
      simp only at htick ⊢
      by_cases heq : g' = g
      · rw [heq, Function.update_self] at htick ⊢
        unfold addState at htick ⊢
        simp only at htick ⊢
        split
        · omega
        next hnot =>
          exact h.ticks_pos g ((Finset.mem_union.mp htick).resolve_right hnot) hmax
      · rw [hother heq] at htick ⊢
        exact h.ticks_pos g' htick hmax
    · rintro c g' (hwill | hbit)
      · exact .inr (.inl hwill)
      · refine .inr (.inr ?_)
        simp only
        by_cases heq : g' = g
        · rw [heq] at hbit ⊢
          rw [Function.update_self]
          exact Finset.mem_union_left _ hbit
        · rwa [hother heq]
    · rintro _ _ ⟨⟩ c hc
      refine .inr ?_
      simp only [Function.update_self]
      exact Finset.mem_union_right _ hc

theorem mem_callbacks {x : InternalState} (hc : c.bit ∈ x.state)
    (hticks : c = .processTick → 0 < x.ticks) : c ∈ x.callbacks := by
  unfold InternalState.callbacks
  cases c with
  | processTick =>
    have hpos := hticks rfl
    simp only [Callback.bit] at hc
    simp [hc, Nat.ne_of_gt hpos]
  | processProposal | processConfigChange | processStep | processReady =>
    simp only [Callback.bit] at hc
    simp [hc]

section

variable (h : s.Invariant maxTicks)
include h

theorem Invariant.move (hi : s.workers i = v) (hworkers : t.workers = Function.update s.workers i w)
    (hproc : t.inProcessing = s.inProcessing) (hlog : t.log = s.log)
    (hholds : ∀ g, w.Holds g ↔ v.Holds g)
    (hlocated : ∀ g, g ≠ 0 → (t.groupState g).state ≠ ∅ → t.Located g)
    (hticks : ∀ g, .tick ∈ (t.groupState g).state → 0 < maxTicks → 0 < (t.groupState g).ticks)
    (hpending : ∀ c g, (c = .processTick → 0 < maxTicks) → s.Pending c g → t.Pending c g) :
    t.Invariant maxTicks where
  holds_unique := by
    intro g j k hj hk
    rw [hworkers, holds_update_iff hi hholds] at hj hk
    exact h.holds_unique hj hk
  inProcessing_iff := by
    intro g
    simp only [hworkers, hproc, holds_update_iff hi hholds]
    exact h.inProcessing_iff g
  located := hlocated
  ticks_pos := hticks
  owed := h.owed.keep hlog hpending

theorem Invariant.pass (hi : s.workers i = v) (hworkers : t.workers = Function.update s.workers i w)
    (hproc : t.inProcessing = s.inProcessing) (hlog : t.log = s.log)
    (hstate : t.groupState = s.groupState) (hholds : ∀ g, w.Holds g ↔ v.Holds g)
    (hwill : ∀ c g, ¬ v.WillStart c g)
    (hqueue : ∀ g, g ≠ 0 → g ∈ s.queue → g ∈ t.queue ∨ w.Cares g)
    (hcares : ∀ g, v.Cares g → g ∈ t.queue ∨ w.Cares g ∨ ∃ j, j ≠ i ∧ (s.workers j).Cares g) :
    t.Invariant maxTicks := by
  refine h.move hi hworkers hproc hlog hholds ?_ (hstate ▸ h.ticks_pos) ?_
  · intro g hg hne
    exact (h.located g hg (hstate ▸ hne)).update hi hworkers (hqueue g hg) (hcares g)
  · intro c g _ hp
    exact hp.update hi hworkers (fun hv => (hwill c g hv).elim) (hstate ▸ .inr)

theorem Invariant.ticks_pos_update {x : InternalState} (hx : .tick ∉ x.state) (g' : Nat)
    (htick : .tick ∈ (Function.update s.groupState g x g').state) (hmax : 0 < maxTicks) :
    0 < (Function.update s.groupState g x g').ticks := by
  rw [Function.update_apply] at htick ⊢
  split at htick
  · exact absurd htick hx
  next hne =>
    rw [if_neg hne]
    exact h.ticks_pos g' htick hmax

theorem Invariant.work_waiting (hi : s.workers i = .waiting) {queue : List Nat}
    (hqueue : s.queue = g :: queue) :
    Invariant maxTicks { s with
      queue := queue
      workers := Function.update s.workers i (if g = 0 then .waiting else .popped g) } := by
  refine h.pass hi rfl rfl rfl rfl ?_ (fun _ _ => id) ?_ ?_
  · intro g'
    split <;> exact Iff.rfl
  · intro g' hg' hmem
    rw [hqueue] at hmem
    rcases mem_cons.mp hmem with rfl | hmem
    · rw [if_neg hg']
      exact .inr (.inl rfl)
    · exact .inl hmem
  · rintro g' (hbusy | heq)
    · exact hbusy.elim
    · cases heq

theorem Invariant.work_dropped (hi : s.workers i = .popped g) (hmem : g ∈ s.inProcessing) :
    Invariant maxTicks { s with workers := Function.update s.workers i .waiting } := by
  refine h.pass hi rfl rfl rfl rfl (fun _ => Iff.rfl) (fun _ _ => id) (fun _ _ => .inl) ?_
  rintro g' (rfl | heq)
  · obtain ⟨j, hj⟩ := (h.inProcessing_iff g).mp hmem
    refine .inr (.inr ⟨j, ?_, hj.cares⟩)
    rintro rfl
    rwa [hi] at hj
  · cases heq

theorem Invariant.work_marked (hi : s.workers i = .popped g) (hmem : g ∉ s.inProcessing) :
    Invariant maxTicks { s with
      inProcessing := insert g s.inProcessing
      workers := Function.update s.workers i (.marked g) } := by
  have hfree : ∀ j, ¬ (s.workers j).Holds g := fun j hj => hmem ((h.inProcessing_iff g).mpr ⟨j, hj⟩)
  have hnot : ∀ g', ¬ (s.workers i).Holds g' := hi ▸ fun _ => id
  refine ⟨?_, ?_, ?_, h.ticks_pos, h.owed.keep rfl ?_⟩
  · intro g' j k hj hk
    simp only [Function.update_apply] at hj hk
    split at hj
    next hji =>
      split at hk
      next hki => rw [hji, hki]
      next => exact absurd (hj ▸ hk) (hfree k)
    next =>
      split at hk
      next => exact absurd (hk ▸ hj) (hfree j)
      next => exact h.holds_unique hj hk
  · intro g'
    rw [Finset.mem_insert, h.inProcessing_iff, exists_update_iff]
    constructor
    · rintro (rfl | ⟨j, hj⟩)
      · exact .inl rfl
      · exact .inr ⟨j, fun heq => hnot g' (heq ▸ hj), hj⟩
    · rintro (heq | ⟨j, -, hj⟩)
      · exact .inl heq.symm
      · exact .inr ⟨j, hj⟩
  · intro g' hg' hne
    exact (h.located g' hg' hne).update hi rfl .inl fun hv => .inr (.inl (hv.imp_right nofun))
  · exact fun c g' _ hp => hp.update hi rfl False.elim .inr

theorem Invariant.work_taken (hi : s.workers i = .marked g) :
    Invariant maxTicks { s with
      groupState := Function.update s.groupState g ⟨{.queue}, 0⟩
      workers := Function.update s.workers i (.running g (s.groupState g).callbacks) } := by
  refine h.move hi rfl rfl rfl (fun _ => Iff.rfl) ?_ ?_ ?_
  · intro g' hg' hne
    simp only [Function.update_apply] at hne
    split at hne
    next heq =>
      refine .inr ⟨i, ?_⟩
      simp only [Function.update_self]
      exact .inl heq.symm
    next =>
      exact (h.located g' hg' hne).update hi rfl .inl fun hv => .inr (.inl (hv.imp_right nofun))
  · exact h.ticks_pos_update (by simp)
  · intro c g' hticks hp
    refine hp.update hi rfl False.elim fun hbit => ?_
    simp only [Function.update_apply]
    split
    next heq =>
      rw [heq] at hbit
      refine .inl ⟨heq.symm, mem_callbacks hbit ?_⟩
      rintro rfl
      exact h.ticks_pos g hbit (hticks rfl)
    next => exact .inr hbit

theorem Invariant.work_callback {rest : List Callback} (hi : s.workers i = .running g (c :: rest)) :
    Invariant maxTicks { s with
      log := s.log ++ [.callback c g]
      workers := Function.update s.workers i (.running g rest) } := by
  have hholds := holds_update_iff (w := .running g rest) hi fun _ => Iff.rfl
  refine ⟨?_, ?_, ?_, h.ticks_pos, h.owed.append rfl ?_ (fun _ _ heq => by cases heq)⟩
  · intro g' j k hj hk
    rw [hholds] at hj hk
    exact h.holds_unique hj hk
  · intro g'
    simp only [hholds]
    exact h.inProcessing_iff g'
  · intro g' hg' hne
    exact (h.located g' hg' hne).update hi rfl .inl fun hv => .inr (.inl (hv.imp_right nofun))
  · intro c' g' hp
    by_cases heq : c' = c ∧ g' = g
    · rw [heq.1, heq.2]
      exact .inl rfl
    · refine .inr (hp.update hi rfl ?_ .inr)
      rintro ⟨rfl, hmem⟩
      exact ⟨rfl, (mem_cons.mp hmem).resolve_left fun hc => heq ⟨hc, rfl⟩⟩

theorem Invariant.work_cleared (hi : s.workers i = .running g []) :
    Invariant maxTicks { s with
      inProcessing := s.inProcessing.erase g
      workers := Function.update s.workers i (.cleared g) } := by
  have hself : (s.workers i).Holds g := hi ▸ rfl
  refine ⟨?_, ?_, ?_, h.ticks_pos, h.owed.keep rfl ?_⟩
  · intro g' j k hj hk
    simp only [Function.update_apply] at hj hk
    split at hj
    · exact hj.elim
    · split at hk
      · exact hk.elim
      · exact h.holds_unique hj hk
  · intro g'
    rw [Finset.mem_erase, h.inProcessing_iff, exists_update_iff]
    constructor
    · rintro ⟨hne, j, hj⟩
      refine .inr ⟨j, ?_, hj⟩
      rintro rfl
      rw [hi] at hj
      exact hne hj.symm
    · rintro (hfalse | ⟨j, hji, hj⟩)
      · exact hfalse.elim
      · refine ⟨?_, j, hj⟩
        rintro rfl
        exact hji (h.holds_unique hj hself)
  · intro g' hg' hne
    exact (h.located g' hg' hne).update hi rfl .inl fun hv => .inr (.inl (hv.imp_right nofun))
  · exact fun c g' _ hp => hp.update hi rfl (fun hwill => nomatch hwill.2) .inr

theorem Invariant.work_deleted (hi : s.workers i = .cleared g)
    (hstate : (s.groupState g).state = {.queue}) :
    Invariant maxTicks { s with
      groupState := Function.update s.groupState g .zero
      workers := Function.update s.workers i .waiting } := by
  refine h.move hi rfl rfl rfl (fun _ => Iff.rfl) ?_ ?_ ?_
  · intro g' hg' hne
    simp only [Function.update_apply] at hne
    split at hne
    · exact absurd rfl hne
    next hother =>
      refine (h.located g' hg' hne).update hi rfl .inl ?_
      rintro (rfl | heq)
      · exact absurd rfl hother
      · cases heq
  · exact h.ticks_pos_update (Finset.notMem_empty _)
  · intro c g' _ hp
    refine hp.update hi rfl False.elim fun hbit => ?_
    simp only [Function.update_apply]
    split
    next heq =>
      rw [heq, hstate] at hbit
      cases c <;> cases Finset.mem_singleton.mp hbit
    next => exact .inr hbit

theorem Invariant.work_found (hi : s.workers i = .cleared g) :
    Invariant maxTicks { s with workers := Function.update s.workers i (.putBack g) } := by
  refine h.pass hi rfl rfl rfl rfl (fun _ => Iff.rfl) (fun _ _ => id) (fun _ _ => .inl) ?_
  rintro g' (rfl | heq)
  · exact .inr (.inl (.inr rfl))
  · cases heq

theorem Invariant.work_putBack (hi : s.workers i = .putBack g) :
    Invariant maxTicks { s with
      queue := s.queue ++ [g]
      workers := Function.update s.workers i .waiting } := by
  refine h.pass hi rfl rfl rfl rfl (fun _ => Iff.rfl) (fun _ _ => id)
    (fun _ _ hmem => .inl (mem_append_left _ hmem)) ?_
  rintro g' (hbusy | heq)
  · exact hbusy.elim
  · cases heq
    exact .inl (mem_append_right _ mem_cons_self)

theorem Invariant.work (i : Fin n) : (s.work i).Invariant maxTicks := by
  unfold Sharder.work
  simp only
  split
  next hi =>
    split
    · exact h
    next hqueue => exact h.work_waiting hi hqueue
  next hi =>
    split
    next hmem => exact h.work_dropped hi hmem
    next hmem => exact h.work_marked hi hmem
  next hi => exact h.work_taken hi
  next hi => exact h.work_cleared hi
  next hi => exact h.work_callback hi
  next hi =>
    split
    next hstate => exact h.work_deleted hi hstate
    next => exact h.work_found hi
  next hi => exact h.work_putBack hi

end

/-! ## Runs -/

/-- The calls ask for callbacks; the `stateQueue` bit belongs to the scheduler. -/
def Input.Requests : Input n → Prop
  | .enqueueState state _ => .queue ∉ state
  | .work _ => True

instance : (x : Input n) → Decidable x.Requests
  | .enqueueState state _ => inferInstanceAs (Decidable (StateBit.queue ∉ state))
  | .work _ => .isTrue trivial

theorem invariant_run {inputs : List (Input n)} (hinputs : ∀ x ∈ inputs, x.Requests) :
    (inputs.foldl (exec maxTicks) (start n)).Invariant maxTicks := by
  induction inputs using List.reverseRecOn with
  | nil => exact invariant_start
  | append_singleton inputs x ih =>
    rw [foldl_append]
    have hprev := ih fun y hy => hinputs y (mem_append_left _ hy)
    have hx := hinputs x (mem_append_right _ mem_cons_self)
    cases x with
    | enqueueState state g => exact hprev.enqueueState hx
    | work i => exact hprev.work i

/-- In every interleaving of calls and workers: one worker at a time runs callbacks for a group; a
group with requests is in the queue, with a worker that has not made its final check, or about to be
put into the queue by one that has; and when the queue is empty and all workers wait, every call has
been followed by its callbacks. -/
theorem scheduler_loses_nothing {inputs : List (Input n)} (hinputs : ∀ x ∈ inputs, x.Requests)
    (hs : s = inputs.foldl (exec maxTicks) (start n)) :
    (∀ g i j, (s.workers i).Holds g → (s.workers j).Holds g → i = j) ∧
    (∀ g, g ≠ 0 → ∀ b ∈ (s.groupState g).state, b ≠ .queue →
      g ∈ s.queue ∨ ∃ i, (s.workers i).Busy g ∨ s.workers i = .putBack g) ∧
    (s.queue = [] → (∀ i, s.workers i = .waiting) →
      ∀ before state g after, s.log = before ++ .call state g :: after → g ≠ 0 →
        ∀ c : Callback, c.bit ∈ state → (c = .processTick → 0 < maxTicks) →
          .callback c g ∈ after) := by
  have h : s.Invariant maxTicks := hs ▸ invariant_run hinputs
  refine ⟨fun g i j => h.holds_unique, ?_, ?_⟩
  · intro g hg b hb _
    exact h.located g hg (Finset.ne_empty_of_mem hb)
  · intro hqueue hidle before state g after hsplit hg c hc hticks
    rcases h.owed before state g after hsplit c hc hticks with hmem | ⟨i, hi⟩ | hbit
    · exact hmem
    · rw [hidle i] at hi
      exact hi.elim
    · -- a bit without a worker would have to be in the queue
      rcases h.located g hg (Finset.ne_empty_of_mem hbit) with hmem | ⟨i, hi⟩
      · rw [hqueue] at hmem
        cases hmem
      · rw [hidle i] at hi
        rcases hi with hbusy | heq
        · exact hbusy.elim
        · cases heq

/-- A request that comes while the only worker runs callbacks for the group. -/
def lateRequest : List (Input 1) :=
  [.enqueueState {.proposal} 1, .work 0, .work 0, .work 0, .work 0, .enqueueState {.step} 1,
    .work 0, .work 0, .work 0]

def tickRequest : List (Input 1) := .enqueueState {.tick} 1 :: List.replicate 6 (.work 0)

/-- The worker has made its final check, and the group is not in the queue yet. A call with the
`stateQueue` bit is never served, nor is a tick if no ticks are allowed. -/
theorem request_between_check_and_queue :
    (∃ s, s = lateRequest.foldl (exec 5) (start 1) ∧ .step ∈ (s.groupState 1).state ∧
      ¬ (1 ∈ s.queue ∨ ∃ i, (s.workers i).Busy 1)) ∧
    (∃ s, s = (start 1).enqueueState 5 {.queue, .step} 1 ∧ s.queue = [] ∧
      s.workers 0 = .waiting ∧ .callback .processStep 1 ∉ s.log) ∧
    ∃ s, s = tickRequest.foldl (exec 0) (start 1) ∧ s.queue = [] ∧ s.workers 0 = .waiting ∧
      .callback .processTick 1 ∉ s.log := by
  refine ⟨⟨_, rfl, by decide, ?_⟩, ⟨_, rfl, by decide⟩, ⟨_, rfl, by decide⟩⟩
  rintro (hmem | ⟨i, hi⟩)
  · exact absurd hmem (by decide)
  · have hworker : (lateRequest.foldl (exec 5) (start 1)).workers i = .putBack 1 := by
      obtain rfl : i = 0 := Subsingleton.elim i 0
      decide
    rw [hworker] at hi
    exact hi

def servedRequest : List (Input 1) := lateRequest ++ List.replicate 8 (.work 0)

theorem late_request_served :
    ∃ s after, s = servedRequest.foldl (exec 5) (start 1) ∧
      s.log = [.call {.proposal} 1, .callback .processProposal 1] ++ .call {.step} 1 :: after ∧
      .callback .processStep 1 ∈ after := by
  have hlog : (servedRequest.foldl (exec 5) (start 1)).log =
      [.call {.proposal} 1, .callback .processProposal 1] ++ .call {.step} 1 ::
        [.callback .processReady 1, .callback .processStep 1, .callback .processReady 1] := by
          decide
  refine ⟨_, _, rfl, hlog, ?_⟩
  refine (scheduler_loses_nothing (by decide) rfl).2.2 (by decide) ?_ _ _ 1 _ hlog (by decide)
    .processStep (by decide) (by decide)
  intro i
  obtain rfl : i = 0 := Subsingleton.elim i 0
  decide

end Sharder

end Babuza.Experimental
