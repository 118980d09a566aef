import Babuza.Lib.Run
import Mathlib.Logic.Function.Basic

/-!
# The queue of heartbeats for an address

All groups with a peer at an address put their heartbeats into one queue of a fixed size
(`sendRaftMessage`), and a timer of the store hands on what has gathered
(`replicaCoalescedHeartbeat`). A full queue ends the process. A queue that was idle for five minutes
is deleted from the map, also under a group that has just loaded it.
-/

namespace Babuza.Experimental

open Lib List

/-- The queues that an address has had, by their number, and the one that is in the map. The flush
loop alone calls `Get`, and it releases what it has taken before it goes on. -/
structure HeartbeatQueues (M : Type) where
  writeBuf : Nat → List M
  created : Nat
  current : Option Nat
  taken : Option (List M)
  queued : List M
  sent : List M

inductive QueueInput (M : Type)
  /-- `LoadOrStore` of a group. -/
  | load
  /-- `Put` into a queue that a group has loaded. -/
  | put (q : Nat) (m : M)
  | get
  /-- `SendHeartbeat` and `Release`. -/
  | send
  /-- The check for idle queues. -/
  | delete

inductive QueueFailure
  | disabled
  | panic
  deriving DecidableEq

namespace HeartbeatQueues

variable {M : Type}

def initial : HeartbeatQueues M := ⟨fun _ => [], 0, none, none, [], []⟩

def exec (size : Nat) (s : HeartbeatQueues M) :
    QueueInput M → Except QueueFailure (HeartbeatQueues M)
  | .load => match s.current with
    | some _ => .ok s
    | none => .ok { s with
        writeBuf := Function.update s.writeBuf s.created []
        created := s.created + 1
        current := some s.created }
  | .put q m =>
    if s.created ≤ q then .error .disabled
    else if (s.writeBuf q).length = size then .error .panic
    else .ok { s with
      writeBuf := Function.update s.writeBuf q (s.writeBuf q ++ [m])
      queued := s.queued ++ [m] }
  | .get => match s.current, s.taken with
    | some q, none =>
      if s.writeBuf q = [] then .ok s
      else .ok { s with
        writeBuf := Function.update s.writeBuf q []
        taken := some (s.writeBuf q) }
    | _, _ => .error .disabled
  | .send => match s.taken with
    | none => .error .disabled
    | some data => .ok { s with taken := none, sent := s.sent ++ data }
  | .delete => match s.current, s.taken with
    | some _, none => .ok { s with current := none }
    | _, _ => .error .disabled

def pending (s : HeartbeatQueues M) : List M := s.current.elim [] s.writeBuf

/-- Every heartbeat that was queued has been sent once, or will be, in its order. -/
def Conserved (s : HeartbeatQueues M) : Prop :=
  s.queued = s.sent ++ s.taken.getD [] ++ s.pending

/-- The step does not panic and loses no heartbeat. -/
def Safe (size : Nat) (s : HeartbeatQueues M) (i : QueueInput M) : Prop :=
  exec size s i ≠ .error .panic ∧ ∀ s', exec size s i = .ok s' → s'.Conserved

/-- The queue is in the map and not full; only an empty queue is deleted. -/
def Fits (size : Nat) (s : HeartbeatQueues M) : QueueInput M → Prop
  | .put q _ => q < s.created → s.current = some q ∧ (s.writeBuf q).length ≠ size
  | .delete => s.taken = none → s.pending = []
  | _ => True

variable {size : Nat} {s s' : HeartbeatQueues M}

theorem conserved_put_iff {q : Nat} {m : M} (h : s.Conserved) :
    Conserved { s with
      writeBuf := Function.update s.writeBuf q (s.writeBuf q ++ [m])
      queued := s.queued ++ [m] } ↔ s.current = some q := by
  unfold Conserved pending at *
  by_cases hq : s.current = some q
  · refine iff_of_true ?_ hq
    rw [hq] at h ⊢
    simp [h]
  · refine iff_of_false (fun h' => ?_) hq
    have hsame : s.current.elim [] (Function.update s.writeBuf q (s.writeBuf q ++ [m])) =
        s.current.elim [] s.writeBuf := by
      cases hcurrent : s.current with
      | none => rfl
      | some p =>
        have hne : p ≠ q := fun heq => hq (heq ▸ hcurrent)
        exact Function.update_of_ne hne _ _
    rw [hsame, ← h] at h'
    simpa using congrArg List.length h'

variable {i : QueueInput M}

theorem safe_iff_of_ok (hexec : exec size s i = .ok s') : Safe size s i ↔ s'.Conserved := by
  simp [Safe, hexec]

theorem safe_of_disabled (hexec : exec size s i = .error .disabled) : Safe size s i := by
  simp [Safe, hexec]

theorem safe_put_iff (q : Nat) (m : M) (h : s.Conserved) :
    Safe size s (.put q m) ↔ Fits size s (.put q m) := by
  by_cases hq : s.created ≤ q
  · exact iff_of_true (safe_of_disabled (if_pos hq)) fun hlt => absurd hq (Nat.not_le.mpr hlt)
  · by_cases hfull : (s.writeBuf q).length = size
    · have hpanic : exec size s (.put q m) = .error .panic := by
        rw [exec, if_neg hq, if_pos hfull]
      exact iff_of_false (fun hsafe => hsafe.1 hpanic) fun hfits =>
        (hfits (Nat.not_le.mp hq)).2 hfull
    · have hok : exec size s (.put q m) = .ok _ := (if_neg hq).trans (if_neg hfull)
      rw [safe_iff_of_ok hok, conserved_put_iff h]
      exact ⟨fun hcurrent _ => ⟨hcurrent, hfull⟩, fun hfits => (hfits (Nat.not_le.mp hq)).1⟩

theorem safe_iff (h : s.Conserved) : Safe size s i ↔ Fits size s i := by
  cases i with
  | put q m => exact safe_put_iff q m h
  | load =>
    refine iff_of_true ?_ trivial
    cases hcurrent : s.current with
    | some q => exact (safe_iff_of_ok (by rw [exec, hcurrent])).mpr h
    | none =>
      refine (safe_iff_of_ok (by rw [exec, hcurrent])).mpr ?_
      simpa [Conserved, pending, hcurrent] using h
  | send =>
    refine iff_of_true ?_ trivial
    cases htaken : s.taken with
    | none => exact safe_of_disabled (by rw [exec, htaken])
    | some data =>
      refine (safe_iff_of_ok (by rw [exec, htaken])).mpr ?_
      simpa [Conserved, pending, htaken] using h
  | get =>
    refine iff_of_true ?_ trivial
    cases hcurrent : s.current with
    | none => exact safe_of_disabled (by rw [exec, hcurrent])
    | some q =>
      cases htaken : s.taken with
      | some data => exact safe_of_disabled (by rw [exec, hcurrent, htaken])
      | none =>
        by_cases hempty : s.writeBuf q = []
        · exact (safe_iff_of_ok (by rw [exec, hcurrent, htaken]; exact if_pos hempty)).mpr h
        · refine (safe_iff_of_ok (by rw [exec, hcurrent, htaken]; exact if_neg hempty)).mpr ?_
          simpa [Conserved, pending, hcurrent, htaken] using h
  | delete =>
    cases hcurrent : s.current with
    | none =>
      exact iff_of_true (safe_of_disabled (by rw [exec, hcurrent])) fun _ => by
        rw [pending, hcurrent]
        rfl
    | some q =>
      cases htaken : s.taken with
      | some data =>
        refine iff_of_true (safe_of_disabled (by rw [exec, hcurrent, htaken])) fun hnone => ?_
        rw [htaken] at hnone
        cases hnone
      | none =>
        rw [safe_iff_of_ok (by rw [exec, hcurrent, htaken])]
        rw [Conserved, htaken] at h
        constructor
        · intro hnext _
          have hnext : s.queued = s.sent ++ [] ++ [] := hnext
          exact append_right_eq_self.mp (h.symm.trans (hnext.trans (append_nil _)))
        · intro hfits
          rwa [hfits htaken] at h

/-- No run panics or loses a heartbeat, exactly if in every step the queue has room and is the one
in the map, and only empty queues are deleted. -/
theorem heartbeats_safe_iff (size : Nat) (inputs : List (QueueInput M)) :
    Throughout (exec size) (Safe size) initial inputs ↔
      Throughout (exec size) (Fits size) initial inputs :=
  throughout_iff (fun _ => safe_iff) (fun _ h hfits hexec => ((safe_iff h).mpr hfits).2 _ hexec) rfl

theorem second_heartbeat_panics :
    run (exec 1) initial [.load, .put 0 'a', .put 0 'b'] = .error .panic := by
  rfl

end HeartbeatQueues

end Babuza.Experimental
