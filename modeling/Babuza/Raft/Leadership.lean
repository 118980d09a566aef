import Babuza.Raft.ReadyOrder

/-!
# The bookkeeping of leadership

`updateLeadership` (`raft/raft_ready.go`) stores the new `SoftState` and the leader flag and
publishes what has changed. Without a listener there is no publisher. Two of the three events are
guarded by a nil check; the one for lost leadership is not.
-/

namespace Babuza.Raft

open Lib List

inductive RaftEvent
  | acquiredLeader (peerID : Nat)
  | lostLeader (peerID : Nat)
  | leaderChanged (peerID : Nat)
  deriving DecidableEq

/-- The part of the status that `updateLeadership` uses, and the events published so far. -/
structure Leadership where
  softState : SoftState
  isLeader : Bool
  events : List RaftEvent
  deriving DecidableEq

namespace Leadership

def initial : Leadership := ⟨⟨0, .follower⟩, false, []⟩

/-- `Publish`. Without a listener the publisher is nil, and it has no channel. -/
def publish (listener : Bool) (e : RaftEvent) (s : Leadership) : Except Unit Leadership :=
  if listener then .ok { s with events := s.events ++ [e] } else .error ()

def publishIfAny (listener : Bool) (e : RaftEvent) (s : Leadership) : Except Unit Leadership :=
  if listener then s.publish listener e else .ok s

def updateLeadership (localPeerID : Nat) (listener : Bool) (s : Leadership)
    (current : SoftState) : Except Unit Leadership := do
  let newLeader := current.lead ≠ 0 ∧ s.softState.lead ≠ current.lead
  let s := { s with softState := current }
  let s ←
    if current.lead = localPeerID then
      publishIfAny listener (.acquiredLeader current.lead) { s with isLeader := true }
    else if s.isLeader then
      publish listener (.lostLeader localPeerID) { s with isLeader := false }
    else .ok s
  if newLeader then s.publishIfAny listener (.leaderChanged current.lead) else .ok s

/-- Leadership by the events: it is acquired when it was lost, and lost when it was acquired. -/
def track : Bool → RaftEvent → Option Bool
  | false, .acquiredLeader _ => some true
  | true, .lostLeader _ => some false
  | isLeader, .leaderChanged _ => some isLeader
  | _, _ => none

/-- The leaders that are different from the one before and not 0. -/
def leadChanges : (previous : Nat) → List SoftState → List Nat
  | _, [] => []
  | previous, x :: states =>
    (if x.lead ≠ 0 ∧ previous ≠ x.lead then [x.lead] else []) ++ leadChanges x.lead states

def changedTo : RaftEvent → Option Nat
  | .leaderChanged peerID => some peerID
  | _ => none

structure Recorded (localPeerID : Nat) (listener : Bool) (states : List SoftState)
    (s : Leadership) : Prop where
  flag : ∀ last ∈ states.getLast?, s.isLeader = decide (last.lead = localPeerID)
  alternate : listener → (s.events.foldlM track false).isSome
  changes : listener → s.events.filterMap changedTo = leadChanges 0 states

def published (localPeerID : Nat) (s : Leadership) (x : SoftState) : List RaftEvent :=
  (if x.lead = localPeerID then [.acquiredLeader x.lead]
    else if s.isLeader then [.lostLeader localPeerID] else []) ++
  (if x.lead ≠ 0 ∧ s.softState.lead ≠ x.lead then [.leaderChanged x.lead] else [])

variable {localPeerID : Nat} {listener : Bool} {s s' : Leadership} {x : SoftState}

theorem updateLeadership_eq :
    updateLeadership localPeerID listener s x =
      if listener = false ∧ s.isLeader = true ∧ x.lead ≠ localPeerID then .error ()
      else .ok ⟨x, decide (x.lead = localPeerID),
        if listener then s.events ++ published localPeerID s x else s.events⟩ := by
  rw [updateLeadership, published]
  by_cases hlead : x.lead = localPeerID
  · have hok : ¬ (listener = false ∧ s.isLeader = true ∧ x.lead ≠ localPeerID) :=
      fun h => h.2.2 hlead
    rw [if_neg hok, decide_eq_true hlead]
    by_cases hnew : x.lead ≠ 0 ∧ s.softState.lead ≠ x.lead
    · simp only [if_pos hlead, if_pos hnew]
      cases listener <;> simp [publishIfAny, publish, ok_bind]
    · simp only [if_pos hlead, if_neg hnew]
      cases listener <;> simp [publishIfAny, publish, ok_bind]
  · rw [decide_eq_false hlead]
    by_cases hnew : x.lead ≠ 0 ∧ s.softState.lead ≠ x.lead
    · simp only [if_neg hlead, if_pos hnew]
      cases listener <;> cases hs : s.isLeader <;>
        simp [publishIfAny, publish, bind, Except.bind, hlead]
    · simp only [if_neg hlead, if_neg hnew]
      cases listener <;> cases hs : s.isLeader <;> simp [publish, bind, Except.bind, hlead]

theorem track_published (hrepeat : s.isLeader = true → x.lead ≠ localPeerID) :
    (published localPeerID s x).foldlM track s.isLeader = some (decide (x.lead = localPeerID)) := by
  by_cases hlead : x.lead = localPeerID
  · have hs : s.isLeader = false := Bool.eq_false_iff.mpr fun h => hrepeat h hlead
    rw [published, if_pos hlead, hs, decide_eq_true hlead]
    split <;> rfl
  · rw [published, if_neg hlead, decide_eq_false hlead]
    cases s.isLeader with
    | true =>
      rw [if_pos rfl]
      split <;> rfl
    | false =>
      rw [if_neg Bool.false_ne_true]
      split <;> rfl

theorem changedTo_published :
    (published localPeerID s x).filterMap changedTo =
      if x.lead ≠ 0 ∧ s.softState.lead ≠ x.lead then [x.lead] else [] := by
  unfold published
  rw [filterMap_append]
  split <;> split <;> (try split) <;> rfl

theorem run_isOk_iff (states : List SoftState) (s : Leadership) :
    (run (updateLeadership localPeerID listener) s states).isOk ↔
      listener = true ∨ (∀ y ∈ states.head?, s.isLeader = true → y.lead = localPeerID) ∧
        states.IsChain fun x y => x.lead = localPeerID → y.lead = localPeerID := by
  induction states generalizing s with
  | nil => exact iff_of_true rfl (.inr ⟨fun _ h => (nomatch h), .nil⟩)
  | cons x states ih =>
    by_cases hpanic : listener = false ∧ s.isLeader = true ∧ x.lead ≠ localPeerID
    · rw [run_cons_error states (updateLeadership_eq.trans (if_pos hpanic))]
      refine iff_of_false Bool.noConfusion ?_
      rintro (h | ⟨h, -⟩)
      · exact Bool.noConfusion (hpanic.1.symm.trans h)
      · exact hpanic.2.2 (h x rfl hpanic.2.1)
    · rw [run_cons_ok states (updateLeadership_eq.trans (if_neg hpanic)), ih, isChain_cons]
      cases listener with
      | true => simp
      | false =>
        have hkeeps : ∀ y ∈ (x :: states).head?, s.isLeader = true → y.lead = localPeerID := by
          rintro _ ⟨⟩ hs
          exact by_contra fun h => hpanic ⟨rfl, hs, h⟩
        simp only [Bool.false_eq_true, false_or, decide_eq_true_eq]
        exact ⟨fun h => ⟨hkeeps, h⟩, fun h => h.2⟩

variable {states : List SoftState}

theorem run_events (hdiffer : states.IsChain (· ≠ ·))
    (hleads : ∀ x ∈ states, x.lead = localPeerID → x.raftState = .leader)
    (hstate : s.isLeader = true → s.softState = ⟨localPeerID, .leader⟩)
    (hhead : ∀ y ∈ states.head?, s.isLeader = true → y ≠ s.softState)
    (htrack : s.events.foldlM track false = some s.isLeader)
    (hrun : run (updateLeadership localPeerID true) s states = .ok s') :
    (s'.events.foldlM track false).isSome ∧
      s'.events.filterMap changedTo =
        s.events.filterMap changedTo ++ leadChanges s.softState.lead states := by
  induction states generalizing s with
  | nil =>
    cases hrun
    exact ⟨by rw [htrack]; rfl, (append_nil _).symm⟩
  | cons x states ih =>
    obtain ⟨hx, hrest⟩ := forall_mem_cons.mp hleads
    obtain ⟨hnext, hchain⟩ := isChain_cons.mp hdiffer
    -- leadership is not acquired twice: the second state would be the first one
    have hrepeat : s.isLeader = true → x.lead ≠ localPeerID := by
      intro hs hlead
      refine hhead x rfl hs ?_
      rw [hstate hs, ← hlead, ← hx hlead]
    obtain ⟨s₁, hstep, hrun⟩ := run_cons_eq_ok.mp hrun
    rw [updateLeadership_eq, if_neg fun h => nomatch h.1] at hstep
    cases hstep
    have hstate' : decide (x.lead = localPeerID) = true → x = ⟨localPeerID, .leader⟩ := by
      intro hlead
      have hlead := of_decide_eq_true hlead
      rw [← hlead, ← hx hlead]
    have htrack' : (s.events ++ published localPeerID s x).foldlM track false =
        some (decide (x.lead = localPeerID)) := by
      rw [foldlM_append, htrack]
      exact track_published hrepeat
    obtain ⟨hsome, hchanges⟩ :=
      ih hchain hrest hstate' (fun y hy _ => (hnext y hy).symm) htrack' hrun
    refine ⟨hsome, ?_⟩
    rw [hchanges, if_pos rfl, filterMap_append, changedTo_published, leadChanges, append_assoc]

theorem run_flag (hrun : run (updateLeadership localPeerID listener) s states = .ok s') :
    ∀ last ∈ states.getLast?, s'.isLeader = decide (last.lead = localPeerID) := by
  intro last hlast
  obtain ⟨pre, rfl⟩ := getLast?_eq_some_iff.mp hlast
  obtain ⟨s₁, -, hstep⟩ := run_append_eq_ok.mp hrun
  rw [run_singleton, updateLeadership_eq] at hstep
  split at hstep <;> cases hstep
  rfl

/-- The calls do not panic and record what happens, exactly when there is a listener or leadership
is never lost. -/
theorem bookkeeping_iff (localPeerID : Nat) (listener : Bool) {states : List SoftState}
    (hdiffer : states.IsChain (· ≠ ·))
    (hleads : ∀ x ∈ states, x.lead = localPeerID → x.raftState = .leader) :
    (∃ s, run (updateLeadership localPeerID listener) initial states = .ok s ∧
      Recorded localPeerID listener states s) ↔
    listener = true ∨ states.IsChain fun x y => x.lead = localPeerID → y.lead = localPeerID := by
  have hok : (run (updateLeadership localPeerID listener) initial states).isOk ↔ _ :=
    run_isOk_iff states initial
  have hcond : (∀ y ∈ states.head?, initial.isLeader = true → y.lead = localPeerID) ↔ True :=
    iff_true_intro fun _ _ h => absurd h (by decide)
  rw [hcond, true_and] at hok
  rw [← hok]
  constructor
  · rintro ⟨s, hrun, -⟩
    rw [hrun]
    rfl
  · intro h
    obtain ⟨s, hrun⟩ := exists_eq_ok h
    have hevents : listener = true → _ := fun hlistener =>
      run_events hdiffer hleads (fun h => absurd h (by decide)) (fun _ _ h => absurd h (by decide))
        rfl (hlistener ▸ hrun)
    exact ⟨s, hrun, run_flag hrun, fun h => (hevents h).1, fun h => (hevents h).2⟩

/-- A node without a listener that has been elected hears of another leader. -/
theorem lost_without_listener :
    run (updateLeadership 1 false) initial [⟨1, .leader⟩, ⟨2, .follower⟩] = .error () := by
  decide

theorem bookkeeping_of_listener :
    ∃ s, run (updateLeadership 1 true) initial [⟨1, .leader⟩, ⟨2, .follower⟩] = .ok s ∧
      Recorded 1 true [⟨1, .leader⟩, ⟨2, .follower⟩] s :=
  (bookkeeping_iff 1 true (by decide) (by decide)).mpr (.inl rfl)

end Leadership

end Babuza.Raft
