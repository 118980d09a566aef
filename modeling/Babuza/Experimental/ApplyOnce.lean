import Babuza.Raft.ReadyOrder

/-!
# Apply jobs of a multi-raft replica

`replica.processReady` puts the committed entries of a Ready into the apply queue and calls
`Advance`. When one of them removes the local peer it returns without `Advance` and publishes
`RemoveSelf`. Until the store's listener has taken the replica out, the scheduler may process the
group again: the same entries are queued once more. The queued indices are increasing exactly if the
listener is always faster than the next pass (`queued_increasing_iff`). Ticks, steps, proposals and
configuration changes act on the raft node only.
-/

namespace Babuza.Experimental

open Lib Raft List

/-! ## The model -/

/-- The committed part of a `raft.RawNode`: its log above a snapshot at `base`, how far it has been
told that entries are applied, and the committed entries that were handed out since. -/
structure RawNode where
  base : Nat
  log : List Entry
  applied : Nat
  handed : Option (List Entry)

/-- A replica, its group's apply jobs and whether it is still in the store. `queued` are the indices
of the entries in the jobs. -/
structure GroupReplica where
  rawNode : RawNode
  queued : List Nat
  removed : Bool

inductive ReplicaInput (M : Type) where
  /-- a tick, a step or a proposal after which more entries are committed -/
  | commit (entries : List Entry)
  /-- a step with a snapshot -/
  | restore (index : Nat)
  /-- `ProcessReady`; `removeSelf` is the answer of `applyConfChangeEntry` -/
  | processReady (rd : LoopReady M) (isLeader removeSelf : Bool)
  /-- the listener comes to `RemoveSelf` -/
  | removeSelf

namespace RawNode

def nextEnts (n : RawNode) : List Entry := n.log.filter fun e => n.applied < e.index

/-- The committed entries a Ready may have: those handed out before, until `Advance`, or some of the
next ones. -/
def Hands (n : RawNode) (entries : List Entry) : Prop :=
  match n.handed with
  | some handed => entries = handed
  | none => entries <+: n.nextEnts

instance (n : RawNode) (entries : List Entry) : Decidable (n.Hands entries) :=
  match h : n.handed with
  | some handed => decidable_of_iff (entries = handed) (by rw [Hands, h])
  | none => decidable_of_iff (entries <+: n.nextEnts) (by rw [Hands, h])

def lastIndex (entries : List Entry) (otherwise : Nat) : Nat :=
  (entries.getLast?.map Entry.index).getD otherwise

/-- `Advance`: the node is done with the committed entries, or with the snapshot if there were
none. -/
def advance (n : RawNode) (entries : List Entry) : RawNode :=
  { n with applied := lastIndex entries (max n.applied n.base), handed := none }

end RawNode

namespace GroupReplica

variable {M : Type}

/-- The entries that a round puts into the apply queue. -/
def jobs (actions : List (Action M)) : List Nat :=
  actions.flatMap fun a =>
    match a with
    | .putApply entries _ => entries.map Entry.index
    | _ => []

/-- `processReady` with the Ready that the raft node gives. Its return when the replica is closed
while a ReadState is sent is left out: nothing of the Ready is processed then. -/
def processReady (r : GroupReplica) (rd : LoopReady M) (isLeader removeSelf : Bool) :
    GroupReplica :=
  let actions := rd.actions isLeader removeSelf
  { r with
    rawNode :=
      if actions.any (· matches .advance) then r.rawNode.advance rd.committedEntries
      else { r.rawNode with handed := some rd.committedEntries }
    queued := r.queued ++ jobs actions }

def Enabled (r : GroupReplica) : ReplicaInput M → Prop
  | .commit entries =>
    Consecutive Entry.index (r.rawNode.base + r.rawNode.log.length + 1) entries
  | .restore index => r.rawNode.base + r.rawNode.log.length < index
  | .processReady rd _ removeSelf =>
    r.removed = true ∨ r.rawNode.Hands rd.committedEntries ∧
      (removeSelf = true → ∃ e ∈ rd.committedEntries, e.type = .confChange)
  | .removeSelf => True

instance (r : GroupReplica) (i : ReplicaInput M) : Decidable (r.Enabled i) := by
  cases i <;> unfold Enabled <;> infer_instance

def next (r : GroupReplica) : ReplicaInput M → GroupReplica
  | .commit entries => { r with rawNode := { r.rawNode with log := r.rawNode.log ++ entries } }
  | .restore index => { r with rawNode := { r.rawNode with base := index, log := [] } }
  | .processReady rd isLeader removeSelf =>
    -- the store does not find a replica that was taken out
    if r.removed then r else r.processReady rd isLeader removeSelf
  | .removeSelf => { r with removed := true }

def exec (r : GroupReplica) (i : ReplicaInput M) : Except Unit GroupReplica :=
  if r.Enabled i then .ok (r.next i) else .error ()

def start (base : Nat) : GroupReplica := ⟨⟨base, [], base, none⟩, [], false⟩

/-- A pass over the group does not find the replica between the removal of the local peer and the
listener. -/
def Listened (r : GroupReplica) : ReplicaInput M → Prop
  | .processReady _ _ _ => r.removed = true ∨ r.rawNode.handed = none
  | _ => True

instance (r : GroupReplica) (i : ReplicaInput M) : Decidable (r.Listened i) := by
  cases i <;> unfold Listened <;> infer_instance

theorem exec_eq_ok {r r' : GroupReplica} {i : ReplicaInput M} :
    r.exec i = .ok r' ↔ r.Enabled i ∧ r' = r.next i := by
  unfold exec
  split <;> simp [*, eq_comm]

@[simp] theorem jobs_actions (rd : LoopReady M) (isLeader removeSelf : Bool) :
    jobs (rd.actions isLeader removeSelf) = rd.committedEntries.map Entry.index := by
  have hput : jobs (if rd.committedEntries ≠ [] ∨ isEmptySnap rd.snapshot = false then
      [Action.putApply (M := M) rd.committedEntries rd.snapshot] else []) =
        rd.committedEntries.map Entry.index := by
    split
    · simp [jobs]
    · simp_all [jobs]
  simp only [LoopReady.actions, jobs, flatMap_append] at hput ⊢
  rw [hput]
  cases rd.shouldWaitWALSync <;> cases isLeader <;> cases removeSelf <;>
    cases isEmptySnap rd.snapshot <;> simp [LoopReady.saveAction]

@[simp] theorem any_advance_actions (rd : LoopReady M) (isLeader removeSelf : Bool) :
    (rd.actions isLeader removeSelf).any (· matches .advance) = !removeSelf := by
  simp only [LoopReady.actions, any_append]
  have hput : (if rd.committedEntries ≠ [] ∨ isEmptySnap rd.snapshot = false then
      [Action.putApply (M := M) rd.committedEntries rd.snapshot] else []).any
        (· matches .advance) = false := by
    split <;> rfl
  rw [hput]
  cases rd.shouldWaitWALSync <;> cases isLeader <;> cases removeSelf <;>
    cases isEmptySnap rd.snapshot <;> rfl

theorem processReady_eq (r : GroupReplica) (rd : LoopReady M) (isLeader removeSelf : Bool) :
    r.processReady rd isLeader removeSelf =
      { r with
        rawNode := if removeSelf then { r.rawNode with handed := some rd.committedEntries }
          else r.rawNode.advance rd.committedEntries
        queued := r.queued ++ rd.committedEntries.map Entry.index } := by
  cases removeSelf <;> simp [processReady]

end GroupReplica

namespace RawNode

variable {n : RawNode} {entries : List Entry} {d : Nat}

@[simp] theorem lastIndex_nil : lastIndex [] d = d := rfl

theorem lastIndex_of_ne_nil (hne : entries ≠ []) (d' : Nat) :
    lastIndex entries d = lastIndex entries d' := by
  unfold lastIndex
  rw [getLast?_eq_some_getLast hne]
  rfl

theorem le_lastIndex (h : entries.Pairwise fun e e' => e.index < e'.index) {e : Entry}
    (he : e ∈ entries) : e.index ≤ lastIndex entries d := by
  have hne : entries ≠ [] := ne_nil_of_mem he
  have hlast : lastIndex entries d = (entries.getLast hne).index := by
    simp [lastIndex, getLast?_eq_some_getLast hne]
  rw [← dropLast_append_getLast hne, pairwise_append] at h
  rw [hlast]
  rw [← dropLast_append_getLast hne, List.mem_append, mem_singleton] at he
  rcases he with he | rfl
  · exact (h.2.2 e he _ mem_cons_self).le
  · exact Nat.le_refl _

theorem nextEnts_pairwise {first : Nat} (h : Consecutive Entry.index first n.log)
    (hentries : entries <+: n.nextEnts) : entries.Pairwise fun e e' => e.index < e'.index :=
  (h.pairwise_lt.filter _).sublist hentries.sublist

theorem applied_lt_of_mem (hentries : entries <+: n.nextEnts) {e : Entry} (he : e ∈ entries) :
    n.applied < e.index := by
  have hmem : e ∈ n.nextEnts := hentries.subset he
  simpa [nextEnts] using (mem_filter.mp hmem).2

/-- How far entries have been handed out. -/
def top (n : RawNode) : Nat :=
  match n.handed with
  | none => n.applied
  | some entries => lastIndex entries n.applied

end RawNode

namespace GroupReplica

variable {M : Type} {r r' : GroupReplica} {i : ReplicaInput M}

/-! ## Runs -/

structure Invariant (r : GroupReplica) : Prop where
  log : Consecutive Entry.index (r.rawNode.base + 1) r.rawNode.log
  queued_le : ∀ i ∈ r.queued, i ≤ r.rawNode.top
  handed : ∀ es, r.rawNode.handed = some es → es ≠ [] ∧ ∀ e ∈ es, e.index ∈ r.queued

theorem invariant_start (base : Nat) : Invariant (start base) where
  log := consecutive_nil
  queued_le := by simp [start]
  handed := by simp [start]

section

variable (h : r.Invariant)
include h

theorem Invariant.queued_le_applied (hnone : r.rawNode.handed = none) :
    ∀ i ∈ r.queued, i ≤ r.rawNode.applied := by
  have hle := h.queued_le
  unfold RawNode.top at hle
  rwa [hnone] at hle

theorem Invariant.queued_le_lastIndex {entries : List Entry} {d : Nat}
    (hhands : r.rawNode.Hands entries) (hd : r.rawNode.applied ≤ d) :
    ∀ i ∈ r.queued ++ entries.map Entry.index, i ≤ RawNode.lastIndex entries d := by
  intro i hi
  unfold RawNode.Hands at hhands
  split at hhands
  case h_1 es heq =>
    -- the same entries again: nothing new is in the queue
    subst hhands
    obtain ⟨hne, hmem⟩ := h.handed entries heq
    have hqueued : i ∈ r.queued := by
      rcases List.mem_append.mp hi with hi | hi
      · exact hi
      · obtain ⟨e, he, rfl⟩ := mem_map.mp hi
        exact hmem e he
    have hle := h.queued_le i hqueued
    unfold RawNode.top at hle
    rw [heq] at hle
    rwa [RawNode.lastIndex_of_ne_nil hne r.rawNode.applied]
  case h_2 hnone =>
    have hpairwise := RawNode.nextEnts_pairwise h.log hhands
    rcases List.mem_append.mp hi with hi | hi
    · have hle := h.queued_le_applied hnone i hi
      cases entries with
      | nil => exact hle.trans hd
      | cons e rest =>
        have hlt := RawNode.applied_lt_of_mem hhands mem_cons_self
        have hlast := RawNode.le_lastIndex (d := d) hpairwise mem_cons_self
        omega
    · obtain ⟨e, he, rfl⟩ := mem_map.mp hi
      exact RawNode.le_lastIndex hpairwise he

variable {isLeader removeSelf : Bool} {rd : LoopReady M}

theorem Invariant.processReady (hhands : r.rawNode.Hands rd.committedEntries)
    (hremove : removeSelf = true → ∃ e ∈ rd.committedEntries, e.type = .confChange) :
    (r.processReady rd isLeader removeSelf).Invariant := by
  rw [processReady_eq]
  cases removeSelf with
  | true =>
    obtain ⟨e, he, _⟩ := hremove rfl
    refine ⟨h.log, h.queued_le_lastIndex hhands (Nat.le_refl _), ?_⟩
    intro es hes
    cases hes
    exact ⟨ne_nil_of_mem he, fun e he => mem_append_right _ (mem_map_of_mem he)⟩
  | false => exact ⟨h.log, h.queued_le_lastIndex hhands (Nat.le_max_left _ _), nofun⟩

theorem Invariant.exec (hstep : r.exec i = .ok r') : r'.Invariant := by
  obtain ⟨henabled, rfl⟩ := exec_eq_ok.mp hstep
  cases i with
  | commit entries =>
    refine { h with log := ?_ }
    have hentries : Consecutive Entry.index (r.rawNode.base + 1 + r.rawNode.log.length)
      entries := by
      rwa [Nat.add_right_comm]
    exact consecutive_append.mpr ⟨h.log, hentries⟩
  | restore index => exact { h with log := consecutive_nil }
  | processReady rd isLeader removeSelf =>
    rw [next]
    split
    · exact h
    · next hin =>
      obtain ⟨hhands, hremove⟩ := henabled.resolve_left hin
      exact h.processReady hhands hremove
  | removeSelf => exact { h with }

theorem Invariant.processReady_increasing_iff (hqueued : r.queued.Pairwise (· < ·))
    (hhands : r.rawNode.Hands rd.committedEntries) :
    (r.processReady rd isLeader removeSelf).queued.Pairwise (· < ·) ↔ r.rawNode.handed = none := by
  rw [processReady_eq]
  constructor
  · intro hincreasing
    cases hhanded : r.rawNode.handed with
    | none => rfl
    | some es =>
      rw [RawNode.Hands, hhanded] at hhands
      obtain ⟨hne, hmem⟩ := h.handed es hhanded
      obtain ⟨e, he⟩ := exists_mem_of_ne_nil es hne
      have hlt : e.index < e.index := by
        refine (pairwise_append.mp hincreasing).2.2 _ (hmem e he) _ ?_
        exact mem_map_of_mem (hhands ▸ he)
      exact absurd hlt (Nat.lt_irrefl _)
  · intro hnone
    have hle := h.queued_le_applied hnone
    rw [RawNode.Hands, hnone] at hhands
    refine pairwise_append.mpr ⟨hqueued, ?_, ?_⟩
    · exact pairwise_map.mpr (RawNode.nextEnts_pairwise h.log hhands)
    · intro i hi j hj
      obtain ⟨e, he, rfl⟩ := mem_map.mp hj
      exact (hle i hi).trans_lt (RawNode.applied_lt_of_mem hhands he)

theorem Invariant.exec_increasing_iff (hqueued : r.queued.Pairwise (· < ·))
    (hstep : r.exec i = .ok r') : r'.queued.Pairwise (· < ·) ↔ r.Listened i := by
  obtain ⟨henabled, rfl⟩ := exec_eq_ok.mp hstep
  cases i with
  | commit entries | restore index | removeSelf => exact iff_of_true hqueued trivial
  | processReady rd isLeader removeSelf =>
    rw [next, Listened]
    split
    · next hin => exact iff_of_true hqueued (.inl hin)
    · next hin =>
      rw [h.processReady_increasing_iff hqueued (henabled.resolve_left hin).1]
      exact (or_iff_right hin).symm

end

/-- Each committed index is queued once and in order exactly if no pass over the group comes between
the removal of the local peer and the listener. -/
theorem queued_increasing_iff (base : Nat) (inputs : List (ReplicaInput M)) (r : GroupReplica)
    (hrun : run exec (start base) inputs = .ok r) :
    (∀ front r', front <+: inputs → run exec (start base) front = .ok r' →
      r'.queued.Pairwise (· < ·)) ↔ Throughout exec Listened (start base) inputs :=
  forall_reached_iff_throughout Invariant.exec Invariant.exec_increasing_iff (invariant_start base)
    List.Pairwise.nil hrun

/-- A Ready with a command at index 1 and a configuration change at index 2. -/
private def removal : LoopReady Unit where
  hardState := .empty
  entries := []
  snapshot := .empty
  softState := none
  committedEntries := [⟨1, 1, .normal, []⟩, ⟨1, 2, .confChange, []⟩]
  messages := []

theorem removed_before_next_pass : ∃ r,
    run exec (start 0) [.commit removal.committedEntries, .processReady removal false true,
      .removeSelf, .processReady removal false false] = .ok r ∧
    ∀ front r', front <+: [.commit removal.committedEntries, .processReady removal false true,
        .removeSelf, .processReady removal false false] →
      run exec (start 0) front = .ok r' → r'.queued.Pairwise (· < ·) := by
  refine (exists_eq_ok (by decide +kernel)).imp fun r hrun => ⟨hrun, ?_⟩
  exact (queued_increasing_iff 0 _ r hrun).mpr (by decide +kernel)

/-- Before the listener takes the replica out, the next tick of the group makes the scheduler
process it again: both entries are queued a second time. -/
theorem queued_twice : ∃ (inputs : List (ReplicaInput Unit)) (r : GroupReplica),
    run exec (start 0) inputs = .ok r ∧ r.queued = [1, 2, 1, 2] := by
  exact ⟨[.commit removal.committedEntries, .processReady removal false true,
    .processReady removal false false, .removeSelf], _, rfl, rfl⟩

end GroupReplica

end Babuza.Experimental
