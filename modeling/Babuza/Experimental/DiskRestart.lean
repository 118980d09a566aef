import Babuza.Raft.DiskRestart

/-!
# Restarting a group with a disk state machine

`restartStore` in `raft/experimental/bootstrap.go` has its own copy of what `handleDiskStateMachine`
does for a single group. When `Open` asks for the state machine to be rebuilt, the copy goes on to
the `SetOpenAppliedIndex` of the other branch: the index that the discarded state had reached is
taken for that of the restored one, and `applyEntries` passes over the entries up to it.
-/

namespace Babuza.Experimental

open Lib Raft List

variable {σ R : Type}

/-- The part of `restartStore` for a disk state machine: the index from which on entries are
applied. `diskAppliedIndex` and `rebuildStateMachine` are what `Open` returns. -/
def restartStoreOpen (diskAppliedIndex : Nat) (rebuildStateMachine : Bool)
    (snapshot : Option Snapshot) : Option Nat :=
  -- `restoreStateMachine` sets the index of the snapshot, which is overwritten
  if rebuildStateMachine then some diskAppliedIndex
  else match snapshot with
    | some snapshot =>
      if diskAppliedIndex < snapshot.metadata.index then none else some diskAppliedIndex
    | none => some diskAppliedIndex

/-- The entries that `applyEntries` is to apply: the others have no data, or are changes of the
configuration. -/
def isNormal (e : TimedEntry) : Bool := decide (e.2.data ≠ [] ∧ e.2.type = .normal)

/-- The entries that pass the check of `applyEntries`, for a disk state machine. -/
def passedToApply (openAppliedIndex : Nat) (log : List TimedEntry) : List TimedEntry :=
  log.filter fun e => isNormal e && decide (openAppliedIndex < e.2.index)

/-- The normal entries that `applyEntries` passes over. -/
def isSkipped (openAppliedIndex : Nat) (e : TimedEntry) : Bool :=
  isNormal e && decide (e.2.index ≤ openAppliedIndex)

/-! ## What the index does in the loops -/

variable {codecs : RequestCodecs} {sm : StateMachine σ R} {openAppliedIndex : Nat}

variable {r : Raft.Replica σ R} {e : TimedEntry}

theorem processEntry_skipped (h : isSkipped openAppliedIndex e = true) :
    processEntry codecs sm ⟨openAppliedIndex, true⟩ r e = .ok r := by
  simp only [isSkipped, isNormal, Bool.and_eq_true, decide_eq_true_eq] at h
  obtain ⟨⟨hdata, htype⟩, hle⟩ := h
  rw [processEntry_of_ne sm (by simp [htype]), applyEntry, if_neg hdata, htype]
  exact if_pos hle

theorem processEntry_not_skipped (h : isSkipped openAppliedIndex e = false) :
    processEntry codecs sm ⟨openAppliedIndex, true⟩ r e =
      processEntry codecs sm ⟨0, true⟩ r e := by
  by_cases hlt : openAppliedIndex < e.2.index
  · exact processEntry_behind sm hlt
  · -- an entry up to the index that is not passed over has no data, or is not a normal one
    have happly : ∀ r : Raft.Replica σ R, applyEntry codecs sm ⟨openAppliedIndex, true⟩ r e.1 e.2 =
        applyEntry codecs sm ⟨0, true⟩ r e.1 e.2 := by
      intro r
      unfold applyEntry
      by_cases hdata : e.2.data = []
      · rw [if_pos hdata, if_pos hdata]
      · cases htype : e.2.type with
        | confChange | confChangeV2 => rfl
        | normal =>
          have hskipped : isSkipped openAppliedIndex e = true := by
            simp [isSkipped, isNormal, hdata, htype, not_lt.mp hlt]
          exact absurd (h.symm.trans hskipped) Bool.false_ne_true
    unfold processEntry
    simp only [happly]

variable {log : List TimedEntry}

/-- The loops do to a replica what they do, without the check, for the log that lacks the entries
passed over. -/
theorem run_processEntry_eq :
    run (processEntry codecs sm ⟨openAppliedIndex, true⟩) r log =
      run (processEntry codecs sm ⟨0, true⟩) r
        (log.filter fun e => !isSkipped openAppliedIndex e) := by
  induction log generalizing r with
  | nil => rfl
  | cons e log ih =>
    cases hskipped : isSkipped openAppliedIndex e with
    | true =>
      rw [filter_cons_of_neg (by simp [hskipped]), run_cons_ok _ (processEntry_skipped hskipped)]
      exact ih
    | false =>
      rw [filter_cons_of_pos (by simp [hskipped])]
      have hstep : processEntry codecs sm ⟨openAppliedIndex, true⟩ r e =
          processEntry codecs sm ⟨0, true⟩ r e :=
        processEntry_not_skipped hskipped
      cases hprocess : processEntry codecs sm ⟨0, true⟩ r e with
      | error panic =>
        rw [run_cons_error _ (hstep.trans hprocess), run_cons_error _ hprocess]
      | ok r' =>
        rw [run_cons_ok _ (hstep.trans hprocess), run_cons_ok _ hprocess]
        exact ih

variable {r' : Raft.Replica σ R}

theorem processEntry_applied (h : processEntry codecs sm ⟨openAppliedIndex, true⟩ r e = .ok r') :
    r'.applied = r.applied ∨
      ∃ a, r'.applied = r.applied ++ [a] ∧ openAppliedIndex < a.command.index := by
  obtain ⟨s, hconf, happly⟩ := bind_eq_ok.mp h
  have hsame : s.applied = r.applied := by
    unfold applyConfChangeEntry at hconf
    split at hconf
    · split at hconf <;> cases hconf
      rfl
    · cases hconf
      rfl
  rcases applyEntry_applied happly with heq | ⟨a, heq, hindex, hlt⟩
  · exact .inl (heq.trans hsame)
  · exact .inr ⟨a, hsame ▸ heq, hindex ▸ hlt⟩

theorem run_processEntry_applied
    (h : run (processEntry codecs sm ⟨openAppliedIndex, true⟩) r log = .ok r')
    (hr : ∀ a ∈ r.applied, openAppliedIndex < a.command.index) :
    ∀ a ∈ r'.applied, openAppliedIndex < a.command.index := by
  refine run_induction (I := fun r => ∀ a ∈ r.applied, openAppliedIndex < a.command.index) ?_ hr h
  intro r e r' hr hstep
  rcases processEntry_applied hstep with heq | ⟨b, heq, hlt⟩
  · rwa [heq]
  · rw [heq]
    exact forall_mem_concat.mpr ⟨hr, hlt⟩

/-! ## The two restarts -/

variable {d : Nat} {rebuild : Bool} {snap : Option Snapshot}

theorem passedToApply_eq_filter (h : ∀ e ∈ log, isNormal e → openAppliedIndex < e.2.index) :
    passedToApply openAppliedIndex log = log.filter isNormal := by
  refine filter_congr fun e he => ?_
  cases hnormal : isNormal e with
  | false => rfl
  | true => exact decide_eq_true (h e he hnormal)

theorem run_processEntry_of_behind (h : ∀ e ∈ log, isNormal e → openAppliedIndex < e.2.index) :
    run (processEntry codecs sm ⟨openAppliedIndex, true⟩) r log =
      run (processEntry codecs sm ⟨0, true⟩) r log := by
  have hall : log.filter (fun e => !isSkipped openAppliedIndex e) = log := by
    refine filter_eq_self.mpr fun e he => ?_
    cases hnormal : isNormal e with
    | false => simp [isSkipped, hnormal]
    | true => simp [isSkipped, h e he hnormal]
  rw [run_processEntry_eq, hall]

/-- A restart of a group and a single-group restart pass the same normal entries to the state
machine exactly if `Open` did not ask for a rebuild, or no normal entry of the log is at or below
the index that it returned. Then they end in the same state; and if a rebuilt state machine is given
an entry up to that index by the single-group restart, the sequences of commands differ too. -/
theorem restartStore_agrees_iff {single : Nat} {log : List TimedEntry} (codecs : RequestCodecs)
    (sm : StateMachine σ R) (r : Raft.Replica σ R)
    (hlog : Consecutive (·.2.index) ((snap.map (·.metadata.index)).getD 0 + 1) log)
    (hsingle : handleDiskStateMachine d rebuild snap = some single) :
    ∃ multi, restartStoreOpen d rebuild snap = some multi ∧
      (passedToApply multi log = passedToApply single log ↔
        rebuild = false ∨ ∀ e ∈ log, isNormal e → d < e.2.index) ∧
      (rebuild = true → passedToApply single log = log.filter isNormal) ∧
      (rebuild = false ∨ (∀ e ∈ log, isNormal e → d < e.2.index) →
        run (processEntry codecs sm ⟨multi, true⟩) r log =
          run (processEntry codecs sm ⟨single, true⟩) r log) ∧
      ∀ a b, r.applied = [] → run (processEntry codecs sm ⟨single, true⟩) r log = .ok a →
        run (processEntry codecs sm ⟨multi, true⟩) r log = .ok b → a.applied = b.applied →
        rebuild = true → ∀ x ∈ a.applied, d < x.command.index := by
  cases rebuild with
  | false =>
    -- the two definitions have this branch in common
    exact ⟨single, hsingle, by simp, by simp, fun _ => rfl, by simp⟩
  | true =>
    cases hsingle
    have hbehind : ∀ e ∈ log, (snap.map (·.metadata.index)).getD 0 < e.2.index :=
      fun e he => hlog.le_index he
    have hsingle := passedToApply_eq_filter fun e he (_ : isNormal e) => hbehind e he
    refine ⟨d, rfl, ?_, fun _ => hsingle, ?_, ?_⟩
    · rw [hsingle]
      constructor
      · intro heq
        refine .inr fun e he hnormal => ?_
        have hmem : e ∈ passedToApply d log := heq ▸ mem_filter.mpr ⟨he, hnormal⟩
        exact of_decide_eq_true (Bool.and_eq_true_iff.mp (mem_filter.mp hmem).2).2
      · rintro (hfalse | hlt)
        · cases hfalse
        · exact passedToApply_eq_filter hlt
    · rintro (hfalse | hlt)
      · cases hfalse
      · rw [run_processEntry_of_behind hlt, run_processEntry_of_behind fun e he _ => hbehind e he]
    · intro a b hnew _ hmulti heq _
      rw [heq]
      exact run_processEntry_applied hmulti (by simp [hnew])

/-- The state machine has applied the request at index 1, and asks for a rebuild; there is no
snapshot. A single group applies the request, a group of a store does not. -/
theorem rebuilt_group_lacks_entry :
    let log := normalLog [0]
    let restarted openAppliedIndex :=
      (run (processEntry (requestTable [sessionRequest 0 0 0 [7]] [])
      counter ⟨openAppliedIndex, true⟩) (newReplica (.lru ⟨8, .empty⟩) 0) log).map
        (fun r => r.applied.map (·.command.index))
    (handleDiskStateMachine 1 true none).map restarted = some (.ok [1]) ∧
      (restartStoreOpen 1 true none).map restarted = some (.ok []) := by
  decide +kernel

theorem rebuilt_group_agrees :
    ∃ multi, restartStoreOpen 1 true (some snapshotAtOne) = some multi ∧
      run (processEntry (requestTable [registerRequest] []) counter ⟨multi, true⟩)
        (newReplica (.lru ⟨8, .empty⟩) 0) (registrations [2, 3]) =
      run (processEntry (requestTable [registerRequest] []) counter ⟨1, true⟩)
        (newReplica (.lru ⟨8, .empty⟩) 0) (registrations [2, 3]) := by
  have hlog : Consecutive (·.2.index)
      (((some snapshotAtOne).map (·.metadata.index)).getD 0 + 1) (registrations [2, 3]) := by decide
  obtain ⟨multi, hmulti, -, -, hrun, -⟩ := restartStore_agrees_iff
    (requestTable [registerRequest] []) counter (newReplica (.lru ⟨8, .empty⟩) 0) hlog
    (rfl : handleDiskStateMachine 1 true (some snapshotAtOne) = some 1)
  exact ⟨multi, hmulti, hrun (.inr (by decide))⟩

end Babuza.Experimental
