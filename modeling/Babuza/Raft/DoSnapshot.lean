import Babuza.Lib.Run
import Mathlib.Data.List.Nodup
import Mathlib.Data.List.Sort

/-!
# The life of a snapshot

The apply loop creates a context, `CreateSnapshot` announces the index in the entry storage,
`Commit` installs the files, the running transfers are counted, and the log is compacted and older
files are given to the purger (`raft/raft_apply.go`, `raft/raft_storage.go`). With a concurrent
state machine all but the first step run in a goroutine. Each step is a guard, a way to crash and an
effect. Of the code for one group and that of `raft/experimental` only the former counts the
transfers.

Results: when an announced snapshot can be opened (`announced_installed_iff`), when the log is not
compacted under a transfer (`compacts_alone_iff`), and when the running snapshots cannot crash the
node (`never_crashes_iff`).
-/

namespace Babuza.Raft

open Lib List

/-! ## The model -/

/-- The indices of the snapshots that are being taken stand in the list of the step they have
reached: `contexts`, `stored` (announced in the entry storage), `committed` (installed), `checked`
(no transfer was running). `offset` and `lastIndex` are those of the entry storage, `statusIndex` is
the snapshot index of the status, `received` are the snapshots that were installed in another way
than by `doSnapshot`. `messages` are the snapshots that the raft library has got from `Snapshot()`
and that are still to be sent. -/
structure SnapshotNode where
  applied : Nat
  statusIndex : Nat
  snapshotIndex : Nat
  offset : Nat
  lastIndex : Nat
  contexts : List Nat
  stored : List Nat
  committed : List Nat
  checked : List Nat
  installed : List Nat
  received : List Nat
  purgeRequests : List Nat
  messages : List Nat
  inflight : Int
  transfers : List Nat
  deriving DecidableEq

/-- `panic` is the one of `triggerSnapshot` and `processStateMachine`, `fatal` that of `doSnapshot`,
`applyPanic` that of the apply loop's `applySnapshot`, `readyPanic` that of the Ready loop,
`sendPanic` that of `Transport.SendSnapshot`. -/
inductive SnapshotError
  | disabled
  | panic
  | fatal
  | applyPanic
  | readyPanic
  | sendPanic
  deriving DecidableEq

inductive SnapshotInput
  | apply (index : Nat)
  | restore (index : Nat)
  | trigger (manual : Bool)
  | createSnapshot (index : Nat)
  | commit (index : Nat)
  | check (index : Nat)
  | compact (index : Nat)
  | append (lastIndex : Nat)
  | receive (index : Nat)
  | applySnapshot (index : Nat)
  | purge
  | snapshot
  | send (index : Nat)
  | report (index : Nat)
  deriving DecidableEq

/-- The parameters of a node: whether snapshots are taken concurrently, whether transfers are
counted, `SnapshotCount` and `MaxSnapFiles`. -/
structure SnapshotConfig where
  concurrent : Bool
  counted : Bool
  snapshotCount : Nat
  maxSnapFiles : UInt64

namespace SnapshotNode

/-- A node that has started from the snapshot `index`, with `length` entries behind it and the given
snapshots on disk. A state machine on disk may have applied some of the entries already. -/
def boot (index ahead length : Nat) (installed : List Nat) : SnapshotNode where
  applied := index + ahead
  statusIndex := index
  snapshotIndex := index
  offset := index
  lastIndex := index + length
  contexts := []
  stored := []
  committed := []
  checked := []
  installed := if index = 0 then installed else index :: installed
  received := if index = 0 then installed else index :: installed
  purgeRequests := []
  messages := []
  inflight := 0
  transfers := []

def running (n : SnapshotNode) : List Nat := n.contexts ++ n.stored ++ n.committed ++ n.checked

def Busy (n : SnapshotNode) : Prop := n.running ≠ []

instance (n : SnapshotNode) : Decidable n.Busy := inferInstanceAs (Decidable (_ ≠ _))

/-- The files that `purgeSnapshot` removes: of the oldest that are too many, those below the
index. -/
def purged (cfg : SnapshotConfig) (n : SnapshotNode) (index : Nat) : List Nat :=
  ((n.installed.insertionSort (· ≤ ·)).take (n.installed.length - cfg.maxSnapFiles.toNat)).filter
    (· < index)

/-- When a step can be taken. The apply loop waits for a snapshot that is not taken concurrently. An
append never ends before an applied entry. A snapshot that is installed already is not received
again. The applied index does not go back, as it does when a restarted state machine on disk gets
entries that it has. The purger ends the process if `MaxSnapFiles` is negative as an `int`. -/
def Enabled (cfg : SnapshotConfig) (n : SnapshotNode) : SnapshotInput → Prop
  | .apply index => (cfg.concurrent = true ∨ ¬ n.Busy) ∧ n.applied ≤ index
  | .restore _ => cfg.concurrent = true ∨ ¬ n.Busy
  | .trigger manual => (cfg.concurrent = true ∨ ¬ n.Busy) ∧
      (manual = true ∨ cfg.snapshotCount ≤ n.applied - n.statusIndex)
  | .createSnapshot index => index ∈ n.contexts
  | .commit index => index ∈ n.stored
  | .check index => index ∈ n.committed
  | .compact index => index ∈ n.checked
  | .append lastIndex => n.applied ≤ lastIndex
  | .receive index => index ∉ n.installed
  | .applySnapshot index => index ∈ n.installed
  | .purge => n.purgeRequests ≠ [] ∧ 0 ≤ cfg.maxSnapFiles.toInt64
  | .snapshot => n.snapshotIndex ≠ 0
  | .send index => index ∈ n.messages
  | .report index => index ∈ n.transfers

instance (cfg : SnapshotConfig) (n : SnapshotNode) (i : SnapshotInput) :
    Decidable (n.Enabled cfg i) := by
  cases i <;> unfold Enabled <;> infer_instance

/-- How a step crashes the node. The folder of a context must not exist yet, the entry storage
refuses a snapshot that is not ahead of its own and a compaction behind the log's start, and both
panic behind its end; files are installed once for each index. -/
def crash (n : SnapshotNode) : SnapshotInput → Option SnapshotError
  | .restore index => if index ≤ n.applied ∨ index ∉ n.installed then some .applyPanic else none
  | .trigger _ => if n.applied ∈ n.contexts ∨ n.applied ∈ n.stored then some .panic else none
  | .createSnapshot index =>
    if index ≤ n.snapshotIndex ∨ n.lastIndex < index then some .panic else none
  | .commit index => if index ∈ n.installed then some .panic else none
  | .check _ => if n.inflight < 0 then some .fatal else none
  | .compact index => if index ≤ n.offset ∨ n.lastIndex < index then some .panic else none
  | .applySnapshot index => if index ≤ n.snapshotIndex then some .readyPanic else none
  | .send index => if index ∉ n.installed then some .sendPanic else none
  | _ => none

def next (cfg : SnapshotConfig) (n : SnapshotNode) : SnapshotInput → SnapshotNode
  | .apply index => { n with applied := index }
  | .restore index => { n with applied := index, statusIndex := index }
  | .trigger _ => { n with statusIndex := n.applied, contexts := n.applied :: n.contexts }
  | .createSnapshot index => { n with
      contexts := n.contexts.erase index
      snapshotIndex := index
      stored := index :: n.stored }
  | .commit index => { n with
      stored := n.stored.erase index
      installed := index :: n.installed
      committed := index :: n.committed }
  | .check index => { n with
      committed := n.committed.erase index
      -- with a transfer running the compaction is skipped
      checked := if 0 < n.inflight then n.checked else index :: n.checked }
  | .compact index => { n with
      checked := n.checked.erase index
      offset := index
      purgeRequests := n.purgeRequests ++ [index] }
  | .append lastIndex => { n with lastIndex := lastIndex }
  | .receive index => { n with
      installed := index :: n.installed
      received := index :: n.received }
  | .applySnapshot index => { n with
      snapshotIndex := index
      offset := index
      lastIndex := index
      purgeRequests := n.purgeRequests ++ [index] }
  | .purge => { n with
      purgeRequests := n.purgeRequests.tail
      installed := n.installed.filter (· ∉ n.purged cfg (n.purgeRequests.headD 0)) }
  | .snapshot => { n with messages := n.snapshotIndex :: n.messages }
  | .send index => { n with
      messages := n.messages.erase index
      transfers := index :: n.transfers
      inflight := if cfg.counted then n.inflight + 1 else n.inflight }
  | .report index => { n with
      transfers := n.transfers.erase index
      inflight := if cfg.counted then n.inflight - 1 else n.inflight }

def exec (cfg : SnapshotConfig) (n : SnapshotNode) (i : SnapshotInput) :
    Except SnapshotError SnapshotNode :=
  if n.Enabled cfg i then
    match n.crash i with
    | some e => .error e
    | none => .ok (n.next cfg i)
  else .error .disabled

variable {cfg : SnapshotConfig} {n n' : SnapshotNode} {i : SnapshotInput}

theorem exec_eq_ok (h : n.exec cfg i = .ok n') :
    n.Enabled cfg i ∧ n.crash i = none ∧ n' = n.next cfg i := by
  unfold exec at h
  split at h
  next henabled =>
    split at h
    · cases h
    next hcrash => exact ⟨henabled, hcrash, (Except.ok.inj h).symm⟩
  · cases h

theorem exec_of_crash {e : SnapshotError} (henabled : n.Enabled cfg i)
    (hcrash : n.crash i = some e) : n.exec cfg i = .error e := by
  simp only [exec, if_pos henabled, hcrash]

theorem exec_of_not_crash (henabled : n.Enabled cfg i) (hcrash : n.crash i = none) :
    n.exec cfg i = .ok (n.next cfg i) := by
  simp only [exec, if_pos henabled, hcrash]

theorem ite_some_none_eq_none {p : Prop} [Decidable p] {e : SnapshotError} :
    (if p then some e else none) = none ↔ ¬ p := by
  simp

/-! ## What holds in every run -/

structure Invariant (cfg : SnapshotConfig) (n : SnapshotNode) : Prop where
  contexts_le : ∀ c ∈ n.contexts, c ≤ n.applied
  stored_le : ∀ c ∈ n.stored, c ≤ n.snapshotIndex
  committed_le : ∀ c ∈ n.committed, c ≤ n.snapshotIndex
  checked_le : ∀ c ∈ n.checked, c ≤ n.snapshotIndex
  stored_nodup : n.stored.Nodup
  requests_le : ∀ r ∈ n.purgeRequests, r ≤ n.snapshotIndex
  inflight_eq : n.inflight = if cfg.counted then (n.transfers.length : Int) else 0
  announced : n.snapshotIndex = 0 ∨ n.snapshotIndex ∈ n.installed ∨ n.snapshotIndex ∈ n.stored
  own : ∀ c ∈ n.installed, c ∉ n.received → c ∉ n.stored ∧ c ≤ n.snapshotIndex
  kept : ∀ c ∈ n.received, n.snapshotIndex ≤ c → c ∈ n.installed

theorem invariant_boot (cfg : SnapshotConfig) (index ahead length : Nat) (installed : List Nat) :
    (boot index ahead length installed).Invariant cfg where
  contexts_le := by simp [boot]
  stored_le := by simp [boot]
  committed_le := by simp [boot]
  checked_le := by simp [boot]
  stored_nodup := nodup_nil
  requests_le := by simp [boot]
  inflight_eq := by simp [boot]
  announced := by
    by_cases h : index = 0
    · exact .inl h
    · exact .inr (.inl (by simp [boot, h]))
  own _ hc hnot := absurd hc hnot
  kept _ hc _ := hc

variable {c : Nat}

/-- Only files below the request are removed, so a file at the snapshot of the entry storage or
above stays. -/
theorem Invariant.mem_installed_purge (hI : n.Invariant cfg) (hc : c ∈ n.installed)
    (hle : n.snapshotIndex ≤ c) : c ∈ (n.next cfg .purge).installed := by
  refine mem_filter.mpr ⟨hc, ?_⟩
  have hrequest : n.purgeRequests.headD 0 ≤ n.snapshotIndex := by
    cases hreq : n.purgeRequests with
    | nil => exact Nat.zero_le _
    | cons r rest => exact hI.requests_le r (by simp [hreq])
  simp only [purged, mem_filter, decide_eq_true_eq, not_and]
  omega

theorem invariant_exec (hI : n.Invariant cfg) (h : n.exec cfg i = .ok n') : n'.Invariant cfg := by
  obtain ⟨henabled, hcrash, rfl⟩ := exec_eq_ok h
  cases i with
  | apply index =>
    have hle : n.applied ≤ index := henabled.2
    exact { hI with contexts_le := fun c hc => (hI.contexts_le c hc).trans hle }
  | restore index =>
    simp only [crash, ite_some_none_eq_none, not_or, not_le] at hcrash
    exact { hI with contexts_le := fun c hc => (hI.contexts_le c hc).trans hcrash.1.le }
  | trigger manual =>
    exact { hI with contexts_le := forall_mem_cons.mpr ⟨le_rfl, hI.contexts_le⟩ }
  | createSnapshot index =>
    simp only [crash, ite_some_none_eq_none, not_or, not_le] at hcrash
    have hlt := hcrash.1
    exact { hI with
      contexts_le := fun c hc => hI.contexts_le c (mem_of_mem_erase hc)
      stored_le := forall_mem_cons.mpr ⟨le_rfl, fun c hc => (hI.stored_le c hc).trans hlt.le⟩
      committed_le := fun c hc => (hI.committed_le c hc).trans hlt.le
      checked_le := fun c hc => (hI.checked_le c hc).trans hlt.le
      stored_nodup := by
        refine nodup_cons.mpr ⟨?_, hI.stored_nodup⟩
        intro hc
        exact absurd (hI.stored_le index hc) (by omega)
      requests_le := fun r hr => (hI.requests_le r hr).trans hlt.le
      announced := .inr (.inr mem_cons_self)
      own := by
        intro c hc hnot
        obtain ⟨hstored, hle⟩ := hI.own c hc hnot
        exact ⟨not_mem_cons_of_ne_of_not_mem (by omega) hstored, hle.trans hlt.le⟩
      kept := fun c hc hle => hI.kept c hc (hlt.le.trans hle) }
  | commit index =>
    have hstored : index ∈ n.stored := henabled
    exact { hI with
      stored_le := fun c hc => hI.stored_le c (mem_of_mem_erase hc)
      committed_le := forall_mem_cons.mpr ⟨hI.stored_le index hstored, hI.committed_le⟩
      stored_nodup := hI.stored_nodup.erase index
      announced := by
        obtain hzero | hinstalled | hmem := hI.announced
        · exact .inl hzero
        · exact .inr (.inl (mem_cons_of_mem _ hinstalled))
        · by_cases heq : n.snapshotIndex = index
          · exact .inr (.inl (mem_cons.mpr (.inl heq)))
          · exact .inr (.inr ((mem_erase_of_ne heq).mpr hmem))
      own := by
        refine forall_mem_cons.mpr ⟨fun _ => ?_, fun c hc hnot => ?_⟩
        · exact ⟨hI.stored_nodup.not_mem_erase, hI.stored_le index hstored⟩
        · exact (hI.own c hc hnot).imp_left (mt mem_of_mem_erase)
      kept := fun c hc hle => mem_cons_of_mem _ (hI.kept c hc hle) }
  | check index =>
    have hcommitted : index ∈ n.committed := henabled
    refine { hI with
      committed_le := fun c hc => hI.committed_le c (mem_of_mem_erase hc)
      checked_le := ?_ }
    simp only [next]
    split
    · exact hI.checked_le
    · exact forall_mem_cons.mpr ⟨hI.committed_le index hcommitted, hI.checked_le⟩
  | compact index =>
    have hchecked : index ∈ n.checked := henabled
    exact { hI with
      checked_le := fun c hc => hI.checked_le c (mem_of_mem_erase hc)
      requests_le := forall_mem_append.mpr
        ⟨hI.requests_le, forall_mem_singleton.mpr (hI.checked_le index hchecked)⟩ }
  | append lastIndex | snapshot => exact { hI with }
  | receive index =>
    exact { hI with
      announced := hI.announced.imp_right (Or.imp_left (mem_cons_of_mem _))
      own := by
        intro c hc hnot
        obtain ⟨hne, hnot⟩ := not_or.mp (mt mem_cons.mpr hnot)
        exact hI.own c ((mem_cons.mp hc).resolve_left hne) hnot
      kept := forall_mem_cons.mpr
        ⟨fun _ => mem_cons_self, fun c hc hle => mem_cons_of_mem _ (hI.kept c hc hle)⟩ }
  | applySnapshot index =>
    have hinstalled : index ∈ n.installed := henabled
    simp only [crash, ite_some_none_eq_none, not_le] at hcrash
    exact { hI with
      stored_le := fun c hc => (hI.stored_le c hc).trans hcrash.le
      committed_le := fun c hc => (hI.committed_le c hc).trans hcrash.le
      checked_le := fun c hc => (hI.checked_le c hc).trans hcrash.le
      requests_le := forall_mem_append.mpr
        ⟨fun r hr => (hI.requests_le r hr).trans hcrash.le, forall_mem_singleton.mpr le_rfl⟩
      announced := .inr (.inl hinstalled)
      own := fun c hc hnot => (hI.own c hc hnot).imp_right (fun hle => hle.trans hcrash.le)
      kept := fun c hc hle => hI.kept c hc (hcrash.le.trans hle) }
  | purge =>
    exact { hI with
      requests_le := fun r hr => hI.requests_le r (mem_of_mem_tail hr)
      announced :=
        hI.announced.imp_right (Or.imp_left (fun hc => hI.mem_installed_purge hc le_rfl))
      own := fun c hc hnot => hI.own c (mem_filter.mp hc).1 hnot
      kept := fun c hc hle => hI.mem_installed_purge (hI.kept c hc hle) hle }
  | send index =>
    refine { hI with inflight_eq := ?_ }
    have hcount := hI.inflight_eq
    simp only [next, length_cons]
    split at hcount <;> simp_all
  | report index =>
    have hmem : index ∈ n.transfers := henabled
    refine { hI with inflight_eq := ?_ }
    have hcount := hI.inflight_eq
    have hlength := length_erase_add_one hmem
    simp only [next]
    split at hcount
    next hcounted =>
      simp only [hcounted, if_true]
      omega
    next hcounted => simp [hcounted, hcount]

/-! ## Announced snapshots -/

/-- Every snapshot that the raft library has got from `Snapshot()` can be opened. -/
def Openable (n : SnapshotNode) : Prop := ∀ c ∈ n.messages, c ∈ n.installed

/-- `Snapshot()` is not called between `CreateSnapshot` and `Commit` of a snapshot (unless the same
one has come from the leader), and the purger does not remove a snapshot that is about to be
sent. -/
def Opened (cfg : SnapshotConfig) (n : SnapshotNode) : SnapshotInput → Prop
  | .snapshot => n.snapshotIndex ∈ n.stored → n.snapshotIndex ∈ n.received
  | .purge => ∀ c ∈ n.messages, c ∉ n.purged cfg (n.purgeRequests.headD 0)
  | _ => True

instance (cfg : SnapshotConfig) (n : SnapshotNode) (i : SnapshotInput) :
    Decidable (n.Opened cfg i) := by
  cases i <;> unfold Opened <;> infer_instance

theorem Invariant.snapshotIndex_installed_iff (hI : n.Invariant cfg) (hne : n.snapshotIndex ≠ 0) :
    n.snapshotIndex ∈ n.installed ↔
      (n.snapshotIndex ∈ n.stored → n.snapshotIndex ∈ n.received) := by
  constructor
  · intro hinstalled hstored
    by_contra hnot
    exact (hI.own _ hinstalled hnot).1 hstored
  · intro h
    obtain hzero | hinstalled | hstored := hI.announced
    · exact absurd hzero hne
    · exact hinstalled
    · exact hI.kept _ (h hstored) le_rfl

theorem openable_exec_iff (hI : n.Invariant cfg) (hopen : n.Openable) (h : n.exec cfg i = .ok n') :
    n'.Openable ↔ n.Opened cfg i := by
  obtain ⟨henabled, hcrash, rfl⟩ := exec_eq_ok h
  cases i with
  | snapshot =>
    have hne : n.snapshotIndex ≠ 0 := henabled
    simp only [Opened, ← hI.snapshotIndex_installed_iff hne, Openable, next, forall_mem_cons]
    exact and_iff_left hopen
  | purge =>
    simp only [Openable, next, Opened, mem_filter, decide_not, Bool.not_eq_true',
      decide_eq_false_iff_not]
    exact forall₂_congr fun c hc => and_iff_right (hopen c hc)
  | commit index | receive index =>
    exact iff_of_true (fun c hc => mem_cons_of_mem _ (hopen c hc)) trivial
  | send index =>
    exact iff_of_true (fun c hc => hopen c (mem_of_mem_erase hc)) trivial
  | apply _ | restore _ | trigger _ | createSnapshot _ | check _ | compact _ | append _
  | applySnapshot _ | report _ => exact iff_of_true hopen trivial

theorem Openable.send_ne_panic (hopen : n.Openable) (index : Nat) :
    n.exec cfg (.send index) ≠ .error .sendPanic := by
  intro h
  unfold exec at h
  split at h
  next henabled =>
    have hmem : index ∈ n.installed := hopen index henabled
    simp [crash, hmem] at h
  · cases h

/-- A message of a run without these overlaps can always be sent. -/
theorem announced_installed_iff (cfg : SnapshotConfig) (index ahead length : Nat)
    (installed : List Nat) (is : List SnapshotInput) (n : SnapshotNode)
    (h : run (exec cfg) (boot index ahead length installed) is = .ok n) :
    (∀ pre s, pre <+: is → run (exec cfg) (boot index ahead length installed) pre = .ok s →
      (∀ c ∈ s.messages, c ∈ s.installed) ∧ ∀ c, s.exec cfg (.send c) ≠ .error .sendPanic) ↔
    Throughout (exec cfg) (Opened cfg) (boot index ahead length installed) is := by
  rw [← forall_reached_iff_throughout (I := Invariant cfg) (J := Openable) invariant_exec
    openable_exec_iff (invariant_boot cfg index ahead length installed) (by simp [Openable, boot])
      h]
  constructor
  · intro hall pre s hfront hrun
    exact (hall pre s hfront hrun).1
  · intro hall pre s hfront hrun
    have hopen := hall pre s hfront hrun
    exact ⟨hopen, hopen.send_ne_panic⟩

/-- Between `CreateSnapshot` and `Commit` the snapshot is announced, and sending it panics. -/
theorem announced_before_installed :
    ∃ n, run (exec ⟨true, true, 10, 2⟩) (boot 0 0 5 [])
        [.apply 5, .trigger true, .createSnapshot 5, .snapshot] = .ok n ∧
      5 ∈ n.messages ∧ 5 ∉ n.installed ∧
      n.exec ⟨true, true, 10, 2⟩ (.send 5) = .error .sendPanic := by
  refine ⟨_, rfl, ?_⟩
  decide +kernel

theorem announced_after_installed :
    ∃ n, run (exec ⟨true, true, 10, 2⟩) (boot 0 0 5 [])
        [.apply 5, .trigger true, .createSnapshot 5, .commit 5, .snapshot, .check 5, .compact 5,
          .purge, .send 5] = .ok n ∧
      ∀ pre s, pre <+: [.apply 5, .trigger true, .createSnapshot 5, .commit 5, .snapshot, .check 5,
          .compact 5, .purge, .send 5] →
        run (exec ⟨true, true, 10, 2⟩) (boot 0 0 5 []) pre = .ok s →
        (∀ c ∈ s.messages, c ∈ s.installed) ∧
          ∀ c, s.exec ⟨true, true, 10, 2⟩ (.send c) ≠ .error .sendPanic := by
  refine (exists_eq_ok (by decide +kernel)).imp fun n hn => ⟨hn, ?_⟩
  exact (announced_installed_iff _ 0 0 5 [] _ n hn).mpr (by decide +kernel)

/-! ## Compaction and transfers -/

/-- Wherever a snapshot is about to compact the log no transfer is running. -/
def CompactsAlone (cfg : SnapshotConfig) (n : SnapshotNode) : Prop :=
  ∀ c, n.Enabled cfg (.compact c) → n.transfers = []

/-- A transfer does not start between the check and the compaction, and where transfers are not
counted none is running at the check. -/
def Alone (cfg : SnapshotConfig) (n : SnapshotNode) : SnapshotInput → Prop
  | .send _ => n.checked = []
  | .check _ => cfg.counted = true ∨ n.transfers = []
  | _ => True

instance (cfg : SnapshotConfig) (n : SnapshotNode) (i : SnapshotInput) :
    Decidable (n.Alone cfg i) := by
  cases i <;> unfold Alone <;> infer_instance

theorem compactsAlone_iff : n.CompactsAlone cfg ↔ (n.checked ≠ [] → n.transfers = []) := by
  constructor
  · intro h hne
    obtain ⟨c, hc⟩ := exists_mem_of_ne_nil _ hne
    exact h c hc
  · intro h c hc
    exact h (ne_nil_of_mem hc)

theorem compactsAlone_exec_iff (hI : n.Invariant cfg) (halone : n.CompactsAlone cfg)
    (h : n.exec cfg i = .ok n') : n'.CompactsAlone cfg ↔ n.Alone cfg i := by
  obtain ⟨henabled, hcrash, rfl⟩ := exec_eq_ok h
  cases i with
  | send index =>
    simp only [compactsAlone_iff, next, Alone, reduceCtorEq, imp_false, not_not]
  | check index =>
    have hcount := hI.inflight_eq
    by_cases hinflight : 0 < n.inflight
    · -- only a counted transfer makes the counter positive, and the compaction is skipped
      have hcounted : cfg.counted = true := by
        by_contra hnot
        rw [if_neg hnot] at hcount
        omega
      refine iff_of_true ?_ (.inl hcounted)
      simpa [compactsAlone_iff, next, if_pos hinflight] using compactsAlone_iff.mp halone
    · have hnext : (n.next cfg (.check index)).CompactsAlone cfg ↔ n.transfers = [] := by
        simp [compactsAlone_iff, next, if_neg hinflight]
      rw [hnext]
      refine ⟨.inr, ?_⟩
      rintro (hcounted | hnone)
      · rw [if_pos hcounted] at hcount
        exact eq_nil_of_length_eq_zero (by omega)
      · exact hnone
  | compact index =>
    refine iff_of_true ?_ trivial
    intro c hc
    exact halone c (mem_of_mem_erase hc)
  | report index =>
    refine iff_of_true ?_ trivial
    intro c hc
    simp only [next, halone c hc, erase_nil]
  | apply _ | restore _ | trigger _ | createSnapshot _ | commit _ | append _ | receive _
  | applySnapshot _ | purge | snapshot => exact iff_of_true halone trivial

theorem compacts_alone_iff (cfg : SnapshotConfig) (index ahead length : Nat) (installed : List Nat)
    (is : List SnapshotInput) (n : SnapshotNode)
    (h : run (exec cfg) (boot index ahead length installed) is = .ok n) :
    (∀ pre s, pre <+: is → run (exec cfg) (boot index ahead length installed) pre = .ok s →
      ∀ c, s.Enabled cfg (.compact c) → s.transfers = []) ↔
    Throughout (exec cfg) (Alone cfg) (boot index ahead length installed) is :=
  forall_reached_iff_throughout (I := Invariant cfg) (J := CompactsAlone cfg) invariant_exec
    compactsAlone_exec_iff (invariant_boot cfg index ahead length installed)
    (fun _ hc => absurd hc not_mem_nil) h

/-- A transfer that starts behind the check, and, where transfers are not counted, one before it. -/
theorem compacted_under_transfer :
    (∃ n, run (exec ⟨true, true, 10, 2⟩) (boot 0 0 5 [])
        [.apply 5, .trigger true, .createSnapshot 5, .commit 5, .check 5, .snapshot, .send 5] =
          .ok n ∧
      n.transfers = [5] ∧ (n.exec ⟨true, true, 10, 2⟩ (.compact 5)).isOk) ∧
    ∃ n, run (exec ⟨true, false, 10, 2⟩) (boot 0 0 5 [])
        [.apply 5, .trigger true, .createSnapshot 5, .commit 5, .snapshot, .send 5, .check 5] =
          .ok n ∧
      n.transfers = [5] ∧ (n.exec ⟨true, false, 10, 2⟩ (.compact 5)).isOk := by
  refine ⟨⟨_, rfl, ?_⟩, _, rfl, ?_⟩
  all_goals decide +kernel

theorem transfer_keeps_log :
    ∃ n, run (exec ⟨true, true, 10, 2⟩) (boot 3 0 2 [])
        [.snapshot, .send 3, .apply 5, .trigger true, .createSnapshot 5, .commit 5, .check 5,
          .report 3] = .ok n ∧
      ∀ pre s, pre <+: [.snapshot, .send 3, .apply 5, .trigger true, .createSnapshot 5, .commit 5,
          .check 5, .report 3] →
        run (exec ⟨true, true, 10, 2⟩) (boot 3 0 2 []) pre = .ok s →
        ∀ c, s.Enabled ⟨true, true, 10, 2⟩ (.compact c) → s.transfers = [] := by
  refine (exists_eq_ok (by decide +kernel)).imp fun n hn => ⟨hn, ?_⟩
  exact (compacts_alone_iff _ 3 0 2 [] _ n hn).mpr (by decide +kernel)

/-- The run has reached a panic of `triggerSnapshot` or `processStateMachine`, or the fatal error of
`doSnapshot`. -/
def Crashed (r : Except SnapshotError SnapshotNode) : Prop := r = .error .panic ∨ r = .error .fatal

/-- The steps that finish running snapshots and transfers. -/
def Finishing : SnapshotInput → Prop
  | .createSnapshot _ | .commit _ | .check _ | .compact _ | .report _ => True
  | _ => False

def Crashes (cfg : SnapshotConfig) (n : SnapshotNode) : Prop :=
  ∃ more, (∀ i ∈ more, Finishing i) ∧ Crashed (run (exec cfg) n more)

/-- A snapshot is taken while no other is, at an index that is ahead of the entry storage's
snapshot, within its log and not installed; no snapshot of the leader is applied to the entry
storage while one is taken, and none of the same index is received. -/
def Undisturbed (n : SnapshotNode) : SnapshotInput → Prop
  | .trigger _ =>
    ¬ n.Busy ∧ n.snapshotIndex < n.applied ∧ n.applied ≤ n.lastIndex ∧ n.applied ∉ n.installed
  | .receive index => index ∉ n.contexts ∧ index ∉ n.stored
  | .applySnapshot index => n.snapshotIndex < index → ¬ n.Busy
  | _ => True

/-! ### Overlaps crash -/

theorem Crashes.attempt (hi : Finishing i) (henabled : n.Enabled cfg i)
    (hnext : n.crash i = none → (n.next cfg i).Crashes cfg) : n.Crashes cfg := by
  cases hcrash : n.crash i with
  | none =>
    obtain ⟨more, hmore, hcrashed⟩ := hnext hcrash
    refine ⟨i :: more, forall_mem_cons.mpr ⟨hi, hmore⟩, ?_⟩
    rwa [run_cons_ok _ (exec_of_not_crash henabled hcrash)]
  | some e =>
    refine ⟨[i], forall_mem_singleton.mpr hi, ?_⟩
    rw [run_cons_error _ (exec_of_crash henabled hcrash)]
    cases i <;> simp_all [crash, Finishing, Crashed]

theorem crashes_of_context (hc : c ∈ n.contexts) (hbad : c ≤ n.snapshotIndex ∨ n.lastIndex < c) :
    n.Crashes cfg := by
  refine Crashes.attempt (i := .createSnapshot c) trivial hc ?_
  intro hcrash
  simp [crash, hbad] at hcrash

theorem crashes_of_stored_installed (hc : c ∈ n.stored) (hinstalled : c ∈ n.installed) :
    n.Crashes cfg := by
  refine Crashes.attempt (i := .commit c) trivial hc ?_
  intro hcrash
  simp [crash, hinstalled] at hcrash

theorem crashes_of_context_installed (hc : c ∈ n.contexts) (hinstalled : c ∈ n.installed) :
    n.Crashes cfg := by
  refine Crashes.attempt (i := .createSnapshot c) trivial hc ?_
  intro _
  exact crashes_of_stored_installed mem_cons_self hinstalled

theorem crashes_of_checked (hc : c ∈ n.checked) (hle : c ≤ n.offset) : n.Crashes cfg := by
  refine Crashes.attempt (i := .compact c) trivial hc ?_
  intro hcrash
  simp [crash, hle] at hcrash

theorem crashes_of_committed (hc : c ∈ n.committed) (hle : c ≤ n.offset) (hidle : n.inflight = 0) :
    n.Crashes cfg := by
  refine Crashes.attempt (i := .check c) trivial hc ?_
  intro _
  refine crashes_of_checked (c := c) ?_ hle
  simp [next, hidle]

def announcedRunning (n : SnapshotNode) : List Nat := n.stored ++ n.committed ++ n.checked

theorem Invariant.announcedRunning_le (hI : n.Invariant cfg) (hc : c ∈ n.announcedRunning) :
    c ≤ n.snapshotIndex := by
  simp only [announcedRunning, List.mem_append, or_assoc] at hc
  obtain hc | hc | hc := hc
  · exact hI.stored_le c hc
  · exact hI.committed_le c hc
  · exact hI.checked_le c hc

theorem mem_running : c ∈ n.running ↔ c ∈ n.contexts ∨ c ∈ n.announcedRunning := by
  simp [running, announcedRunning]

theorem crashes_of_le_offset (hc : c ∈ n.announcedRunning) (hle : c ≤ n.offset)
    (hidle : n.inflight = 0) : n.Crashes cfg := by
  simp only [announcedRunning, List.mem_append, or_assoc] at hc
  obtain hc | hc | hc := hc
  · refine Crashes.attempt (i := .commit c) trivial hc ?_
    intro _
    exact crashes_of_committed mem_cons_self hle hidle
  · exact crashes_of_committed hc hle hidle
  · exact crashes_of_checked hc hle

theorem Crashes.of_drained (hI : n.Invariant cfg)
    (h : Crashes cfg { n with transfers := [], inflight := 0 }) : n.Crashes cfg := by
  generalize htransfers : n.transfers = ts
  induction ts generalizing n with
  | nil =>
    have hcount := hI.inflight_eq
    simp only [htransfers, length_nil, Int.ofNat_zero, ite_self] at hcount
    rwa [← htransfers, ← hcount] at h
  | cons t ts ih =>
    have hmem : t ∈ n.transfers := by simp [htransfers]
    refine Crashes.attempt (i := .report t) trivial hmem ?_
    intro hcrash
    have hI' := invariant_exec hI (exec_of_not_crash (i := .report t) hmem hcrash)
    refine ih hI' h ?_
    simp [next, htransfers]

theorem crashes_of_overtaken (hI : n.Invariant cfg) {d : Nat} (hc : c ∈ n.announcedRunning)
    (hd : d ∈ n.contexts) (hle : c ≤ d) : n.Crashes cfg := by
  refine Crashes.of_drained hI ?_
  refine Crashes.attempt (i := .createSnapshot d) trivial hd ?_
  intro _
  refine Crashes.attempt (i := .commit d) trivial mem_cons_self ?_
  intro _
  refine Crashes.attempt (i := .check d) trivial mem_cons_self ?_
  intro _
  refine Crashes.attempt (i := .compact d) trivial (by simp [next, Enabled]) ?_
  intro _
  refine crashes_of_le_offset (c := c) ?_ hle rfl
  simpa [announcedRunning, next] using hc

theorem crashes_trigger {manual : Bool} (hI : n.Invariant cfg)
    (henabled : n.Enabled cfg (.trigger manual)) (hbad : ¬ n.Undisturbed (.trigger manual)) :
    Crashed (n.exec cfg (.trigger manual)) ∨
      ∃ n', n.exec cfg (.trigger manual) = .ok n' ∧ n'.Crashes cfg := by
  by_cases hcrash : n.crash (.trigger manual) = none
  · refine .inr ⟨_, exec_of_not_crash henabled hcrash, ?_⟩
    have hI' := invariant_exec hI (exec_of_not_crash henabled hcrash)
    have hmem : n.applied ∈ (n.next cfg (.trigger manual)).contexts := mem_cons_self
    by_cases hbusy : n.Busy
    · obtain ⟨c, hc⟩ := exists_mem_of_ne_nil _ hbusy
      obtain hc | hc := mem_running.mp hc
      · -- the new one goes first, and `CreateSnapshot` refuses the older one
        have hle := hI.contexts_le c hc
        refine Crashes.attempt (i := .createSnapshot n.applied) trivial hmem ?_
        intro _
        refine crashes_of_context (c := c) ?_ (.inl hle)
        simpa [next] using hc
      · have hle := hI.announcedRunning_le hc
        by_cases hahead : n.applied ≤ n.snapshotIndex
        · exact crashes_of_context hmem (.inl hahead)
        · exact crashes_of_overtaken hI' hc hmem (by omega)
    · by_cases hinstalled : n.applied ∈ n.installed
      · exact crashes_of_context_installed hmem hinstalled
      · refine crashes_of_context hmem ?_
        by_contra hfits
        obtain ⟨hahead, hend⟩ := not_or.mp hfits
        exact hbad ⟨hbusy, not_le.mp hahead, not_lt.mp hend, hinstalled⟩
  · left
    have hpanic : n.crash (.trigger manual) = some .panic := by
      simp only [crash] at hcrash ⊢
      split at hcrash
      next h => simp [h]
      · exact absurd rfl hcrash
    exact .inl (exec_of_crash henabled hpanic)

theorem crashes_receive {index : Nat} (hbad : ¬ n.Undisturbed (.receive index)) :
    (n.next cfg (.receive index)).Crashes cfg := by
  have hinstalled : index ∈ (n.next cfg (.receive index)).installed := mem_cons_self
  simp only [Undisturbed, not_and_or, not_not] at hbad
  obtain hc | hc := hbad
  · exact crashes_of_context_installed hc hinstalled
  · exact crashes_of_stored_installed hc hinstalled

theorem crashes_applySnapshot {index : Nat} (hI : n.Invariant cfg)
    (h : n.exec cfg (.applySnapshot index) = .ok n') (hbusy : n.Busy) : n'.Crashes cfg := by
  have hI' := invariant_exec hI h
  obtain ⟨-, hcrash, rfl⟩ := exec_eq_ok h
  simp only [crash, ite_some_none_eq_none, not_le] at hcrash
  obtain ⟨c, hc⟩ := exists_mem_of_ne_nil _ hbusy
  obtain hc | hc := mem_running.mp hc
  · -- the log now starts and ends at the index
    exact crashes_of_context (c := c) hc (le_or_gt c index)
  · have hle := hI.announcedRunning_le hc
    exact Crashes.of_drained hI' (crashes_of_le_offset hc (hle.trans hcrash.le) rfl)

theorem crashes_of_disturbed (hI : n.Invariant cfg) (henabled : n.Enabled cfg i)
    (hbad : ¬ n.Undisturbed i) :
    Crashed (n.exec cfg i) ∨ ∃ n', n.exec cfg i = .ok n' ∧ n'.Crashes cfg := by
  cases i with
  | trigger manual => exact crashes_trigger hI henabled hbad
  | receive index =>
    exact .inr ⟨_, exec_of_not_crash henabled rfl, crashes_receive hbad⟩
  | applySnapshot index =>
    simp only [Undisturbed, Classical.not_imp, not_not] at hbad
    obtain ⟨hlt, hbusy⟩ := hbad
    have hok := exec_of_not_crash (i := .applySnapshot index) henabled (if_neg (by omega))
    exact .inr ⟨_, hok, crashes_applySnapshot hI hok hbusy⟩
  | apply _ | restore _ | createSnapshot _ | commit _ | check _ | compact _ | append _ | purge
  | snapshot | send _ | report _ => exact absurd trivial hbad

/-! ### Undisturbed snapshots do not -/

/-- At most one snapshot is being taken. It lies within the log, until `CreateSnapshot` it is ahead
of the entry storage's snapshot, and until `Commit` it is not installed. -/
structure Solo (n : SnapshotNode) : Prop where
  one : n.running.length ≤ 1
  offset_le : n.offset ≤ n.snapshotIndex
  fits : ∀ c ∈ n.running, n.offset < c ∧ c ≤ n.lastIndex ∧ c ≤ n.applied
  ahead : ∀ c ∈ n.contexts, n.snapshotIndex < c
  fresh : ∀ c ∈ n.contexts ++ n.stored, c ∉ n.installed

theorem solo_boot (index ahead length : Nat) (installed : List Nat) :
    (boot index ahead length installed).Solo where
  one := Nat.zero_le 1
  offset_le := le_rfl
  fits := by simp [boot, running]
  ahead := by simp [boot]
  fresh := by simp [boot]

theorem Solo.of_not_busy (hbusy : ¬ n.Busy) (hoffset : n.offset ≤ n.snapshotIndex) : n.Solo := by
  have hnil : n.running = [] := not_not.mp hbusy
  have hempty := hnil
  simp only [running, append_eq_nil_iff] at hempty
  obtain ⟨⟨⟨hcontexts, hstored⟩, -⟩, -⟩ := hempty
  exact {
    one := by simp [hnil]
    offset_le := hoffset
    fits := by simp [hnil]
    ahead := by simp [hcontexts]
    fresh := by simp [hcontexts, hstored] }

theorem Solo.moved (hsolo : n.Solo) (hsub : ∀ c ∈ n'.running, c ∈ n.running)
    (hlength : n'.running.length ≤ n.running.length) (hcontexts : n'.contexts = [])
    (hfresh : ∀ c ∈ n'.stored, c ∉ n'.installed) (hoffset : n'.offset = n.offset)
    (hlast : n'.lastIndex = n.lastIndex) (happlied : n'.applied = n.applied)
    (hsnapshot : n.snapshotIndex ≤ n'.snapshotIndex) : n'.Solo where
  one := hlength.trans hsolo.one
  offset_le := by
    rw [hoffset]
    exact hsolo.offset_le.trans hsnapshot
  fits := by
    intro c hc
    rw [hoffset, hlast, happlied]
    exact hsolo.fits c (hsub c hc)
  ahead := by simp [hcontexts]
  fresh := by simpa [hcontexts] using hfresh

section

variable (hI : n.Invariant cfg)
include hI

theorem solo_exec (hsolo : n.Solo) (hcalm : n.Undisturbed i) (h : n.exec cfg i = .ok n') :
    n'.Solo := by
  obtain ⟨henabled, hcrash, rfl⟩ := exec_eq_ok h
  have hone := hsolo.one
  simp only [running, length_append] at hone
  cases i with
  | apply index =>
    have hle : n.applied ≤ index := henabled.2
    exact { hsolo with
      fits := fun c hc => (hsolo.fits c hc).imp_right (fun h => ⟨h.1, h.2.trans hle⟩) }
  | restore index =>
    simp only [crash, ite_some_none_eq_none, not_or, not_le] at hcrash
    exact { hsolo with
      fits := fun c hc => (hsolo.fits c hc).imp_right (fun h => ⟨h.1, h.2.trans hcrash.1.le⟩) }
  | trigger manual =>
    obtain ⟨hbusy, hahead, hend, hfresh⟩ := hcalm
    have hnil : n.running = [] := not_not.mp hbusy
    simp only [running, append_eq_nil_iff] at hnil
    obtain ⟨⟨⟨hcontexts, hstored⟩, hcommitted⟩, hchecked⟩ := hnil
    have hoffset := hsolo.offset_le
    exact {
      one := by simp [next, running, hcontexts, hstored, hcommitted, hchecked]
      offset_le := hoffset
      fits := by
        simp only [next, running, hcontexts, hstored, hcommitted, hchecked, append_nil,
          mem_singleton, forall_eq]
        omega
      ahead := by simpa [next, hcontexts] using hahead
      fresh := by simpa [next, hcontexts, hstored] using hfresh }
  | createSnapshot index =>
    have hmem : index ∈ n.contexts := henabled
    have herase := length_erase_add_one hmem
    have hnone : n.contexts.erase index = [] := eq_nil_of_length_eq_zero (by omega)
    have hstored : n.stored = [] := eq_nil_of_length_eq_zero (by omega)
    refine hsolo.moved ?_ ?_ hnone ?_ rfl rfl rfl (hsolo.ahead index hmem).le
    · intro c hc
      simp only [running, next, hnone, hstored, nil_append, List.mem_append,
        mem_singleton] at hc
      obtain (rfl | hc) | hc := hc <;> simp [running, *]
    · simp only [running, next, length_append, length_cons]
      omega
    · simpa [next, hstored] using hsolo.fresh index (by simp [hmem])
  | commit index =>
    have hmem : index ∈ n.stored := henabled
    have herase := length_erase_add_one hmem
    have hnone : n.stored.erase index = [] := eq_nil_of_length_eq_zero (by omega)
    have hcontexts : n.contexts = [] := eq_nil_of_length_eq_zero (by omega)
    refine hsolo.moved ?_ ?_ hcontexts ?_ rfl rfl rfl le_rfl
    · intro c hc
      simp only [running, next, hnone, hcontexts, nil_append, List.mem_append,
        mem_cons] at hc
      obtain (rfl | hc) | hc := hc <;> simp [running, *]
    · simp only [running, next, length_append, length_cons]
      omega
    · simp [next, hnone]
  | check index =>
    have hmem : index ∈ n.committed := henabled
    have herase := length_erase_add_one hmem
    have hnone : n.committed.erase index = [] := eq_nil_of_length_eq_zero (by omega)
    have hcontexts : n.contexts = [] := eq_nil_of_length_eq_zero (by omega)
    have hstored : n.stored = [] := eq_nil_of_length_eq_zero (by omega)
    refine hsolo.moved ?_ ?_ hcontexts (by simp [next, hstored]) rfl rfl rfl le_rfl
    · intro c hc
      simp only [running, next, hnone, hcontexts, hstored, nil_append] at hc
      split at hc
      · simp [running, hc]
      · obtain rfl | hc := mem_cons.mp hc <;> simp [running, *]
    · simp only [running, next, length_append, hnone, length_nil]
      split
      · omega
      · simp only [length_cons]
        omega
  | compact index =>
    have hmem : index ∈ n.checked := henabled
    have herase := length_erase_add_one hmem
    refine Solo.of_not_busy (not_not.mpr ?_) (hI.checked_le index hmem)
    refine eq_nil_of_length_eq_zero ?_
    simp only [running, next, length_append]
    omega
  | append lastIndex =>
    have hle : n.applied ≤ lastIndex := henabled
    exact { hsolo with
      fits := fun c hc => (hsolo.fits c hc).imp_right (fun h => ⟨h.2.trans hle, h.2⟩) }
  | receive index =>
    exact { hsolo with
      fresh := by
        refine fun c hc => not_mem_cons_of_ne_of_not_mem ?_ (hsolo.fresh c hc)
        rintro rfl
        exact (List.mem_append.mp hc).elim hcalm.1 hcalm.2 }
  | applySnapshot index =>
    simp only [crash, ite_some_none_eq_none, not_le] at hcrash
    exact Solo.of_not_busy (hcalm hcrash) le_rfl
  | purge =>
    exact { hsolo with fresh := fun c hc hmem => hsolo.fresh c hc (mem_filter.mp hmem).1 }
  | snapshot | send _ | report _ => exact { hsolo with }

theorem Invariant.inflight_nonneg : 0 ≤ n.inflight := by
  have hcount := hI.inflight_eq
  split at hcount <;> omega

theorem not_crashed_exec (hsolo : n.Solo) (hcalm : n.Enabled cfg i → n.Undisturbed i) :
    ¬ Crashed (n.exec cfg i) := by
  by_cases henabled : n.Enabled cfg i
  · have hcalm := hcalm henabled
    simp only [exec, if_pos henabled]
    cases i with
    | trigger manual =>
      have hnil : n.running = [] := not_not.mp hcalm.1
      simp only [running, append_eq_nil_iff] at hnil
      simp [crash, hnil, Crashed]
    | createSnapshot index =>
      have hahead := hsolo.ahead index henabled
      have hend := (hsolo.fits index (mem_running.mpr (.inl henabled))).2.1
      simp [crash, not_le.mpr hahead, not_lt.mpr hend, Crashed]
    | commit index =>
      have hfresh := hsolo.fresh index (mem_append_right _ henabled)
      simp [crash, hfresh, Crashed]
    | check index => simp [crash, not_lt.mpr hI.inflight_nonneg, Crashed]
    | compact index =>
      have hmem : index ∈ n.checked := henabled
      obtain ⟨hoffset, hend, -⟩ := hsolo.fits index (by simp [running, hmem])
      simp [crash, not_le.mpr hoffset, not_lt.mpr hend, Crashed]
    | restore index | applySnapshot index | send index =>
      simp only [crash]
      split_ifs <;> simp [Crashed]
    | apply _ | append _ | receive _ | purge | snapshot | report _ => simp [crash, Crashed]
  · simp [exec, if_neg henabled, Crashed]

theorem not_crashed_run {is : List SnapshotInput} (hsolo : n.Solo)
    (hcalm : Throughout (exec cfg) (fun n i => n.Enabled cfg i → n.Undisturbed i) n is) :
    ¬ Crashed (run (exec cfg) n is) := by
  induction is generalizing n with
  | nil => simp [run, Crashed]
  | cons i is ih =>
    cases h : n.exec cfg i with
    | error e =>
      rw [run_cons_error _ h, ← h]
      exact not_crashed_exec hI hsolo hcalm.1
    | ok n' =>
      have hundisturbed := hcalm.1 (exec_eq_ok h).1
      rw [run_cons_ok _ h]
      exact ih (invariant_exec hI h) (solo_exec hI hsolo hundisturbed h) (hcalm.2 n' h)

end

/-- Whatever has run, no order in which the running snapshots go on crashes the node, exactly when
the steps of the run were undisturbed. -/
theorem never_crashes_iff (cfg : SnapshotConfig) (index ahead length : Nat) (installed : List Nat)
    (is : List SnapshotInput) :
    (∀ pre more, pre <+: is → (∀ i ∈ more, Finishing i) →
      ¬ Crashed (run (exec cfg) (boot index ahead length installed) (pre ++ more))) ↔
    Throughout (exec cfg) (fun n i => n.Enabled cfg i → n.Undisturbed i)
      (boot index ahead length installed) is := by
  have hI := invariant_boot cfg index ahead length installed
  constructor
  · intro hsafe
    rw [throughout_iff_forall]
    intro pre i s hfront hrun henabled
    by_contra hbad
    have hIs := run_induction (I := Invariant cfg) invariant_exec hI hrun
    obtain hcrashed | ⟨s', hs', more, hmore, hcrashed⟩ := crashes_of_disturbed hIs henabled hbad
    · refine hsafe (pre ++ [i]) [] hfront (by simp) ?_
      rwa [append_nil, run_append_of_ok _ hrun, run_singleton]
    · refine hsafe (pre ++ [i]) more hfront hmore ?_
      rwa [append_assoc, run_append_of_ok _ hrun, singleton_append, run_cons_ok _ hs']
  · intro hcalm pre more hfront hmore
    refine not_crashed_run hI (solo_boot index ahead length installed) ?_
    obtain ⟨rest, rfl⟩ := hfront
    refine throughout_append.mpr ⟨(throughout_append.mp hcalm).1, fun s _ => ?_⟩
    refine throughout_of_forall (fun i hi _ _ => ?_) s
    have hfinish := hmore i hi
    cases i <;> trivial

/-- Two manual snapshots without an entry between them. -/
theorem second_manual_snapshot_crashes :
    Crashed (run (exec ⟨false, true, 10, 2⟩) (boot 0 0 5 [])
      ([.apply 5, .trigger true, .createSnapshot 5, .commit 5, .check 5, .compact 5,
        .trigger true] ++
        [.createSnapshot 5])) ∧
    ∀ i ∈ [SnapshotInput.createSnapshot 5], Finishing i := by
  refine ⟨.inl (by decide +kernel), ?_⟩
  simp [Finishing]

end SnapshotNode

end Babuza.Raft
