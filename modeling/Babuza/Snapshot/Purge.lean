import Babuza.Lib.Run
import Mathlib.Data.Finset.Sort

/-!
# Purging snapshots

`Purge` asks a purger to remove the snapshots that are too many (`pkg/snapshot/snapshotor.go`). The
purger of a single group works with the manager that asked. The purger of a multi-raft store builds
a new manager for the group in the request (`pkg/snapshot/multiraft_snapshotor.go`), which has not
scanned its folder and so knows of no snapshot; and the request has no group in it. Nothing is ever
removed there (`purge_iff`).
-/

namespace Babuza.Snapshot

open List

/-- `RemoveDir` of a folder that is not there, and the panic of an index out of range. -/
inductive PurgeError
  | notExist
  | indexOutOfRange
  deriving DecidableEq

/-- The snapshots of a group: the indices in the manager's `installedSnapshot`, and the folders. -/
structure GroupSnapshots where
  installed : Finset Nat
  folders : Finset Nat
  deriving DecidableEq

/-- The loop of `purgeSnapshot` over the sorted indices. The bound has been converted to `int`. -/
def purgeLoop (maxSnapFiles : Int) (index : Nat) :
    List Nat → GroupSnapshots → Except PurgeError GroupSnapshots
  | [], s => if maxSnapFiles < 0 then .error .indexOutOfRange else .ok s
  | i :: rest, s =>
    if maxSnapFiles < (i :: rest).length then
      if i < index then
        if i ∈ s.folders then
          purgeLoop maxSnapFiles index rest ⟨s.installed.erase i, s.folders.erase i⟩
        else .error .notExist
      else purgeLoop maxSnapFiles index rest s
    else .ok s

def purgeSnapshot (maxSnapFiles : UInt64) (index : Nat) (s : GroupSnapshots) :
    Except PurgeError GroupSnapshots :=
  purgeLoop maxSnapFiles.toInt64.toInt index (s.installed.sort (· ≤ ·)) s

structure PurgeRequest where
  groupID : Nat
  index : Nat
  deriving DecidableEq

def purge (index : Nat) : PurgeRequest := ⟨0, index⟩

inductive ManagerKind
  | single
  | multiRaft
  deriving DecidableEq

/-- The purger takes a request that the manager of group `g` has sent. A store has one purger for
all its groups. -/
def handlePurge (kind : ManagerKind) (maxSnapFiles : UInt64) (g : Nat) (req : PurgeRequest)
    (s : Nat → GroupSnapshots) : Except PurgeError (Nat → GroupSnapshots) :=
  match kind with
  | .single =>
    (purgeSnapshot maxSnapFiles req.index (s g)).map (Function.update s g)
  | .multiRaft =>
    -- the new manager is dropped, what is left is its effect on the folders
    (purgeSnapshot maxSnapFiles req.index ⟨∅, (s req.groupID).folders⟩).map fun fresh =>
      Function.update s req.groupID ⟨(s req.groupID).installed, fresh.folders⟩

/-- The snapshots from an index on, and the `max` largest ones. -/
def kept (max index : Nat) (installed : Finset Nat) : Finset Nat :=
  installed.filter fun i => index ≤ i ∨ (installed.filter (i < ·)).card < max

/-- The snapshots of a group after a purge; folders that hold no installed snapshot stay. -/
def GroupSnapshots.purged (max index : Nat) (s : GroupSnapshots) : GroupSnapshots :=
  ⟨kept max index s.installed, s.folders \ (s.installed \ kept max index s.installed)⟩

/-- Of sorted indices, those below `index` that are not among the `max` largest. -/
def excess (max index : Nat) (xs : List Nat) : List Nat :=
  xs.filter fun i => decide (i < index ∧ max ≤ (xs.filter (i < ·)).length)

variable {xs : List Nat} {index max : Nat}

theorem excess_of_length_le (h : xs.length ≤ max) : excess max index xs = [] := by
  refine filter_eq_nil_iff.mpr fun i hi => ?_
  have hlt : (xs.filter (i < ·)).length < xs.length :=
    length_filter_lt_length_iff_exists.mpr ⟨i, hi, by simp⟩
  simp only [decide_eq_true_eq, not_and, not_le]
  intro
  omega

theorem excess_cons {x : Nat} (hx : ∀ y ∈ xs, x < y) (hmax : max ≤ xs.length) :
    excess max index (x :: xs) =
      if x < index then x :: excess max index xs else excess max index xs := by
  have hhead : ((x :: xs).filter (x < ·)).length = xs.length := by
    rw [filter_cons_of_neg (by simp), filter_eq_self.mpr (by simpa using hx)]
  have htail : xs.filter (fun i => decide (i < index ∧ max ≤ ((x :: xs).filter (i < ·)).length)) =
      excess max index xs := by
    refine filter_congr fun i hi => ?_
    rw [filter_cons_of_neg (by simpa using (hx i hi).le)]
  rw [excess, filter_cons, htail, hhead]
  by_cases hlt : x < index
  · simp [hlt, hmax]
  · simp [hlt]

variable {s : GroupSnapshots}

theorem purgeLoop_eq (hsorted : xs.Pairwise (· < ·)) (hfolders : ∀ i ∈ xs, i ∈ s.folders) :
    purgeLoop max index xs s =
      .ok ⟨s.installed \ (excess max index xs).toFinset,
        s.folders \ (excess max index xs).toFinset⟩ := by
  induction xs generalizing s with
  | nil => simp [purgeLoop, excess]
  | cons x xs ih =>
    obtain ⟨hx, hsorted⟩ := pairwise_cons.mp hsorted
    have hrest : ∀ i ∈ xs, i ∈ s.folders := fun i hi => hfolders i (mem_cons_of_mem x hi)
    rw [purgeLoop]
    by_cases hlen : max < (x :: xs).length
    · rw [if_pos (by exact_mod_cast hlen), excess_cons hx (Nat.le_of_lt_succ hlen)]
      by_cases hlt : x < index
      · rw [if_pos hlt, if_pos (hfolders x mem_cons_self), if_pos hlt]
        rw [ih hsorted fun i hi => Finset.mem_erase.mpr ⟨(hx i hi).ne', hrest i hi⟩]
        simp only [toFinset_cons, Finset.sdiff_insert, Finset.erase_sdiff_comm]
      · rw [if_neg hlt, if_neg hlt]
        exact ih hsorted hrest
    · rw [if_neg (by exact_mod_cast hlen), excess_of_length_le (not_lt.mp hlen)]
      simp

theorem purgeLoop_of_neg {max : Int} (hmax : max < 0) :
    ∃ e, purgeLoop max index xs s = .error e := by
  induction xs generalizing s with
  | nil => exact ⟨.indexOutOfRange, if_pos hmax⟩
  | cons x xs ih =>
    rw [purgeLoop, if_pos (hmax.trans_le (Int.natCast_nonneg _))]
    split
    · split
      · exact ih
      · exact ⟨_, rfl⟩
    · exact ih

/-! ## The purger -/

variable {m : UInt64}

theorem toInt_of_lt (h : m.toNat < 2 ^ 63) : m.toInt64.toInt = m.toNat :=
  BitVec.toInt_eq_toNat_of_lt (x := m.toBitVec) (show 2 * m.toNat < 2 ^ 64 by omega)

theorem toFinset_excess (max index : Nat) (installed : Finset Nat) :
    (excess max index (installed.sort (· ≤ ·))).toFinset = installed \ kept max index
      installed := by
  have hrank : ∀ i, ((installed.sort (· ≤ ·)).filter (i < ·)).length =
      (installed.filter (i < ·)).card := by
    intro i
    rw [← toFinset_card_of_nodup ((installed.sort_nodup (· ≤ ·)).filter _), toFinset_filter,
      Finset.sort_toFinset]
    simp only [decide_eq_true_eq]
  ext i
  simp only [excess, hrank, mem_toFinset, mem_filter, Finset.mem_sort, decide_eq_true_eq,
    kept, Finset.mem_sdiff, Finset.mem_filter, not_and, not_or, not_le, not_lt]
  exact and_congr_right fun hi => ⟨fun h _ => h, fun h => h hi⟩

theorem purgeSnapshot_eq (hm : m.toNat < 2 ^ 63) (index : Nat)
    (hfolders : s.installed ⊆ s.folders) :
    purgeSnapshot m index s = .ok (s.purged m.toNat index) := by
  have hsub : kept m.toNat index s.installed ⊆ s.installed := Finset.filter_subset _ _
  rw [purgeSnapshot, toInt_of_lt hm, purgeLoop_eq s.installed.sortedLT_sort.pairwise
    fun i hi => hfolders ((Finset.mem_sort _).mp hi), toFinset_excess, Finset.sdiff_sdiff_eq_self
      hsub]
  rfl

theorem purgeSnapshot_of_le (hm : 2 ^ 63 ≤ m.toNat) (index : Nat) (s : GroupSnapshots) :
    ∃ e, purgeSnapshot m index s = .error e :=
  purgeLoop_of_neg (BitVec.toInt_neg_iff.mpr (show 2 ^ 64 ≤ 2 * m.toNat by omega))

theorem purgeSnapshot_empty (hm : m.toNat < 2 ^ 63) (index : Nat) (folders : Finset Nat) :
    purgeSnapshot m index ⟨∅, folders⟩ = .ok ⟨∅, folders⟩ := by
  rw [purgeSnapshot_eq hm index (Finset.empty_subset folders)]
  simp [GroupSnapshots.purged, kept]

theorem purged_eq_self_iff :
    s.purged max index = s ↔
      ∀ i ∈ s.installed, index ≤ i ∨ (s.installed.filter (i < ·)).card < max := by
  have hkept : kept max index s.installed = s.installed ↔
      ∀ i ∈ s.installed, index ≤ i ∨ (s.installed.filter (i < ·)).card < max :=
    Finset.filter_eq_self
  rw [← hkept]
  constructor
  · intro h
    exact congrArg GroupSnapshots.installed h
  · intro h
    rw [GroupSnapshots.purged, h, sdiff_self, Finset.bot_eq_empty, Finset.sdiff_empty]

/-- Once the purger has taken a request of group `g`, this group has the snapshots from the index of
the request on and the `maxSnapFiles` largest ones, in memory and as folders, and the other groups
are as before, exactly if the bound is a number as an `int` too and, in a multi-raft store, there
was nothing to remove. -/
theorem purge_iff (kind : ManagerKind) (maxSnapFiles : UInt64) (g index : Nat)
    {s : Nat → GroupSnapshots} (hfolders : ∀ h, (s h).installed ⊆ (s h).folders) :
    (∃ s', handlePurge kind maxSnapFiles g (purge index) s = .ok s' ∧
        s' g = (s g).purged maxSnapFiles.toNat index ∧ ∀ h, h ≠ g → s' h = s h) ↔
      maxSnapFiles.toNat < 2 ^ 63 ∧ (kind = .multiRaft →
        ∀ i ∈ (s g).installed,
          index ≤ i ∨ ((s g).installed.filter (i < ·)).card < maxSnapFiles.toNat) := by
  rcases lt_or_ge maxSnapFiles.toNat (2 ^ 63) with hm | hm
  · cases kind with
    | single =>
      refine iff_of_true ?_ ⟨hm, nofun⟩
      refine ⟨Function.update s g ((s g).purged maxSnapFiles.toNat index), ?_, ?_, ?_⟩
      · simp only [handlePurge, purge, purgeSnapshot_eq hm index (hfolders g)]
        rfl
      · exact Function.update_self ..
      · exact fun h hne => Function.update_of_ne hne ..
    | multiRaft =>
      have hhandle : handlePurge .multiRaft maxSnapFiles g (purge index) s = .ok s := by
        simp only [handlePurge, purge, purgeSnapshot_empty hm]
        exact congrArg Except.ok (Function.update_eq_self 0 s)
      rw [← purged_eq_self_iff, hhandle]
      constructor
      · rintro ⟨s', hs', hg, -⟩
        cases hs'
        exact ⟨hm, fun _ => hg.symm⟩
      · rintro ⟨-, hself⟩
        exact ⟨s, rfl, (hself rfl).symm, fun _ _ => rfl⟩
  · refine iff_of_false ?_ fun h => absurd h.1 (not_lt.mpr hm)
    rintro ⟨s', hs', -⟩
    cases kind with
    | single =>
      obtain ⟨e, he⟩ := purgeSnapshot_of_le hm index (s g)
      simp only [handlePurge, purge, he] at hs'
      cases hs'
    | multiRaft =>
      obtain ⟨e, he⟩ := purgeSnapshot_of_le hm index ⟨∅, (s 0).folders⟩
      simp only [handlePurge, purge, he] at hs'
      cases hs'

def threeSnapshots : Nat → GroupSnapshots :=
  fun g => if g = 1 then ⟨{3, 5, 8}, {3, 5, 8}⟩ else ⟨∅, ∅⟩

theorem multiRaft_purges_nothing :
    handlePurge .multiRaft 1 1 (purge 8) threeSnapshots = .ok threeSnapshots ∧
      (threeSnapshots 1).purged 1 8 = ⟨{8}, {8}⟩ := by
  refine ⟨?_, by decide +kernel⟩
  simp only [handlePurge, purge, purgeSnapshot_empty (by decide : (1 : UInt64).toNat < 2 ^ 63)]
  exact congrArg Except.ok (Function.update_eq_self 0 threeSnapshots)

theorem single_purges_two :
    ∃ s', handlePurge .single 1 1 (purge 8) threeSnapshots = .ok s' ∧ s' 1 = ⟨{8}, {8}⟩ := by
  have hfolders : ∀ h, (threeSnapshots h).installed ⊆ (threeSnapshots h).folders := by
    intro h
    unfold threeSnapshots
    split
    · exact subset_rfl
    · exact subset_rfl
  obtain ⟨s', hs', hone, -⟩ := (purge_iff .single 1 1 8 hfolders).mpr ⟨by decide, nofun⟩
  exact ⟨s', hs', hone.trans (by decide +kernel)⟩

end Babuza.Snapshot
