import Babuza.Babuzawal.Purge

/-!
# How much a purge removes

A log file is superfluous for a snapshot if the next file starts at or below it and enough files
stand behind it. `Manager.Purge` counts the files below the snapshot for its outer loop, but the
slice is not advanced behind a file that has been removed, so that every round removes the same file
again. With `smaller` it also loses a file in front of one that starts at the snapshot, and all of
them if no file starts at or above it.
-/

namespace Babuza.Babuzawal

open Lib Allocator List

/-- The next file starts at or below the snapshot, and the file is not among the last ones, which
are kept. -/
def Superfluous (maxKeepLogFiles snapshotIndex : Nat) (files : List LogFileDesc)
    (f : LogFileDesc) : Prop :=
  ∃ front g behind, files = front ++ f :: g :: behind ∧ g.startLogIndex ≤ snapshotIndex ∧
    maxKeepLogFiles ≤ (g :: behind).length

/-- The superfluous files are gone from the manager and from the disk, everything else is there. -/
structure PurgesSuperfluous (maxKeepLogFiles snapshotIndex : Nat) (files : List LogFileDesc)
    (dir : Directory) (after : Wal × Directory) : Prop where
  gone : ∀ f ∈ files, Superfluous maxKeepLogFiles snapshotIndex files f →
    f.id ∉ after.1.logMgr.filesDesc ∧ f.getLogFileName ∉ after.2
  known : ∀ f ∈ files, ¬ Superfluous maxKeepLogFiles snapshotIndex files f →
    after.1.logMgr.filesDesc.lookup f.id = some f
  on_disk : ∀ n : FileName, n.kind ≠ .unlinked →
    (∀ f ∈ files, Superfluous maxKeepLogFiles snapshotIndex files f → n ≠ f.getLogFileName) →
    after.2.lookup n = dir.lookup n

def startsUpTo (snapshotIndex : Nat) (files : List LogFileDesc) : Nat :=
  files.countP fun f => f.startLogIndex ≤ snapshotIndex

def startsBelow (snapshotIndex : Nat) (files : List LogFileDesc) : Nat :=
  files.countP fun f => f.startLogIndex < snapshotIndex

/-! ## Positions in the sorted files -/

section Sorted

variable {maxKeepLogFiles snapshotIndex : Nat} {files : List LogFileDesc} {f : LogFileDesc}

variable {front behind : List LogFileDesc}

theorem start_le_iff {g : LogFileDesc}
    (hsorted : (front ++ g :: behind).Pairwise fun a b => a.startLogIndex < b.startLogIndex) :
    g.startLogIndex ≤ snapshotIndex ↔
      front.length < startsUpTo snapshotIndex (front ++ g :: behind) := by
  obtain ⟨-, hbehind, hfront⟩ := pairwise_append.mp hsorted
  unfold startsUpTo
  rw [countP_append, countP_cons]
  by_cases hg : g.startLogIndex ≤ snapshotIndex
  · have hall : front.countP (fun f => f.startLogIndex ≤ snapshotIndex) = front.length := by
      rw [countP_eq_length]
      intro f hf
      have hlt := hfront f hf g mem_cons_self
      exact decide_eq_true (by omega)
    simp only [hg, hall, decide_true, if_true, true_iff]
    omega
  · have hnone : behind.countP (fun f => f.startLogIndex ≤ snapshotIndex) = 0 := by
      rw [countP_eq_zero]
      intro f hf
      have hlt := (pairwise_cons.mp hbehind).1 f hf
      simp only [decide_eq_true_eq]
      omega
    have hle : front.countP (fun f => f.startLogIndex ≤ snapshotIndex) ≤ front.length :=
      countP_le_length
    simp only [hg, hnone, decide_false, Bool.false_eq_true, if_false, false_iff]
    omega

theorem superfluous_iff (front : List LogFileDesc)
    (hsorted : (front ++ f :: behind).Pairwise fun a b => a.startLogIndex < b.startLogIndex) :
    Superfluous maxKeepLogFiles snapshotIndex (front ++ f :: behind) f ↔
      front.length + 1 < startsUpTo snapshotIndex (front ++ f :: behind) ∧
        front.length + maxKeepLogFiles < (front ++ f :: behind).length := by
  have hnodup : (front ++ f :: behind).Nodup :=
    hsorted.imp fun hlt heq => Nat.ne_of_lt hlt (congrArg _ heq)
  obtain ⟨-, hbehind, hdisjoint⟩ := nodup_append.mp hnodup
  have hposition : ∀ {front' behind' : List LogFileDesc},
      front ++ f :: behind = front' ++ f :: behind' → behind = behind' := by
    intro front' behind' heq
    have hfront : f ∉ front := fun hf => hdisjoint f hf f mem_cons_self rfl
    exact ((append_cons_inj_of_notMem hfront (nodup_cons.mp hbehind).1).mp heq).2.2
  cases behind with
  | nil =>
    constructor
    · rintro ⟨front', g, behind', heq, -⟩
      cases hposition heq
    · rintro ⟨hup, -⟩
      have hle : startsUpTo snapshotIndex (front ++ [f]) ≤ (front ++ [f]).length :=
        countP_le_length
      rw [length_append, length_singleton] at hle
      omega
  | cons g behind =>
    have happend : front ++ f :: g :: behind = (front ++ [f]) ++ g :: behind := by
      rw [append_assoc, singleton_append]
    have hstart : g.startLogIndex ≤ snapshotIndex ↔
        front.length + 1 < startsUpTo snapshotIndex (front ++ f :: g :: behind) := by
      rw [happend] at hsorted ⊢
      rw [start_le_iff hsorted, length_append, length_singleton]
    have hkeep : maxKeepLogFiles ≤ (g :: behind).length ↔
        front.length + maxKeepLogFiles < (front ++ f :: g :: behind).length := by
      simp only [length_append, length_cons]
      omega
    rw [← hstart, ← hkeep]
    constructor
    · rintro ⟨front', g', behind', heq, hlow, hlength⟩
      cases hposition heq
      exact ⟨hlow, hlength⟩
    · rintro ⟨hlow, hlength⟩
      exact ⟨front, g, behind, rfl, hlow, hlength⟩

theorem forall_not_superfluous_iff
    (hsorted : files.Pairwise fun a b => a.startLogIndex < b.startLogIndex) :
    (∀ f ∈ files, ¬ Superfluous maxKeepLogFiles snapshotIndex files f) ↔
      ¬ (1 < startsUpTo snapshotIndex files ∧ maxKeepLogFiles < files.length) := by
  constructor
  · rintro hnone ⟨hup, hkeep⟩
    cases files with
    | nil => exact absurd hkeep (Nat.not_lt_zero _)
    | cons f files =>
      refine hnone f mem_cons_self ((superfluous_iff [] hsorted).mpr ⟨hup, ?_⟩)
      rwa [length_nil, Nat.zero_add]
  · rintro hnot f hf hsuperfluous
    obtain ⟨front, behind, rfl⟩ := append_of_mem hf
    obtain ⟨hup, hkeep⟩ := (superfluous_iff front hsorted).mp hsuperfluous
    exact hnot ⟨by omega, by omega⟩

theorem forall_tail_not_superfluous_iff
    (hsorted : (f :: files).Pairwise fun a b => a.startLogIndex < b.startLogIndex) :
    (∀ g ∈ files, ¬ Superfluous maxKeepLogFiles snapshotIndex (f :: files) g) ↔
      ¬ (2 < startsUpTo snapshotIndex (f :: files) ∧
        1 + maxKeepLogFiles < (f :: files).length) := by
  constructor
  · rintro hnone ⟨hup, hkeep⟩
    cases files with
    | nil =>
      rw [length_singleton] at hkeep
      omega
    | cons g files =>
      exact hnone g mem_cons_self ((superfluous_iff [f] hsorted).mpr ⟨hup, hkeep⟩)
  · rintro hnot g hg hsuperfluous
    obtain ⟨front, behind, rfl⟩ := append_of_mem hg
    obtain ⟨hup, hkeep⟩ := (superfluous_iff (f :: front) hsorted).mp hsuperfluous
    rw [length_cons, cons_append] at hup hkeep
    exact hnot ⟨by omega, by omega⟩

end Sorted

/-! ## What is removed -/

theorem removeFile_lookup_ne {w : Wal} {dir : Directory} {f : LogFileDesc} {n : FileName}
    (hkind : n.kind ≠ .unlinked) (hne : n ≠ f.getLogFileName) :
    (w.removeFile dir f).2.lookup n = dir.lookup n := by
  change (w.removeAll dir f).2.lookup n = dir.lookup n
  unfold Wal.removeAll
  split
  · cases dir.lookup f.getLogFileName with
    | none => rfl
    | some file =>
      have hunlinked : n ≠ ⟨.unlinked, f.id, f.startLogIndex⟩ := fun h => hkind (congrArg _ h)
      simp only [AList.lookup_insert_ne hunlinked, AList.lookup_erase_ne hne]
  · exact AList.lookup_erase_ne hne

section Purge

variable {maxKeepLogFiles : UInt64} {keep snapshotIndex : Nat} {w : Wal} {dir : Directory}
  {files : List LogFileDesc} {f : LogFileDesc}

section

variable (hknown : w.logMgr.filesDesc.entries.Perm (files.map fun f => ⟨f.id, f⟩))
include hknown

theorem lookup_of_known (hf : f ∈ files) : w.logMgr.filesDesc.lookup f.id = some f :=
  AList.mem_lookup_iff.mpr (hknown.mem_iff.mpr (mem_map_of_mem hf))

theorem unchanged_purgesSuperfluous_iff :
    PurgesSuperfluous keep snapshotIndex files dir (w, dir) ↔
      ∀ f ∈ files, ¬ Superfluous keep snapshotIndex files f := by
  constructor
  · intro h f hf hsuperfluous
    apply (h.gone f hf hsuperfluous).1
    rw [← AList.lookup_isSome, lookup_of_known hknown hf]
    rfl
  · intro hnone
    exact ⟨fun f hf h => absurd h (hnone f hf), fun f hf _ => lookup_of_known hknown hf,
      fun _ _ _ => rfl⟩

end

theorem removeFile_purgesSuperfluous_iff (hsorted : (f :: files).Pairwise fun a b => a.id < b.id)
    (hknown : w.logMgr.filesDesc.entries.Perm ((f :: files).map fun f => ⟨f.id, f⟩)) :
    PurgesSuperfluous keep snapshotIndex (f :: files) dir (w.removeFile dir f) ↔
      Superfluous keep snapshotIndex (f :: files) f ∧
        ∀ g ∈ files, ¬ Superfluous keep snapshotIndex (f :: files) g := by
  have hlookup : ∀ g ∈ files, (w.removeFile dir f).1.logMgr.filesDesc.lookup g.id = some g := by
    intro g hg
    have hlt := (pairwise_cons.mp hsorted).1 g hg
    rw [removeFile_filesDesc, AList.lookup_erase_ne (Nat.ne_of_gt hlt),
      lookup_of_known hknown (mem_cons_of_mem _ hg)]
  constructor
  · intro h
    refine ⟨by_contra fun hnot => ?_, fun g hg hother => ?_⟩
    · have hkept := h.known f mem_cons_self hnot
      rw [removeFile_filesDesc, AList.lookup_erase] at hkept
      cases hkept
    · apply (h.gone g (mem_cons_of_mem _ hg) hother).1
      rw [← AList.lookup_isSome, hlookup g hg]
      rfl
  · rintro ⟨hsuperfluous, hnone⟩
    refine ⟨?_, ?_, ?_⟩
    · refine forall_mem_cons.mpr ⟨fun _ => ?_, fun g hg hother => absurd hother (hnone g hg)⟩
      rw [removeFile_filesDesc]
      exact ⟨fun h => (AList.mem_erase.mp h).1 rfl,
        fun h => ((removeFile_mem w dir f f).mp h).1 rfl⟩
    · exact forall_mem_cons.mpr ⟨absurd hsuperfluous, fun g hg _ => hlookup g hg⟩
    · intro n hkind hne
      exact removeFile_lookup_ne hkind (hne f mem_cons_self hsuperfluous)

/-- The outer loop of `Purge` makes a round: two files start below the snapshot and another one at
or above it. -/
def Finds (snapshotIndex : Nat) (files : List LogFileDesc) : Prop :=
  2 ≤ startsBelow snapshotIndex files ∧ ∃ f ∈ files, snapshotIndex ≤ f.startLogIndex

/-- A purge removes all superfluous files, and no others, exactly if there is none, or one, and that
one is found. A limit of `2 ^ 63` or more is negative as an `int`, so that a file is removed
nevertheless. -/
theorem purge_purgesSuperfluous_iff (order : SortByStart)
    (hsorted : files.Pairwise fun a b => a.id < b.id ∧ a.startLogIndex < b.startLogIndex)
    (hknown : w.logMgr.filesDesc.entries.Perm (files.map fun f => ⟨f.id, f⟩)) :
    PurgesSuperfluous maxKeepLogFiles.toNat snapshotIndex files dir
        (w.purge maxKeepLogFiles order dir snapshotIndex) ↔
      files.length ≤ maxKeepLogFiles.toNat ∧
          (Finds snapshotIndex files → maxKeepLogFiles.toNat < 2 ^ 63) ∨
        startsUpTo snapshotIndex files ≤ 1 ∨
        maxKeepLogFiles.toNat < files.length ∧ Finds snapshotIndex files ∧
          (startsUpTo snapshotIndex files = 2 ∨ files.length = maxKeepLogFiles.toNat + 1) := by
  have hstarts := hsorted.imp And.right
  have hids := hsorted.imp And.left
  have hperm := files_perm_of_known hknown
  have hbelow : startsBelow snapshotIndex files ≤ startsUpTo snapshotIndex files :=
    countP_mono_left fun _ _ h => decide_eq_true (Nat.le_of_lt (of_decide_eq_true h))
  have hlimit : maxKeepLogFiles.toInt64.toInt = if 2 * maxKeepLogFiles.toNat < 2 ^ 64 then
      (maxKeepLogFiles.toNat : Int) else maxKeepLogFiles.toNat - 2 ^ 64 :=
    BitVec.toInt_eq_toNat_cond _
  have hbound := maxKeepLogFiles.toNat_lt
  by_cases hpurges : Purges maxKeepLogFiles snapshotIndex w.logMgr.files
  · obtain ⟨f, r, hsort, -, -, hpurge⟩ := Wal.purge_of_purges order dir hpurges
    -- the starts are strictly increasing, so the files are sorted already
    have hfiles : files = f :: r := by
      rw [← hsort]
      refine List.Perm.eq_of_pairwise ?_ (hstarts.imp Nat.le_of_lt) (order.sorted _)
        ((order.perm _).trans hperm).symm
      intro a b ha hb hab hba
      have hnodup : (files.map LogFileDesc.startLogIndex).Nodup :=
        pairwise_map.mpr (hstarts.imp Nat.ne_of_lt)
      exact inj_on_of_nodup_map hnodup ha (((order.perm _).trans hperm).mem_iff.mp hb)
        (Nat.le_antisymm hab hba)
    subst hfiles
    obtain ⟨hkeep, hfinds⟩ := (purges_perm hperm).mp hpurges
    have hfinds : Finds snapshotIndex (f :: r) := hfinds
    have hcount := hfinds.1
    have hfirst : Superfluous maxKeepLogFiles.toNat snapshotIndex (f :: r) f ↔ _ :=
      superfluous_iff [] hstarts
    rw [hpurge, removeFile_purgesSuperfluous_iff hids hknown, hfirst,
      forall_tail_not_superfluous_iff hstarts]
    simp only [hfinds, true_and, forall_const, nil_append, length_nil]
    omega
  · rw [Wal.purge_of_not_purges order dir hpurges, unchanged_purgesSuperfluous_iff hknown,
      forall_not_superfluous_iff hstarts]
    rw [purges_perm hperm] at hpurges
    have hpurges : ¬ (maxKeepLogFiles.toInt64.toInt < files.length ∧ Finds snapshotIndex files) :=
      hpurges
    by_cases hfinds : Finds snapshotIndex files
    · simp only [hfinds, true_and, and_true, forall_const] at hpurges ⊢
      omega
    · simp only [hfinds, false_and, and_false, false_imp_iff, and_true, or_false]
      omega

end Purge

def filesOfStarts (starts : List Nat) : List LogFileDesc :=
  starts.mapIdx fun id start => ⟨id, start, false⟩

def logOfStarts (starts : List Nat) : Wal where
  logMgr :=
    { cfg := ⟨64, 16, 32⟩
      filesDesc := ((filesOfStarts starts).map fun f => ⟨f.id, f⟩).toAList
      nextLogId := starts.length
      memPool := smallPool }
  state := ⟨[], ⟨0, 0⟩, .empty, 0⟩
  currentLogFile :=
    { name := ((filesOfStarts starts).getLastD .empty).getLogFileName
      pw := .create 64 16 32 0
      enc := ⟨smallPool, 0⟩ }
  entryIndexStorage := none

def diskOfStarts (starts : List Nat) : Directory :=
  ((filesOfStarts starts).map fun f => ⟨f.getLogFileName, []⟩).toAList

theorem purge_leaves_superfluous :
    ((filesOfStarts [1, 2, 3, 4, 5]).Pairwise fun a b =>
      a.id < b.id ∧ a.startLogIndex < b.startLogIndex) ∧
    ((logOfStarts [1, 2, 3, 4, 5]).logMgr.filesDesc.entries.Perm
      ((filesOfStarts [1, 2, 3, 4, 5]).map fun f => ⟨f.id, f⟩)) ∧
    ¬ PurgesSuperfluous 3 3 (filesOfStarts [1, 2, 3, 4, 5]) (diskOfStarts [1, 2, 3, 4, 5])
      ((logOfStarts [1, 2, 3, 4, 5]).purge 3 .stable (diskOfStarts [1, 2, 3, 4, 5]) 3) := by
  refine ⟨by decide, by decide +kernel, fun h => ?_⟩
  have hsuperfluous : Superfluous 3 3 (filesOfStarts [1, 2, 3, 4, 5]) ⟨1, 2, false⟩ :=
    ⟨[⟨0, 1, false⟩], ⟨2, 3, false⟩, [⟨3, 4, false⟩, ⟨4, 5, false⟩], rfl, by decide, by decide⟩
  exact (h.gone ⟨1, 2, false⟩ (by decide) hsuperfluous).1 (by decide +kernel)

/-- A snapshot between the second and the third of six files: the first one goes, and nothing
else. -/
theorem purge_purgesSuperfluous_between :
    PurgesSuperfluous 3 4 (filesOfStarts [1, 3, 5, 7, 9, 10]) (diskOfStarts [1, 3, 5, 7, 9, 10])
      ((logOfStarts [1, 3, 5, 7, 9, 10]).purge 3 .stable (diskOfStarts [1, 3, 5, 7, 9, 10]) 4) := by
  change PurgesSuperfluous (UInt64.toNat 3) 4 _ _ _
  refine (purge_purgesSuperfluous_iff .stable (by decide) (by decide +kernel)).mpr ?_
  exact .inr (.inr ⟨by decide, ⟨by decide, by decide⟩, by decide⟩)

end Babuza.Babuzawal
