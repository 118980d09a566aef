import Babuza.Babuzawal.Indexed
import Babuza.Babuzawal.Recovery

/-!
# `raftStorage` and the Ready loop

What `processRaftReady` does with a `raft.Ready` before it advances the node (`raft/raft_ready.go`,
`raft/raft_storage.go`): the write-ahead log saves it, the entry storage takes its snapshot and then
its entries. With the native log and its entry index the last two steps undo the first: `Save` puts
the entries into the index, `ApplySnapshot` empties it, and `Append` does nothing. A `Ready` with a
snapshot is stored correctly exactly when it has no entries (`processRaftReady_stores_iff`).
-/

namespace Babuza.Raft

open Lib Allocator Walbase Babuzawal

/-- The write-ahead log and the entry storage behind a `raftStorage`, as `ibabuza.Wal` and
`ibabuza.EntryStorage` offer them. -/
structure Backend (ε σ : Type) where
  save : σ → HardState → List Entry → Except ε σ
  saveSnapshot : σ → Snapshot → Except ε σ
  sync : σ → Except ε σ
  applySnapshot : σ → Snapshot → Except ε σ
  append : σ → List Entry → Except ε σ

structure Ready where
  hardState : HardState
  entries : List Entry
  snapshot : Snapshot
  deriving DecidableEq

section Backend

variable {ε σ : Type} (b : Backend ε σ)

def save (s : σ) (hs : HardState) (entries : List Entry) (snapshot : Snapshot) : Except ε σ := do
  let s ← b.save s hs entries
  if isEmptySnap snapshot then
    return s
  else
    let s ← b.saveSnapshot s snapshot
    b.sync s

def applyAndReleaseSnapshot (s : σ) (snapshot : Snapshot) : Except ε σ :=
  b.applySnapshot s snapshot

def entryStorageAppend (s : σ) (entries : List Entry) : Except ε σ := b.append s entries

def processRaftReady (s : σ) (rd : Ready) : Except ε σ := do
  let s ← save b s rd.hardState rd.entries rd.snapshot
  let s ← (if isEmptySnap rd.snapshot then .ok s else applyAndReleaseSnapshot b s rd.snapshot)
  entryStorageAppend b s rd.entries

end Backend

/-! ## The native log -/

/-- `EntryIndexRaftStorage.ApplySnapshot` on the storage the log carries. -/
def applySnapshotIndexed (w : Wal) (snapshot : Snapshot) : Except WalError Wal :=
  match w.entryIndexStorage with
  | none => .ok w
  | some es => do
    let es ← (es.applySnapshot snapshot).mapError .entryStorage
    return w.setEntryIndexStorage es

/-- The native log over its directory, with the entry index enabled: the log and the raft storage
share one entry storage, and `EntryIndexRaftStorage.Append` does nothing. -/
def native (codecs : RaftCodecs) : Backend WalError (Wal × Directory) where
  save s hs entries := s.1.save codecs s.2 hs entries
  saveSnapshot s snapshot := s.1.saveSnapshot codecs s.2 snapshot
  sync s := s.1.sync s.2
  applySnapshot s snapshot := (applySnapshotIndexed s.1 snapshot).map fun w => (w, s.2)
  append s _ := .ok s

variable {codecs : RaftCodecs} {cfg : ManagerConfig} {pool : ByteSlicePool} {w w' : Wal}
  {dir dir' : Directory} {J : Journal}

variable {es : EntryStorage EntryIndexMetadata} {snapshot : Snapshot}

theorem native_save_storage {hs : HardState} {entries : List Entry}
    (h : save (native codecs) (w, dir) hs entries snapshot = .ok (w', dir'))
    (hes : w.entryIndexStorage = some es) :
    ∃ index es', index.map EntryStorage.blank = entries.map strip ∧
      es.save hs entries index = .ok es' ∧ w'.entryIndexStorage = some es' := by
  obtain ⟨⟨w₁, dir₁⟩, hsave, h⟩ := bind_eq_ok.mp h
  obtain ⟨w₀, dir₀, index, es', hindex, hes', hkeep⟩ := Wal.save_storage_index hsave hes
  refine ⟨index, es', (Wal.saveEntries_storage hindex (by rw [hes]; rfl)).2, hes', ?_⟩
  split at h
  · cases h
    exact hkeep
  · obtain ⟨⟨w₂, dir₂⟩, hsnapshot, hsync⟩ := bind_eq_ok.mp h
    rw [Wal.sync_storage hsync, Wal.saveSnapshot_storage hsnapshot, hkeep]

theorem native_applySnapshot_storage (hes : w.entryIndexStorage = some es) :
    applyAndReleaseSnapshot (native codecs) (w, dir) snapshot =
      if snapshot.metadata.index ≤ es.snapshot.metadata.index then
        .error (.entryStorage .snapOutOfDate)
      else .ok (w.setEntryIndexStorage { es with
        snapshot := snapshot
        cache := es.cache.clear
        dummy := EntryStorage.marker snapshot.metadata.term snapshot.metadata.index
        ents := [] }, dir) := by
  simp only [applyAndReleaseSnapshot, native, applySnapshotIndexed, hes]
  unfold EntryStorage.applySnapshot
  split <;> rfl

/-- Every record that storing the hard state and the snapshot of `rd` may write fits into the
encoder's pool, those of a new file included. -/
structure Ready.Fits (codecs : RaftCodecs) (cfg : ManagerConfig) (pool : ByteSlicePool)
    (J : Journal) (rd : Ready) : Prop where
  page : 0 < cfg.alignmentPageSize
  hardState : (Record.hardState rd.hardState).Fits codecs pool
  rotate : ∀ r ∈ (J.saveHardState codecs rd.hardState).rotateRecords codecs, r.Fits codecs pool
  snapshot : (Record.snapshot rd.snapshot.toWal).Fits codecs pool

/-- The entry storage starts behind the snapshot of `rd` and has its entries as log. -/
def Ready.Stored (rd : Ready) (w : Wal) : Prop :=
  ∃ es, w.entryIndexStorage = some es ∧ es.firstIndex = rd.snapshot.metadata.index + 1 ∧
    es.ents.map EntryStorage.blank = rd.entries.map strip

theorem native_save_nil_exists {rd : Ready} (h : Represents codecs cfg pool w dir J)
    (hfits : rd.Fits codecs cfg pool J) :
    ∃ w' dir', save (native codecs) (w, dir) rd.hardState [] rd.snapshot = .ok (w', dir') := by
  obtain ⟨w₁, dir₁, hsave⟩ := h.save_nil_exists hfits.page hfits.hardState hfits.rotate
  have h₁ := save_represents h hsave
  obtain ⟨w₂, dir₂, hsnapshot⟩ := h₁.saveSnapshot_exists hfits.page hfits.snapshot
  obtain ⟨w₃, dir₃, hsync⟩ := (saveSnapshot_represents h₁ hsnapshot).sync_exists
  unfold save
  simp only [native, hsave, hsnapshot, hsync, ok_bind]
  by_cases hempty : isEmptySnap rd.snapshot
  · exact ⟨w₁, dir₁, by rw [if_pos hempty]; rfl⟩
  · exact ⟨w₃, dir₃, by rw [if_neg hempty]⟩

/-- A `Ready` with a new snapshot is stored exactly when it carries no entries. -/
theorem processRaftReady_stores_iff {es : EntryStorage EntryIndexMetadata} {rd : Ready}
    (h : Represents codecs cfg pool w dir J) (hes : w.entryIndexStorage = some es)
    (hsnap : es.snapshot.metadata.index < rd.snapshot.metadata.index)
    (hfits : rd.Fits codecs cfg pool J) :
    (∃ w' dir', processRaftReady (native codecs) (w, dir) rd = .ok (w', dir') ∧ rd.Stored w') ↔
      rd.entries = [] := by
  have hsnapshot : ¬ isEmptySnap rd.snapshot := by
    simp only [isEmptySnap, beq_iff_eq]
    omega
  constructor
  · rintro ⟨w', dir', hprocess, es', hes', -, hlog⟩
    obtain ⟨⟨w₁, dir₁⟩, hsave, hprocess⟩ := bind_eq_ok.mp hprocess
    obtain ⟨⟨w₂, dir₂⟩, happly, happend⟩ := bind_eq_ok.mp hprocess
    cases happend
    obtain ⟨-, es₁, -, -, hes₁⟩ := native_save_storage hsave hes
    rw [if_neg hsnapshot, native_applySnapshot_storage hes₁] at happly
    split at happly
    · cases happly
    · cases happly
      cases hes'
      exact List.map_eq_nil_iff.mp hlog.symm
  · intro hnil
    obtain ⟨w₁, dir₁, hsave⟩ := native_save_nil_exists h hfits
    obtain ⟨index, es₁, -, hes₁, hkeep⟩ := native_save_storage hsave hes
    have hold : ¬ rd.snapshot.metadata.index ≤ es₁.snapshot.metadata.index := by
      rw [EntryStorage.save_nil_snapshot hes₁]
      omega
    obtain ⟨w₂, es₂, happly, hes₂, hfirst, hents⟩ : ∃ w₂ es₂,
        applyAndReleaseSnapshot (native codecs) (w₁, dir₁) rd.snapshot = .ok (w₂, dir₁) ∧
          w₂.entryIndexStorage = some es₂ ∧
          es₂.firstIndex = rd.snapshot.metadata.index + 1 ∧ es₂.ents = [] :=
      ⟨_, _, (native_applySnapshot_storage hkeep).trans (if_neg hold), rfl, rfl, rfl⟩
    refine ⟨w₂, dir₁, ?_, es₂, hes₂, hfirst, by rw [hents, hnil]; rfl⟩
    unfold processRaftReady
    rw [hnil, hsave, ok_bind, if_neg hsnapshot, happly, ok_bind]
    rfl

/-- A log with its entry index enabled, before anything is saved. -/
def createIndexed (codecs : RaftCodecs) (cfg : ManagerConfig) (pool : ByteSlicePool)
    (metadata : Bytes) : Except WalError (Wal × Directory) := do
  let (w, dir) ← createWal codecs metadata (.newManager cfg pool) ∅
  return (w.setEntryIndexStorage .newEntryStorage, dir)

/-- A snapshot at 5 and the entry behind it, for a node with an empty log. -/
def snapshotAndEntry : Ready :=
  ⟨⟨2, 0, 5⟩, [⟨2, 6, .normal, [7]⟩], ⟨[], ⟨.empty, 5, 2⟩⟩⟩

def readyError (rd : Ready) : Except WalError (Option WalError) := do
  let s ← createIndexed .unary (smallConfig 400) smallPool [1]
  match processRaftReady (native .unary) s rd with
  | .error e => return some e
  | .ok _ => return none

/-- The log refuses the entry because the snapshot has not been applied yet. -/
theorem processRaftReady_refuses_entry :
    ∃ w dir, createIndexed .unary (smallConfig 400) smallPool [1] = .ok (w, dir) ∧
      (∃ es, w.entryIndexStorage = some es ∧
        es.snapshot.metadata.index < snapshotAndEntry.snapshot.metadata.index) ∧
      Consecutive Entry.index (snapshotAndEntry.snapshot.metadata.index + 1)
        snapshotAndEntry.entries ∧
      processRaftReady (native .unary) (w, dir) snapshotAndEntry =
        .error (.entryStorage (.missingLogEntry 0 6)) := by
  have h : readyError snapshotAndEntry = .ok (some (.entryStorage (.missingLogEntry 0 6))) := by
    decide +kernel
  obtain ⟨⟨w, dir⟩, hcreate, h⟩ := bind_eq_ok.mp h
  obtain ⟨⟨w₀, dir₀⟩, -, hpure⟩ := bind_eq_ok.mp hcreate
  cases hpure
  refine ⟨_, _, hcreate, ⟨_, rfl, by decide⟩, by decide, ?_⟩
  split at h
  · rename_i e herror
    cases h
    exact herror
  · cases h

theorem processRaftReady_stores_snapshot :
    ∃ w dir, createIndexed .unary (smallConfig 400) smallPool [1] = .ok (w, dir) ∧
      ((∃ w' dir', processRaftReady (native .unary) (w, dir)
          ⟨⟨2, 0, 5⟩, [], ⟨[], ⟨.empty, 5, 2⟩⟩⟩ = .ok (w', dir') ∧
        Ready.Stored ⟨⟨2, 0, 5⟩, [], ⟨[], ⟨.empty, 5, 2⟩⟩⟩ w') ↔ ([] : List Entry) = []) := by
  have h : readyError ⟨⟨2, 0, 5⟩, [], ⟨[], ⟨.empty, 5, 2⟩⟩⟩ = .ok none := by decide +kernel
  obtain ⟨⟨w, dir⟩, hcreate, -⟩ := bind_eq_ok.mp h
  obtain ⟨⟨w₀, dir₀⟩, hnew, hpure⟩ := bind_eq_ok.mp hcreate
  cases hpure
  have hrep := (createWal_represents hnew).1.setEntryIndexStorage (some .newEntryStorage)
  refine ⟨_, _, hcreate, processRaftReady_stores_iff hrep rfl (by decide) ⟨by decide, ?_, ?_, ?_⟩⟩
  all_goals decide +kernel

end Babuza.Raft
