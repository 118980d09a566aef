import Babuza.Babuzawal.Journal
import Babuza.Walbase.Reads

/-!
# The entry storage under the native log

With the entry index enabled a log carries the entry storage of the raft node. Its `Save` acts on
that storage exactly as `EntryStorage.save` (`Wal.save_storage`), so the runs of `Walbase.Reads` are
the runs of the log. `SaveSnapshot`, `Sync` and a change of files do not touch the storage.

The second part says when the log can write at all: with a positive page size, a record fails only
when it does not fit into the encoder's pool.
-/

namespace Babuza.Babuzawal

open Lib Allocator Walbase

variable {codecs : RaftCodecs} {w w' : Wal} {dir dir' : Directory}

/-! ## What a save does to the storage -/

variable {st : HardState} {entries : List Entry} {xs : List (EntryIndex EntryIndexMetadata)}
  {e : Entry} {snapshot : Snapshot}

namespace Wal

theorem saveNextEntry_storage (h : w.saveNextEntry codecs dir e = .ok (w', dir')) :
    w'.entryIndexStorage = w.entryIndexStorage := by
  rw [saveNextEntry] at h
  split at h
  · obtain ⟨⟨l, d⟩, -, hpure⟩ := bind_eq_ok.mp h
    cases hpure
    rfl
  · cases h
    rfl

theorem saveOne_storage (h : w.saveOne codecs dir e = .ok (w', dir', xs))
    (hsome : w.entryIndexStorage.isSome) :
    w'.entryIndexStorage = w.entryIndexStorage ∧ xs.map EntryStorage.blank = [strip e] := by
  obtain ⟨⟨w₁, dir₁⟩, hnext, h⟩ := bind_eq_ok.mp h
  obtain ⟨idx, hindex, h⟩ := bind_eq_ok.mp h
  obtain ⟨⟨l, d⟩, -, hpure⟩ := bind_eq_ok.mp h
  cases hpure
  have hkeep := saveNextEntry_storage hnext
  rw [hkeep, if_pos hsome] at hindex
  refine ⟨hkeep, ?_⟩
  cases hfor : w₁.entryIndexFor e with
  | error err =>
    rw [hfor] at hindex
    cases hindex
  | ok x =>
    rw [hfor] at hindex
    cases hindex
    obtain ⟨desc, -, hpure⟩ := bind_eq_ok.mp hfor
    cases hpure
    rfl

theorem saveEntries_storage (h : w.saveEntries codecs dir entries = .ok (w', dir', xs))
    (hsome : w.entryIndexStorage.isSome) :
    w'.entryIndexStorage = w.entryIndexStorage ∧
      xs.map EntryStorage.blank = entries.map strip := by
  induction entries generalizing w dir xs with
  | nil =>
    cases h
    exact ⟨rfl, rfl⟩
  | cons e entries ih =>
    obtain ⟨⟨w₁, dir₁, x⟩, hone, h⟩ := bind_eq_ok.mp h
    obtain ⟨⟨w₂, dir₂, xs'⟩, hrest, hpure⟩ := bind_eq_ok.mp h
    cases hpure
    obtain ⟨hkeep, hx⟩ := saveOne_storage hone hsome
    obtain ⟨hkeep', hxs⟩ := ih hrest (by rwa [hkeep])
    refine ⟨hkeep'.trans hkeep, ?_⟩
    rw [List.map_append, hx, hxs, List.map_cons, List.singleton_append]

theorem sync_storage (h : w.sync dir = .ok (w', dir')) :
    w'.entryIndexStorage = w.entryIndexStorage := by
  obtain ⟨⟨l, d⟩, -, hpure⟩ := bind_eq_ok.mp h
  cases hpure
  rfl

theorem cycle_storage (h : w.cycle codecs dir = .ok (w', dir')) :
    w'.entryIndexStorage = w.entryIndexStorage := by
  iterate 11 obtain ⟨_, -, h⟩ := bind_eq_ok.mp h
  cases h
  rfl

theorem saveSnapshot_storage (h : w.saveSnapshot codecs dir snapshot = .ok (w', dir')) :
    w'.entryIndexStorage = w.entryIndexStorage := by
  obtain ⟨⟨l, d⟩, -, h⟩ := bind_eq_ok.mp h
  obtain ⟨⟨l', d'⟩, -, hpure⟩ := bind_eq_ok.mp h
  cases hpure
  rfl

variable {es : EntryStorage EntryIndexMetadata}

theorem saveHardState_storage (h : w.saveHardState codecs dir st = .ok (w', dir'))
    (hes : w.entryIndexStorage = some es) :
    w'.entryIndexStorage =
      some (if isEmptyHardState st then es else es.deleteCache st.commit) := by
  unfold saveHardState at h
  split at h
  · rename_i hempty
    cases h
    rw [hes, if_pos hempty]
  · rename_i hempty
    obtain ⟨⟨l, d⟩, -, hpure⟩ := bind_eq_ok.mp h
    cases hpure
    rw [if_neg hempty, hes]
    rfl

theorem save_storage_index (h : w.save codecs dir st entries = .ok (w', dir'))
    (hes : w.entryIndexStorage = some es) :
    ∃ w₀ dir₀ index es', w.saveEntries codecs dir entries = .ok (w₀, dir₀, index) ∧
      es.save st entries index = .ok es' ∧ w'.entryIndexStorage = some es' := by
  obtain ⟨⟨w₁, dir₁⟩, hentries, h⟩ := bind_eq_ok.mp h
  obtain ⟨⟨w₂, dir₂⟩, hhardState, h⟩ := bind_eq_ok.mp h
  have hlast : w'.entryIndexStorage = w₂.entryIndexStorage := by
    dsimp only at h
    split at h
    · exact cycle_storage h
    · split at h
      · exact sync_storage h
      · cases h
        rfl
  obtain ⟨w₀, dir₀, index, es₁, hindex, happend, hes₁⟩ : ∃ w₀ dir₀ index es₁,
      w.saveEntries codecs dir entries = .ok (w₀, dir₀, index) ∧
        (if entries = [] then Except.ok es
          else (es.appendEntryIndex index).map fun es => es.appendCache entries) = .ok es₁ ∧
        w₁.entryIndexStorage = some es₁ := by
    by_cases hnil : entries = []
    · rw [if_pos hnil] at hentries
      cases hentries
      rw [hnil]
      exact ⟨w, dir, [], es, rfl, if_pos rfl, hes⟩
    · rw [if_neg hnil] at hentries
      obtain ⟨⟨w₀, dir₀, xs⟩, hsave, hentries⟩ := bind_eq_ok.mp hentries
      obtain ⟨hkeep, -⟩ := saveEntries_storage hsave (by rw [hes]; rfl)
      simp only [hkeep, hes] at hentries
      cases happend : es.appendEntryIndex xs with
      | error err =>
        rw [happend] at hentries
        cases hentries
      | ok es₁ =>
        rw [happend] at hentries
        cases hentries
        exact ⟨_, _, xs, _, hsave, by rw [if_neg hnil, happend]; rfl, rfl⟩
  refine ⟨w₀, dir₀, index, _, hindex, ?_, hlast.trans (saveHardState_storage hhardState hes₁)⟩
  rw [EntryStorage.save, happend]
  rfl

end Wal

/-! ## When the log can write -/

variable {cfg : ManagerConfig} {pool : ByteSlicePool} {J : Journal}

theorem Represents.encode_exists {r : Record} (h : Represents codecs cfg pool w dir J)
    (hpage : 0 < cfg.alignmentPageSize) (hfits : r.Fits codecs pool) :
    ∃ l dir', w.currentLogFile.encode codecs dir r = .ok (l, dir') :=
  h.holds.encode_exists (h.pageSize_eq ▸ hpage) (h.encPool_eq ▸ hfits)

theorem Building.encode_exists {dir₀ : Directory} {name : FileName} {rs : List Record}
    {l : LogFile} {r : Record} (h : Building codecs cfg pool dir₀ name rs l dir)
    (hpage : 0 < cfg.alignmentPageSize) (hfits : r.Fits codecs pool) :
    ∃ l' dir', l.encode codecs dir r = .ok (l', dir') ∧
      Building codecs cfg pool dir₀ name (rs ++ [r]) l' dir' := by
  obtain ⟨l', dir', hencode⟩ :=
    h.holds.encode_exists (h.pageSize_eq ▸ hpage) (h.memPool_eq ▸ hfits)
  exact ⟨l', dir', hencode, h.encode hencode⟩

section

variable (h : Represents codecs cfg pool w dir J)
include h

theorem Represents.sync_exists : ∃ w' dir', w.sync dir = .ok (w', dir') := by
  obtain ⟨l, dir', hsync, -⟩ := h.sync
  exact ⟨_, _, by rw [Wal.sync, hsync, ok_bind]; rfl⟩

theorem Represents.saveHardState_exists (hpage : 0 < cfg.alignmentPageSize)
    (hfits : (Record.hardState st).Fits codecs pool) :
    ∃ w' dir', w.saveHardState codecs dir st = .ok (w', dir') := by
  unfold Wal.saveHardState
  split
  · exact ⟨_, _, rfl⟩
  · obtain ⟨l, dir', hencode⟩ := h.encode_exists hpage hfits
    exact ⟨_, _, by rw [LogFile.hardState, hencode, ok_bind]; rfl⟩

theorem Represents.closeCurrent_exists :
    ∃ l₀ dir₀ l₁ dir₁, w.currentLogFile.sync dir = .ok (l₀, dir₀) ∧
      l₀.truncate dir₀ = .ok (l₁, dir₁) := by
  obtain ⟨l₀, dir₀, hsync, hrep, hlookup⟩ := h.sync
  have hname : l₀.name = J.current.name := hrep.name_eq
  exact ⟨l₀, dir₀, l₀, _, hsync,
    LogFile.truncate_eq (by rw [hname]; exact hlookup) hrep.holds.offset_eq⟩

end

theorem Building.rotateRecords_exists {dir₀ : Directory} {name : FileName} {l : LogFile}
    (h : Building codecs cfg pool dir₀ name [] l dir) (hpage : 0 < cfg.alignmentPageSize)
    (hfits : ∀ r ∈ J.rotateRecords codecs, r.Fits codecs pool) :
    ∃ l₁ dir₁ l₂ dir₂ l₃ dir₃ l₄ dir₄,
      l.crc codecs dir (crcAfter codecs 0 J.current.records) = .ok (l₁, dir₁) ∧
      l₁.metadata codecs dir₁ J.state.metadata = .ok (l₂, dir₂) ∧
      l₂.hardState codecs dir₂ J.state.hardState = .ok (l₃, dir₃) ∧
      (if J.state.emptyNextEntry then .ok (l₃, dir₃)
        else l₃.nextEntry codecs dir₃ J.state.nextEntry) = .ok (l₄, dir₄) ∧
      Building codecs cfg pool dir₀ name (J.rotateRecords codecs) l₄ dir₄ := by
  rw [Journal.rotateRecords] at hfits ⊢
  obtain ⟨l₁, dir₁, hcrc, h⟩ := h.encode_exists hpage
    (hfits (.crc (crcAfter codecs 0 J.current.records)) (by simp))
  obtain ⟨l₂, dir₂, hmetadata, h⟩ := h.encode_exists hpage
    (hfits (.metadata J.state.metadata) (by simp))
  obtain ⟨l₃, dir₃, hhardState, h⟩ := h.encode_exists hpage
    (hfits (.hardState J.state.hardState) (by simp))
  by_cases hempty : J.state.emptyNextEntry
  · refine ⟨l₁, dir₁, l₂, dir₂, l₃, dir₃, l₃, dir₃, hcrc, hmetadata, hhardState, ?_, ?_⟩
    · rw [if_pos hempty]
    · rwa [if_pos hempty]
  · rw [if_neg hempty] at hfits
    obtain ⟨l₄, dir₄, hnextEntry, h⟩ := h.encode_exists hpage
      (hfits (.nextEntry J.state.nextEntry) (by simp))
    refine ⟨l₁, dir₁, l₂, dir₂, l₃, dir₃, l₄, dir₄, hcrc, hmetadata, hhardState, ?_, ?_⟩
    · rwa [if_neg hempty]
    · rwa [if_neg hempty]

section

variable (h : Represents codecs cfg pool w dir J)
include h

theorem Represents.cycle_exists (hpage : 0 < cfg.alignmentPageSize)
    (hfits : ∀ r ∈ J.rotateRecords codecs, r.Fits codecs pool) :
    ∃ w' dir', w.cycle codecs dir = .ok (w', dir') := by
  obtain ⟨l₀, dir₀, l₁, dir₁, hsync, htruncate⟩ := h.closeCurrent_exists
  obtain ⟨hmem, hlookup, hlastCrc⟩ := h.closeCurrent hsync htruncate
  obtain ⟨l₂, m₂, dir₂, hcreate⟩ : ∃ l₂ m₂ dir₂, w.logMgr.createNextTempLogFile dir₁
      (J.current.desc.id + 1) (J.state.lastEntryIndex + 1) = .ok (l₂, m₂, dir₂) := by
    have hid : w.logMgr.nextLogId = J.current.desc.id + 1 := h.nextLogId_eq
    unfold Manager.createNextTempLogFile
    rw [if_neg (not_not.mpr hid)]
    exact ⟨_, _, _, rfl⟩
  obtain ⟨hbuild, hid, rfl⟩ := building_create codecs (temp_notMem hmem) hcreate
  obtain ⟨l₃, dir₃, l₄, dir₄, l₅, dir₅, l₆, dir₆, hcrc, hmetadata, hhardState, hnextEntry,
    hbuild⟩ :=
    hbuild.rotateRecords_exists (h.cfg_eq ▸ hpage) (h.memPool_eq ▸ hfits)
  obtain ⟨l₇, dir₇, hsync', -⟩ := hbuild.holds.sync
  obtain ⟨hbuild, hsynced⟩ := hbuild.sync hsync'
  obtain ⟨m', dir', cur, hfinalize, hopen, -⟩ := building_finish
    (m := { w.logMgr with
      filesDesc := w.logMgr.filesDesc.insert (J.current.desc.id + 1)
        ⟨J.current.desc.id + 1, J.state.lastEntryIndex + 1, true⟩
      nextLogId := w.logMgr.nextLogId + 1 })
    h.next_id hmem hlookup (fun s hs => h.memPool_eq ▸ h.fits s hs) hbuild hsynced
    (AList.lookup_insert _) (by rw [← hid])
  refine ⟨{ w with logMgr := m', currentLogFile := cur }, dir', ?_⟩
  unfold Wal.cycle
  simp only [hsync, htruncate, hlastCrc, h.tailLogFileDesc, h.state_eq, hcreate, hcrc, hmetadata,
    hhardState, hnextEntry, hsync', hfinalize, hopen, ok_bind]
  rfl

theorem Represents.save_nil_exists (hpage : 0 < cfg.alignmentPageSize)
    (hfits : (Record.hardState st).Fits codecs pool)
    (hrotate : ∀ r ∈ (J.saveHardState codecs st).rotateRecords codecs, r.Fits codecs pool) :
    ∃ w' dir', w.save codecs dir st [] = .ok (w', dir') := by
  obtain ⟨w₁, dir₁, hhardState⟩ := h.saveHardState_exists hpage hfits
  have h₁ := h.saveHardState hhardState
  unfold Wal.save
  simp only [if_true, ok_bind, hhardState]
  split
  · exact h₁.cycle_exists hpage hrotate
  · split
    · exact h₁.sync_exists
    · exact ⟨_, _, rfl⟩

theorem Represents.saveSnapshot_exists (hpage : 0 < cfg.alignmentPageSize)
    (hfits : (Record.snapshot snapshot.toWal).Fits codecs pool) :
    ∃ w' dir', w.saveSnapshot codecs dir snapshot = .ok (w', dir') := by
  obtain ⟨l, dir₁, hencode⟩ := h.encode_exists hpage hfits
  have h₁ := h.encode hencode { w.state with
    lastEntryIndex := max w.state.lastEntryIndex snapshot.metadata.index } w.entryIndexStorage
  unfold Wal.saveSnapshot
  rw [LogFile.snapshot, if_neg (by simp [Snapshot.toWal]), hencode, ok_bind]
  exact h₁.sync_exists

end

end Babuza.Babuzawal
