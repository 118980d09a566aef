import Babuza.Babuzawal.Restart

/-!
# What the operations of the log leave alone

Writing to the current file changes its content and nothing else about the files: no file appears or
goes away and the manager knows the same ones. Only `cycle` makes a new file known. These facts hold
of every log, not only of one that a journal describes, so they can be used after a purge or a
damaged restart as well.
-/

namespace Babuza.Babuzawal

open Lib Allocator Walbase

variable {codecs : RaftCodecs}

/-! ## One file -/

namespace Writer

variable {file file' data : Bytes} {p q : Writer}

theorem copy_segmentSize (h : p.copy data = .ok q) : q.segmentSize = p.segmentSize := by
  unfold copy at h
  split at h <;> cases h
  rfl

theorem writeAligned_segmentSize (h : p.writeAligned file data = .ok (q, file')) :
    q.segmentSize = p.segmentSize := by
  obtain ⟨⟨p₁, file₁⟩, hflush, h⟩ := bind_eq_ok.mp h
  obtain ⟨p₂, hcopy, h⟩ := bind_eq_ok.mp h
  unfold flush at hflush
  split at hflush <;> cases hflush
  cases h
  have hsize := copy_segmentSize hcopy
  exact hsize

theorem writeData_segmentSize (h : p.writeData file data = .ok (q, file')) :
    q.segmentSize = p.segmentSize := by
  unfold writeData at h
  split at h
  · obtain ⟨p₁, hcopy, h⟩ := bind_eq_ok.mp h
    cases h
    exact copy_segmentSize hcopy
  · split at h
    · cases h
    · simp only at h
      split at h
      · exact writeAligned_segmentSize h
      · split at h
        · obtain ⟨p₁, hcopy, h⟩ := bind_eq_ok.mp h
          cases h
          exact copy_segmentSize hcopy
        · obtain ⟨p₁, hcopy, h⟩ := bind_eq_ok.mp h
          exact (writeAligned_segmentSize h).trans (copy_segmentSize hcopy)

end Writer

def recordSize (codecs : RaftCodecs) (r : Record) : Nat :=
  headerSize + (r.body codecs).length + calcPadding (r.body codecs).length

namespace LogFile

variable {l l' : LogFile} {dir dir' : Directory}

theorem withFile_keeps {op : Writer → Bytes → Except WalError (Writer × Bytes)}
    (h : l.withFile dir op = .ok (l', dir')) : l'.name = l.name ∧ ∀ n, n ∈ dir' ↔ n ∈ dir := by
  unfold withFile at h
  split at h
  · cases h
  next file hfile =>
    obtain ⟨⟨pw, file'⟩, hop, h⟩ := bind_eq_ok.mp h
    cases h
    exact ⟨rfl, (Updates.insert hfile file').mem_iff⟩

theorem encode_keeps {r : Record} (h : l.encode codecs dir r = .ok (l', dir')) :
    l'.name = l.name ∧ ∀ n, n ∈ dir' ↔ n ∈ dir := by
  obtain ⟨⟨data, crc⟩, hencode, h⟩ := bind_eq_ok.mp h
  obtain ⟨⟨l₁, dir₁⟩, hwith, h⟩ := bind_eq_ok.mp h
  cases h
  have hkeeps := withFile_keeps hwith
  exact hkeeps

theorem encode_size {r : Record} (h : l.encode codecs dir r = .ok (l', dir')) :
    l'.pw.segmentSize = l.pw.segmentSize ∧ l'.offset = l.offset + recordSize codecs r := by
  obtain ⟨⟨data, crc⟩, hencode, h⟩ := bind_eq_ok.mp h
  obtain ⟨⟨l₁, dir₁⟩, hwith, h⟩ := bind_eq_ok.mp h
  cases h
  have hdata : data = r.bytes codecs l.enc.currentCrc :=
    congrArg Prod.fst (Except.ok.inj (hencode.symm.trans
      (Record.encode_eq (Record.fits_of_encode hencode))))
  unfold withFile at hwith
  split at hwith
  · cases hwith
  · obtain ⟨⟨pw, file'⟩, hwrite, hwith⟩ := bind_eq_ok.mp hwith
    cases hwith
    obtain ⟨⟨q, file''⟩, hdata', hwrite⟩ := bind_eq_ok.mp hwrite
    cases hwrite
    have hsegment : q.segmentSize = l.pw.segmentSize := Writer.writeData_segmentSize hdata'
    refine ⟨hsegment, ?_⟩
    unfold offset recordSize
    rw [hdata, Record.bytes, frame_length]

end LogFile

/-! ## The log -/

/-- The two logs write to the same file, and the files are the same. -/
structure SameFiles (w : Wal) (dir : Directory) (w' : Wal) (dir' : Directory) : Prop where
  name_eq : w'.currentLogFile.name = w.currentLogFile.name
  logMgr_eq : w'.logMgr = w.logMgr
  mem_iff : ∀ n, n ∈ dir' ↔ n ∈ dir

variable {dir dir' dir'' : Directory} {w w' w'' : Wal}

theorem SameFiles.refl : SameFiles w dir w dir :=
  ⟨rfl, rfl, fun _ => Iff.rfl⟩

theorem SameFiles.trans (h : SameFiles w dir w' dir') (h' : SameFiles w' dir' w'' dir'') :
    SameFiles w dir w'' dir'' :=
  ⟨h'.name_eq.trans h.name_eq, h'.logMgr_eq.trans h.logMgr_eq,
    fun n => (h'.mem_iff n).trans (h.mem_iff n)⟩

namespace Wal

theorem saveNextEntry_keeps {e : Entry} (h : w.saveNextEntry codecs dir e = .ok (w', dir')) :
    SameFiles w dir w' dir' ∧ w'.state.hardState = w.state.hardState := by
  unfold saveNextEntry at h
  split at h
  · obtain ⟨⟨l, dir₁⟩, hencode, h⟩ := bind_eq_ok.mp h
    cases h
    obtain ⟨hname, hmem⟩ := LogFile.encode_keeps hencode
    exact ⟨⟨hname, rfl, hmem⟩, rfl⟩
  · cases h
    exact ⟨.refl, rfl⟩

variable {xs : List (EntryIndex EntryIndexMetadata)}

theorem saveOne_keeps {e : Entry} (h : w.saveOne codecs dir e = .ok (w', dir', xs)) :
    SameFiles w dir w' dir' ∧ w'.state.hardState = w.state.hardState := by
  obtain ⟨⟨w₁, dir₁⟩, hnext, h⟩ := bind_eq_ok.mp h
  obtain ⟨xs', hxs, h⟩ := bind_eq_ok.mp h
  obtain ⟨⟨l, dir₂⟩, hencode, h⟩ := bind_eq_ok.mp h
  cases h
  obtain ⟨hfiles, hst⟩ := saveNextEntry_keeps hnext
  obtain ⟨hname, hmem⟩ := LogFile.encode_keeps hencode
  exact ⟨hfiles.trans ⟨hname, rfl, hmem⟩, hst⟩

theorem saveEntries_keeps {entries : List Entry}
    (h : w.saveEntries codecs dir entries = .ok (w', dir', xs)) :
    SameFiles w dir w' dir' ∧ w'.state.hardState = w.state.hardState := by
  induction entries generalizing w dir xs with
  | nil =>
    cases h
    exact ⟨.refl, rfl⟩
  | cons e entries ih =>
    obtain ⟨⟨w₁, dir₁, x⟩, hone, h⟩ := bind_eq_ok.mp h
    obtain ⟨⟨w₂, dir₂, ys⟩, hrest, h⟩ := bind_eq_ok.mp h
    cases h
    obtain ⟨hfiles, hst⟩ := saveOne_keeps hone
    obtain ⟨hfiles', hst'⟩ := ih hrest
    exact ⟨hfiles.trans hfiles', hst'.trans hst⟩

theorem saveEntry_keeps {entries : List Entry}
    (h : w.saveEntry codecs dir entries = .ok (w', dir')) :
    SameFiles w dir w' dir' ∧ w'.state.hardState = w.state.hardState := by
  obtain ⟨⟨w₁, dir₁, xs⟩, hentries, h⟩ := bind_eq_ok.mp h
  obtain ⟨hfiles, hst⟩ := saveEntries_keeps hentries
  simp only at h
  split at h
  · cases h
    exact ⟨hfiles, hst⟩
  · obtain ⟨es, hes, h⟩ := bind_eq_ok.mp h
    cases h
    exact ⟨{ hfiles with }, hst⟩

section

variable {st : HardState} (h : w.saveHardState codecs dir st = .ok (w', dir'))
include h

theorem saveHardState_keeps : SameFiles w dir w' dir' := by
  unfold saveHardState at h
  split at h
  · cases h
    exact .refl
  · obtain ⟨⟨l, dir₁⟩, hencode, h⟩ := bind_eq_ok.mp h
    cases h
    obtain ⟨hname, hmem⟩ := LogFile.encode_keeps hencode
    exact ⟨hname, rfl, hmem⟩

theorem saveHardState_hardState :
    w'.state.hardState = if isEmptyHardState st then w.state.hardState else st := by
  unfold saveHardState at h
  split at h
  next hempty =>
    cases h
    rw [if_pos hempty]
  next hempty =>
    obtain ⟨⟨l, dir₁⟩, hencode, h⟩ := bind_eq_ok.mp h
    cases h
    rw [if_neg hempty]

end

theorem sync_keeps (h : w.sync dir = .ok (w', dir')) :
    SameFiles w dir w' dir' ∧ w'.state = w.state := by
  obtain ⟨⟨l, dir₁⟩, hsync, h⟩ := bind_eq_ok.mp h
  cases h
  obtain ⟨hname, hmem⟩ := LogFile.withFile_keeps hsync
  exact ⟨⟨hname, rfl, hmem⟩, rfl⟩

theorem saveSnapshot_keeps {snapshot : Snapshot}
    (h : w.saveSnapshot codecs dir snapshot = .ok (w', dir')) :
    SameFiles w dir w' dir' ∧ w'.state.hardState = w.state.hardState := by
  obtain ⟨⟨l, dir₁⟩, hencode, hsync⟩ := bind_eq_ok.mp h
  obtain ⟨hfiles, hstate⟩ := sync_keeps hsync
  have hl : l.name = w.currentLogFile.name ∧ ∀ n, n ∈ dir₁ ↔ n ∈ dir := by
    unfold LogFile.snapshot at hencode
    split at hencode
    · cases hencode
    · exact LogFile.encode_keeps hencode
  refine ⟨⟨hfiles.name_eq.trans hl.1, hfiles.logMgr_eq, fun n => (hfiles.mem_iff n).trans (hl.2 n)⟩,
    ?_⟩
  rw [hstate]

/-- The file that `cycle` starts. -/
def nextDesc (w : Wal) : LogFileDesc :=
  ⟨w.logMgr.nextLogId, w.state.lastEntryIndex + 1, false⟩

/-- `cycle` makes one new file known, which takes the place of its temporary name. -/
structure Cycled (w : Wal) (dir : Directory) (w' : Wal) (dir' : Directory) : Prop where
  name_eq : w'.currentLogFile.name = w.nextDesc.getLogFileName
  filesDesc_eq : w'.logMgr.filesDesc = w.logMgr.filesDesc.insert w.nextDesc.id w.nextDesc
  nextLogId_eq : w'.logMgr.nextLogId = w.logMgr.nextLogId + 1
  state_eq : w'.state = w.state
  mem_iff : ∀ n, n ∈ dir' ↔ n = w.nextDesc.getLogFileName ∨
    n ≠ w.nextDesc.getTempLogFileName ∧ n ∈ dir

variable {m m' : Manager} {id start : Nat} {l : LogFile}

theorem createNextTempLogFile_ok (h : m.createNextTempLogFile dir id start = .ok (l, m', dir')) :
    id = m.nextLogId ∧ l.name = ⟨.temp, id, start⟩ ∧
      m' = { m with filesDesc := m.filesDesc.insert id ⟨id, start, true⟩,
                    nextLogId := m.nextLogId + 1 } ∧
      ∀ n, n ∈ dir' ↔ n = ⟨.temp, id, start⟩ ∨ n ∈ dir := by
  unfold Manager.createNextTempLogFile at h
  split at h
  · cases h
  next hid =>
    cases h
    exact ⟨(not_not.mp hid).symm, rfl, rfl, fun n => AList.mem_insert _⟩

theorem finalizeTempLogFile_ok (hdesc : m.filesDesc.lookup id = some ⟨id, start, true⟩)
    (h : m.finalizeTempLogFile dir id = .ok (m', dir')) :
    m' = { m with filesDesc := m.filesDesc.insert id ⟨id, start, false⟩ } ∧
      ∀ n, n ∈ dir' ↔ n = ⟨.log, id, start⟩ ∨ n ≠ ⟨.temp, id, start⟩ ∧ n ∈ dir := by
  unfold Manager.finalizeTempLogFile at h
  rw [hdesc] at h
  obtain ⟨dir₁, hrename, h⟩ := bind_eq_ok.mp h
  cases h
  refine ⟨rfl, fun n => ?_⟩
  unfold rename at hrename
  split at hrename <;> cases hrename
  rw [AList.mem_insert, AList.mem_erase]
  rfl

theorem openLogFile_name {seekTo : Nat} {crc : UInt32} {desc : LogFileDesc}
    (hdesc : m.filesDesc.lookup id = some desc) (h : m.openLogFile dir id seekTo crc = .ok l) :
    l.name = desc.getLogFileName := by
  unfold Manager.openLogFile at h
  rw [hdesc] at h
  simp only at h
  split at h
  · cases h
  · obtain ⟨_, -, h⟩ := bind_eq_ok.mp h
    cases h
    rfl

theorem cycle_cycled (h : w.cycle codecs dir = .ok (w', dir')) : Cycled w dir w' dir' := by
  obtain ⟨⟨l₁, dir₁⟩, hsync, h⟩ := bind_eq_ok.mp h
  obtain ⟨⟨l₂, dir₂⟩, htruncate, h⟩ := bind_eq_ok.mp h
  obtain ⟨tail, htail, h⟩ := bind_eq_ok.mp h
  obtain ⟨⟨next₀, m, dir₃⟩, hcreate, h⟩ := bind_eq_ok.mp h
  obtain ⟨⟨next₁, dir₄⟩, hcrc, h⟩ := bind_eq_ok.mp h
  obtain ⟨⟨next₂, dir₅⟩, hmetadata, h⟩ := bind_eq_ok.mp h
  obtain ⟨⟨next₃, dir₆⟩, hhard, h⟩ := bind_eq_ok.mp h
  obtain ⟨⟨next₄, dir₇⟩, hnext, h⟩ := bind_eq_ok.mp h
  obtain ⟨⟨next₅, dir₈⟩, hsync', h⟩ := bind_eq_ok.mp h
  obtain ⟨⟨m', dir₉⟩, hfinalize, h⟩ := bind_eq_ok.mp h
  obtain ⟨cur, hopen, h⟩ := bind_eq_ok.mp h
  cases h
  obtain ⟨-, hmem₁⟩ := LogFile.withFile_keeps hsync
  obtain ⟨-, hmem₂⟩ := LogFile.withFile_keeps htruncate
  obtain ⟨hid, -, rfl, hmem₃⟩ := createNextTempLogFile_ok hcreate
  obtain ⟨-, hmem₄⟩ := LogFile.encode_keeps hcrc
  obtain ⟨-, hmem₅⟩ := LogFile.encode_keeps hmetadata
  obtain ⟨-, hmem₆⟩ := LogFile.encode_keeps hhard
  have hmem₇ : ∀ n, n ∈ dir₇ ↔ n ∈ dir₆ := by
    split at hnext
    · cases hnext
      exact fun _ => Iff.rfl
    · exact (LogFile.encode_keeps hnext).2
  obtain ⟨-, hmem₈⟩ := LogFile.withFile_keeps hsync'
  rw [hid] at hfinalize hopen hmem₃
  obtain ⟨rfl, hmem₉⟩ := finalizeTempLogFile_ok (AList.lookup_insert _) hfinalize
  refine ⟨openLogFile_name (AList.lookup_insert _) hopen, ?_, rfl, rfl, fun n => ?_⟩
  · simp only [AList.insert_insert]
    rfl
  · rw [hmem₉, hmem₈, hmem₇, hmem₆, hmem₅, hmem₄, hmem₃, hmem₂, hmem₁]
    tauto

end Wal

theorem WalOp.exec_files {op : WalOp} (h : op.exec codecs (w, dir) = .ok (w', dir')) :
    SameFiles w dir w' dir' ∨
      ∃ w₁ dir₁, SameFiles w dir w₁ dir₁ ∧ Wal.Cycled w₁ dir₁ w' dir' := by
  cases op with
  | saveSnapshot snapshot => exact .inl (Wal.saveSnapshot_keeps h).1
  | save st entries =>
    obtain ⟨⟨w₁, dir₁⟩, hentries, h⟩ := bind_eq_ok.mp h
    obtain ⟨⟨w₂, dir₂⟩, hst, h⟩ := bind_eq_ok.mp h
    have h₁ : SameFiles w dir w₁ dir₁ := by
      split at hentries
      · cases hentries
        exact .refl
      · exact (Wal.saveEntry_keeps hentries).1
    have h₂ := h₁.trans (Wal.saveHardState_keeps hst)
    simp only at h
    split at h
    · exact .inr ⟨w₂, dir₂, h₂, Wal.cycle_cycled h⟩
    · split at h
      · exact .inl (h₂.trans (Wal.sync_keeps h).1)
      · cases h
        exact .inl h₂

end Babuza.Babuzawal
