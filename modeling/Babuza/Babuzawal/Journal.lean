import Babuza.Babuzawal.Native
import Babuza.Babuzawal.Segments

/-!
# The log as a journal of records

`Journal` is the native log without bytes: closed segments, the segment being written, the bytes
behind it and the in-memory state. `Represents` relates it to a `Wal` and its directory, and every
operation of the `Wal` that succeeds is the operation of the same name of the journal
(`save_represents`, `saveSnapshot_represents`, `createWal_represents`). What is said about
recovery is then said about records.
-/

namespace Babuza.Babuzawal

open Lib Allocator Walbase List

structure Journal where
  closed : List Segment
  current : Segment
  tail : Bytes
  state : WalState
  /-- How many records the current file had when it was renamed into place. -/
  created : Nat
  deriving DecidableEq

namespace Journal

variable (codecs : RaftCodecs)

def segments (J : Journal) : List Segment := J.closed ++ [J.current]

def freshTail (chunkSize : Nat) (rs : List Record) : Bytes :=
  zeros (chunkSize - (contents codecs rs).length)

def append (J : Journal) (r : Record) : Journal :=
  { J with
    current := { J.current with records := J.current.records ++ [r] }
    tail := J.tail.drop (LogFile.added codecs J.current.records r).length }

def setState (J : Journal) (state : WalState) : Journal := { J with state := state }

/-- `CreateWal`. -/
def create (chunkSize : Nat) (metadata : Bytes) : Journal where
  closed := []
  current := ⟨0, 0, [.crc 0, .metadata metadata, .snapshot .empty]⟩
  tail := freshTail codecs chunkSize [.crc 0, .metadata metadata, .snapshot .empty]
  state := ⟨metadata, ⟨0, 0⟩, .empty, 0⟩
  created := 3

def saveNextEntry (J : Journal) (e : Entry) : Journal :=
  if J.state.nextEntry ≠ ⟨e.term, e.index⟩ then
    (J.append codecs (.nextEntry ⟨e.term, e.index⟩)).setState
      { J.state with nextEntry := ⟨e.term, e.index⟩ }
  else J

def saveOne (J : Journal) (e : Entry) : Journal :=
  let J := J.saveNextEntry codecs e
  (J.append codecs (.entry e.type e.data)).setState
    { J.state with
      nextEntry := { J.state.nextEntry with nextIndex := e.index + 1 }
      lastEntryIndex := e.index }

def saveEntries (J : Journal) (entries : List Entry) : Journal := entries.foldl (saveOne codecs) J

def saveHardState (J : Journal) (st : HardState) : Journal :=
  if isEmptyHardState st then J
  else (J.append codecs (.hardState st)).setState { J.state with hardState := st }

def rotateRecords (J : Journal) : List Record :=
  [.crc (crcAfter codecs 0 J.current.records), .metadata J.state.metadata,
    .hardState J.state.hardState] ++
    if J.state.emptyNextEntry then [] else [.nextEntry J.state.nextEntry]

/-- `cycle`. -/
def rotate (chunkSize : Nat) (J : Journal) : Journal where
  closed := J.closed ++ [J.current]
  current := ⟨J.current.id + 1, J.state.lastEntryIndex + 1, J.rotateRecords codecs⟩
  tail := freshTail codecs chunkSize (J.rotateRecords codecs)
  state := J.state
  created := (J.rotateRecords codecs).length

def offset (J : Journal) : Nat := (contents codecs J.current.records).length

def save (chunkSize : Nat) (J : Journal) (st : HardState) (entries : List Entry) : Journal :=
  let J := (J.saveEntries codecs entries).saveHardState codecs st
  if chunkSize < J.offset codecs then J.rotate codecs chunkSize else J

def saveSnapshot (J : Journal) (snapshot : Snapshot) : Journal :=
  (J.append codecs (.snapshot snapshot.toWal)).setState
    { J.state with lastEntryIndex := max J.state.lastEntryIndex snapshot.metadata.index }

variable {codecs}

theorem freshTail_drop (chunkSize : Nat) (rs : List Record) (r : Record) :
    (freshTail codecs chunkSize rs).drop (LogFile.added codecs rs r).length =
      freshTail codecs chunkSize (rs ++ [r]) := by
  rw [freshTail, zeros_drop, freshTail, LogFile.contents_append_singleton, length_append,
    Nat.sub_sub]

end Journal

structure Represents (codecs : RaftCodecs) (cfg : ManagerConfig) (pool : ByteSlicePool) (w : Wal)
    (dir : Directory) (J : Journal) : Prop where
  state_eq : w.state = J.state
  ids : ∃ base, Consecutive Segment.id base J.segments
  mem_dir : ∀ name ∈ dir, name.kind ≠ .broken → ∃ s ∈ J.segments, name = s.name
  lookup_closed : ∀ s ∈ J.closed, dir.lookup s.name = some (contents codecs s.records)
  holds : w.currentLogFile.Holds codecs dir J.current.records J.tail
  name_eq : w.currentLogFile.name = J.current.name
  fits : ∀ s ∈ J.segments, ∀ r ∈ s.records, r.Fits codecs pool
  nextLogId_eq : w.logMgr.nextLogId = J.current.id + 1
  desc_eq : w.logMgr.filesDesc.lookup J.current.id = some J.current.desc
  cfg_eq : w.logMgr.cfg = cfg
  memPool_eq : w.logMgr.memPool = pool
  segmentSize_eq : w.currentLogFile.pw.segmentSize = cfg.logFileChunkSize
  pageSize_eq : w.currentLogFile.pw.pageSize = cfg.alignmentPageSize
  encPool_eq : w.currentLogFile.enc.memPool = pool

variable {dir₀ dir₁ : Directory} {id start : Nat} {segs : List Segment} {m m' : Manager}

section Represents

variable {codecs : RaftCodecs} {cfg : ManagerConfig} {pool : ByteSlicePool} {w w' : Wal}
  {dir dir' : Directory} {J : Journal}

variable {l : LogFile} {rs : List Record}

section

variable (h : Represents codecs cfg pool w dir J)
include h

theorem Represents.closed_name_ne {s : Segment} (hs : s ∈ J.closed) : s.name ≠ J.current.name := by
  obtain ⟨base, hids⟩ := h.ids
  obtain ⟨hclosed, hcurrent⟩ := consecutive_append.mp hids
  exact Segment.name_ne_of_consecutive hclosed hs (consecutive_cons.mp hcurrent).1

theorem Represents.update {tail : Bytes} (hholds : l.Holds codecs dir' rs tail)
    (hframe : w.currentLogFile.Frame dir l dir') (hfits : ∀ r ∈ rs, r.Fits codecs pool)
    (state : WalState) (es : Option (EntryStorage EntryIndexMetadata)) :
    Represents codecs cfg pool
      { w with state := state, currentLogFile := l, entryIndexStorage := es } dir'
      { J with
        current := { J.current with records := rs }
        tail := tail
        state := state } where
  state_eq := rfl
  ids := by
    obtain ⟨base, hids⟩ := h.ids
    obtain ⟨hclosed, hcurrent⟩ := consecutive_append.mp hids
    exact ⟨base, consecutive_append.mpr ⟨hclosed, consecutive_cons.mpr
      ⟨(consecutive_cons.mp hcurrent).1, consecutive_nil⟩⟩⟩
  mem_dir := by
    intro name hname hkind
    obtain ⟨s, hs, rfl⟩ := h.mem_dir name ((hframe.updates.mem_iff name).mp hname) hkind
    rcases mem_append.mp hs with hs | hs
    · exact ⟨s, mem_append_left _ hs, rfl⟩
    · cases mem_singleton.mp hs
      exact ⟨_, mem_concat_self, rfl⟩
  lookup_closed := by
    intro s hs
    rw [hframe.updates.lookup_ne _ (by rw [h.name_eq]; exact h.closed_name_ne hs)]
    exact h.lookup_closed s hs
  holds := hholds
  name_eq := hframe.name_eq.trans h.name_eq
  fits := forall_mem_concat.mpr ⟨fun s hs => h.fits s (mem_append_left _ hs), hfits⟩
  nextLogId_eq := h.nextLogId_eq
  desc_eq := h.desc_eq
  cfg_eq := h.cfg_eq
  memPool_eq := h.memPool_eq
  segmentSize_eq := hframe.segmentSize_eq.trans h.segmentSize_eq
  pageSize_eq := hframe.pageSize_eq.trans h.pageSize_eq
  encPool_eq := hframe.memPool_eq.trans h.encPool_eq

theorem Represents.fits_current : ∀ r ∈ J.current.records, r.Fits codecs pool :=
  h.fits J.current (by simp [Journal.segments])

theorem Represents.encode {r : Record}
    (hencode : w.currentLogFile.encode codecs dir r = .ok (l, dir')) (state : WalState)
    (es : Option (EntryStorage EntryIndexMetadata)) :
    Represents codecs cfg pool
      { w with state := state, currentLogFile := l, entryIndexStorage := es } dir'
      ((J.append codecs r).setState state) := by
  obtain ⟨hholds, hfits, hframe⟩ := h.holds.encode hencode
  refine h.update hholds hframe (forall_mem_concat.mpr ⟨h.fits_current, ?_⟩) state es
  rwa [← h.encPool_eq]

theorem Represents.sync :
    ∃ l dir', w.currentLogFile.sync dir = .ok (l, dir') ∧
      Represents codecs cfg pool { w with currentLogFile := l } dir' J ∧
      dir'.lookup J.current.name = some (contents codecs J.current.records ++ J.tail) := by
  obtain ⟨l, dir', hsync, hholds, hframe, hlookup⟩ := h.holds.sync
  have hrep := h.update hholds hframe h.fits_current w.state w.entryIndexStorage
  rw [h.state_eq] at hrep
  refine ⟨l, dir', hsync, ?_, by rwa [h.name_eq] at hlookup⟩
  rw [show ({ w with currentLogFile := l } : Wal) =
    { w with state := J.state, currentLogFile := l, entryIndexStorage := w.entryIndexStorage } by
      rw [← h.state_eq]]
  exact hrep

theorem Represents.sync_ok (hsync : w.sync dir = .ok (w', dir')) :
    Represents codecs cfg pool w' dir' J := by
  obtain ⟨l, d, heq, hrep, -⟩ := h.sync
  simp only [Wal.sync, heq, ok_bind] at hsync
  cases hsync
  exact hrep

end

/-! ## Saving -/

theorem Represents.saveNextEntry {e : Entry} (h : Represents codecs cfg pool w dir J)
    (hsave : w.saveNextEntry codecs dir e = .ok (w', dir')) :
    Represents codecs cfg pool w' dir' (J.saveNextEntry codecs e) := by
  rw [Wal.saveNextEntry, h.state_eq] at hsave
  rw [Journal.saveNextEntry]
  by_cases hnext : J.state.nextEntry ≠ ⟨e.term, e.index⟩
  · rw [if_pos hnext] at hsave ⊢
    obtain ⟨⟨l, d⟩, hencode, hpure⟩ := bind_eq_ok.mp hsave
    cases hpure
    exact h.encode hencode _ _
  · rw [if_neg hnext] at hsave ⊢
    cases hsave
    exact h

variable {xs : List (EntryIndex EntryIndexMetadata)}

theorem Represents.saveOne {e : Entry} (h : Represents codecs cfg pool w dir J)
    (hsave : w.saveOne codecs dir e = .ok (w', dir', xs)) :
    Represents codecs cfg pool w' dir' (J.saveOne codecs e) := by
  obtain ⟨⟨w₁, dir₁⟩, hnext, hsave⟩ := bind_eq_ok.mp hsave
  obtain ⟨idx, -, hsave⟩ := bind_eq_ok.mp hsave
  obtain ⟨⟨l, d⟩, hencode, hpure⟩ := bind_eq_ok.mp hsave
  cases hpure
  have h₁ := h.saveNextEntry hnext
  have hrep := h₁.encode hencode
    { w₁.state with
      nextEntry := { w₁.state.nextEntry with nextIndex := e.index + 1 }
      lastEntryIndex := e.index } w₁.entryIndexStorage
  rw [h₁.state_eq] at hrep ⊢
  exact hrep

variable {entries : List Entry}

section

variable (h : Represents codecs cfg pool w dir J)
include h

theorem Represents.saveEntries (hsave : w.saveEntries codecs dir entries = .ok (w', dir', xs)) :
    Represents codecs cfg pool w' dir' (J.saveEntries codecs entries) := by
  induction entries generalizing w dir J xs with
  | nil =>
    cases hsave
    exact h
  | cons e entries ih =>
    obtain ⟨⟨w₁, dir₁, x⟩, hone, hsave⟩ := bind_eq_ok.mp hsave
    obtain ⟨⟨w₂, dir₂, xs'⟩, hrest, hpure⟩ := bind_eq_ok.mp hsave
    cases hpure
    exact ih (h.saveOne hone) hrest

theorem Represents.setEntryIndexStorage (es : Option (EntryStorage EntryIndexMetadata)) :
    Represents codecs cfg pool { w with entryIndexStorage := es } dir J :=
  { h with }

theorem Represents.saveEntry (hsave : w.saveEntry codecs dir entries = .ok (w', dir')) :
    Represents codecs cfg pool w' dir' (J.saveEntries codecs entries) := by
  obtain ⟨⟨w₁, dir₁, xs⟩, hentries, hsave⟩ := bind_eq_ok.mp hsave
  have h₁ := h.saveEntries hentries
  simp only at hsave
  split at hsave
  · cases hsave
    exact h₁
  · obtain ⟨es, -, hpure⟩ := bind_eq_ok.mp hsave
    cases hpure
    exact h₁.setEntryIndexStorage _

end

variable {st : HardState}

theorem Represents.saveHardState (h : Represents codecs cfg pool w dir J)
    (hsave : w.saveHardState codecs dir st = .ok (w', dir')) :
    Represents codecs cfg pool w' dir' (J.saveHardState codecs st) := by
  rw [Wal.saveHardState] at hsave
  rw [Journal.saveHardState]
  by_cases hempty : isEmptyHardState st
  · rw [if_pos hempty] at hsave ⊢
    cases hsave
    exact h
  · rw [if_neg hempty] at hsave ⊢
    obtain ⟨⟨l, d⟩, hencode, hpure⟩ := bind_eq_ok.mp hsave
    cases hpure
    rw [← h.state_eq]
    exact h.encode hencode _ _

/-! ## New files -/

/-- The file `name` is being written before it is renamed: it consists of the records `rs` and
preallocated space, and the rest of the directory is `dir₀`. -/
structure Building (codecs : RaftCodecs) (cfg : ManagerConfig) (pool : ByteSlicePool)
    (dir₀ : Directory) (name : FileName) (rs : List Record) (l : LogFile) (dir : Directory) :
    Prop where
  holds : l.Holds codecs dir rs (Journal.freshTail codecs cfg.logFileChunkSize rs)
  name_eq : l.name = name
  memPool_eq : l.enc.memPool = pool
  pageSize_eq : l.pw.pageSize = cfg.alignmentPageSize
  fits : ∀ r ∈ rs, r.Fits codecs pool
  lookup_ne : ∀ n, n ≠ name → dir.lookup n = dir₀.lookup n
  mem_iff : ∀ n, n ∈ dir ↔ n = name ∨ n ∈ dir₀

namespace Building

variable {name : FileName} {l' : LogFile} {r : Record}

theorem update {rs' : List Record} (h : Building codecs cfg pool dir₀ name rs l dir)
    (hholds : l'.Holds codecs dir' rs' (Journal.freshTail codecs cfg.logFileChunkSize rs'))
    (hframe : l.Frame dir l' dir') (hfits : ∀ r ∈ rs', r.Fits codecs pool) :
    Building codecs cfg pool dir₀ name rs' l' dir' where
  holds := hholds
  name_eq := hframe.name_eq.trans h.name_eq
  memPool_eq := hframe.memPool_eq.trans h.memPool_eq
  pageSize_eq := hframe.pageSize_eq.trans h.pageSize_eq
  fits := hfits
  lookup_ne n hn := by
    rw [hframe.updates.lookup_ne n (by rwa [h.name_eq]), h.lookup_ne n hn]
  mem_iff n := by rw [hframe.updates.mem_iff, h.mem_iff]

theorem encode (h : Building codecs cfg pool dir₀ name rs l dir)
    (hencode : l.encode codecs dir r = .ok (l', dir')) :
    Building codecs cfg pool dir₀ name (rs ++ [r]) l' dir' := by
  obtain ⟨hholds, hfits, hframe⟩ := h.holds.encode hencode
  rw [Journal.freshTail_drop] at hholds
  rw [h.memPool_eq] at hfits
  exact h.update hholds hframe (forall_mem_concat.mpr ⟨h.fits, hfits⟩)

theorem sync (h : Building codecs cfg pool dir₀ name rs l dir)
    (hsync : l.sync dir = .ok (l', dir')) :
    Building codecs cfg pool dir₀ name rs l' dir' ∧
      dir'.lookup name =
        some (contents codecs rs ++ Journal.freshTail codecs cfg.logFileChunkSize rs) := by
  obtain ⟨l₁, dir₁, heq, hholds, hframe, hlookup⟩ := h.holds.sync
  rw [heq] at hsync
  cases hsync
  rw [h.name_eq] at hlookup
  exact ⟨h.update hholds hframe h.fits, hlookup⟩

end Building

theorem building_create (codecs : RaftCodecs) (hnew : (⟨.temp, id, start⟩ : FileName) ∉ dir)
    (hcreate : m.createNextTempLogFile dir id start = .ok (l, m', dir')) :
    Building codecs m.cfg m.memPool dir ⟨.temp, id, start⟩ [] l dir' ∧ id = m.nextLogId ∧
      m' = { m with
        filesDesc := m.filesDesc.insert id ⟨id, start, true⟩
        nextLogId := m.nextLogId + 1 } := by
  have hlookup : dir.lookup ⟨.temp, id, start⟩ = none := AList.lookup_eq_none.mpr hnew
  rw [Manager.createNextTempLogFile] at hcreate
  split at hcreate
  · cases hcreate
  rename_i hid
  simp only [LogFileDesc.getTempLogFileName, hlookup, Option.getD_none,
    createLogFileHandle_nil] at hcreate
  cases hcreate
  refine ⟨⟨?_, rfl, rfl, rfl, by simp, fun n hn => AList.lookup_insert_ne hn, fun n =>
    AList.mem_insert dir⟩, (not_not.mp hid).symm, rfl⟩
  have hfile : (dir.insert ⟨.temp, id, start⟩ (logFileHeader ++
      zeros (m.cfg.logFileChunkSize - logFileHeaderLength))).lookup ⟨.temp, id, start⟩ =
      some (contents codecs [] ++ zeros (m.cfg.logFileChunkSize - logFileHeaderLength)) := by
    rw [AList.lookup_insert, contents, encodeRecords_nil, append_nil]
  have hholds := Manager.newLogFile_holds (m := m) hfile
  rw [Journal.freshTail]
  rw [contents, encodeRecords_nil, append_nil, logFileHeader_length] at hholds ⊢
  exact hholds

theorem building_finish (hids : ∃ base, Consecutive Segment.id base segs ∧ id = base + segs.length)
    (hmem : ∀ n ∈ dir₀, n.kind ≠ .broken → ∃ s ∈ segs, n = s.name)
    (hlookup : ∀ s ∈ segs, dir₀.lookup s.name = some (contents codecs s.records))
    (hfits : ∀ s ∈ segs, ∀ r ∈ s.records, r.Fits codecs m.memPool)
    (hbuild : Building codecs m.cfg m.memPool dir₀ ⟨.temp, id, start⟩ rs l dir)
    (hsynced : dir.lookup ⟨.temp, id, start⟩ =
      some (contents codecs rs ++ Journal.freshTail codecs m.cfg.logFileChunkSize rs))
    (hdesc : m.filesDesc.lookup id = some ⟨id, start, true⟩) (hnext : m.nextLogId = id + 1) :
    ∃ m' dir' cur, m.finalizeTempLogFile dir id = .ok (m', dir') ∧
      m'.openLogFile dir' id l.offset l.lastCrc = .ok cur ∧
      ∀ state es, Represents codecs m.cfg m.memPool ⟨m', state, cur, es⟩ dir'
        ⟨segs, ⟨id, start, rs⟩, Journal.freshTail codecs m.cfg.logFileChunkSize rs, state,
          rs.length⟩ := by
  let file := contents codecs rs ++ Journal.freshTail codecs m.cfg.logFileChunkSize rs
  let m' := { m with filesDesc := m.filesDesc.insert id ⟨id, start, false⟩ }
  let dir' : Directory := (dir.erase ⟨.temp, id, start⟩).insert ⟨.log, id, start⟩ file
  have hopened : dir'.lookup ⟨.log, id, start⟩ = some file := AList.lookup_insert _
  have hother : ∀ n : FileName, n ≠ ⟨.log, id, start⟩ → n ≠ ⟨.temp, id, start⟩ →
      dir'.lookup n = dir₀.lookup n := by
    intro n hlog htemp
    rw [AList.lookup_insert_ne hlog, AList.lookup_erase_ne htemp, hbuild.lookup_ne n htemp]
  have hfinalize : m.finalizeTempLogFile dir id = .ok (m', dir') := by
    simp only [Manager.finalizeTempLogFile, hdesc, LogFileDesc.getTempLogFileName, rename, hsynced,
      ok_bind, LogFileDesc.getLogFileName]
    rfl
  have hopen : m'.openLogFile dir' id l.offset l.lastCrc =
      .ok (m'.newLogFile ⟨.log, id, start⟩ (contents codecs rs).length (crcAfter codecs 0 rs)) := by
    rw [LogFile.offset, hbuild.holds.offset_eq, LogFile.lastCrc, hbuild.holds.crc_eq]
    have hd : m'.filesDesc.lookup id = some ⟨id, start, false⟩ := AList.lookup_insert _
    have hfile : dir'.lookup ⟨.log, id, start⟩ = some (logFileHeader ++
        (encodeRecords codecs 0 rs ++ Journal.freshTail codecs m.cfg.logFileChunkSize rs)) := by
      rw [← append_assoc]
      exact hopened
    exact Manager.openLogFile_eq hd hfile
  refine ⟨m', dir', _, hfinalize, hopen, fun state es => ?_⟩
  obtain ⟨base, hids, hlast⟩ := hids
  refine
    { state_eq := rfl
      ids := ⟨base, consecutive_append.mpr ⟨hids, consecutive_cons.mpr ⟨hlast, consecutive_nil⟩⟩⟩
      mem_dir := ?_
      lookup_closed := ?_
      holds := Manager.newLogFile_holds hopened
      name_eq := rfl
      fits := forall_mem_concat.mpr ⟨hfits, hbuild.fits⟩
      nextLogId_eq := hnext
      desc_eq := AList.lookup_insert _
      cfg_eq := rfl
      memPool_eq := rfl
      segmentSize_eq := rfl
      pageSize_eq := rfl
      encPool_eq := rfl }
  · intro n hn hkind
    rcases (AList.mem_insert _).mp hn with rfl | hn
    · exact ⟨⟨id, start, rs⟩, by simp [Journal.segments], rfl⟩
    · obtain ⟨htemp, hn⟩ := AList.mem_erase.mp hn
      rcases (hbuild.mem_iff n).mp hn with rfl | hn
      · exact absurd rfl htemp
      · obtain ⟨s, hs, rfl⟩ := hmem n hn hkind
        exact ⟨s, mem_append_left _ hs, rfl⟩
  · intro s hs
    rw [hother s.name (Segment.name_ne_of_consecutive hids hs hlast)
      (fun heq => by cases congrArg FileName.kind heq)]
    exact hlookup s hs

theorem createWal_represents {metadata : Bytes}
    (h : createWal codecs metadata (.newManager cfg pool) ∅ = .ok (w, dir)) :
    Represents codecs cfg pool w dir (.create codecs cfg.logFileChunkSize metadata) ∧
      w.entryIndexStorage = none := by
  obtain ⟨⟨l₀, m₀, dir₀⟩, hcreate, h⟩ := bind_eq_ok.mp h
  obtain ⟨⟨l₁, dir₁⟩, hcrc, h⟩ := bind_eq_ok.mp h
  obtain ⟨⟨l₂, dir₂⟩, hmetadata, h⟩ := bind_eq_ok.mp h
  obtain ⟨⟨l₃, dir₃⟩, hsnapshot, h⟩ := bind_eq_ok.mp h
  obtain ⟨⟨l₄, dir₄⟩, hsync, h⟩ := bind_eq_ok.mp h
  obtain ⟨⟨m₅, dir₅⟩, hfinalize, h⟩ := bind_eq_ok.mp h
  obtain ⟨cur, hopen, hpure⟩ := bind_eq_ok.mp h
  cases hpure
  obtain ⟨hbuild, -, rfl⟩ := building_create codecs (AList.notMem_empty _) hcreate
  rw [LogFile.snapshot, if_neg (by decide)] at hsnapshot
  obtain ⟨hbuild, hlookup⟩ := (((hbuild.encode hcrc).encode hmetadata).encode hsnapshot).sync hsync
  obtain ⟨m', dir', cur', hfinalize', hopen', hrep⟩ := building_finish
    (m := { Manager.newManager cfg pool with
      filesDesc := (∅ : AList fun _ : Nat => LogFileDesc).insert 0 ⟨0, 0, true⟩, nextLogId := 1 })
    (show ∃ base, Consecutive Segment.id base [] ∧ _ from ⟨0, consecutive_nil, rfl⟩)
    (fun n hn => absurd hn (AList.notMem_empty n)) (by simp) (by simp)
    hbuild hlookup (AList.lookup_insert _) rfl
  cases hfinalize.symm.trans hfinalize'
  cases hopen.symm.trans hopen'
  exact ⟨hrep _ _, rfl⟩

theorem Represents.tailLogFileDesc (h : Represents codecs cfg pool w dir J) :
    w.tailLogFileDesc = .ok J.current.desc := by
  have hne : ¬ w.logMgr.filesDesc.keys = [] := by
    intro hnil
    have hin : J.current.id ∈ w.logMgr.filesDesc := by
      rw [← AList.lookup_isSome, h.desc_eq]
      rfl
    rw [AList.mem_keys, hnil] at hin
    cases hin
  rw [Wal.tailLogFileDesc, Manager.lastLogFileDesc, if_neg hne, h.nextLogId_eq,
    Nat.add_sub_cancel, h.desc_eq]
  rfl

theorem Represents.closeCurrent {l₀ l₁ : LogFile} (h : Represents codecs cfg pool w dir J)
    (hsync : w.currentLogFile.sync dir = .ok (l₀, dir₀))
    (htruncate : l₀.truncate dir₀ = .ok (l₁, dir₁)) :
    (∀ n ∈ dir₁, n.kind ≠ .broken → ∃ s ∈ J.segments, n = s.name) ∧
      (∀ s ∈ J.segments, dir₁.lookup s.name = some (contents codecs s.records)) ∧
      l₁.lastCrc = crcAfter codecs 0 J.current.records := by
  obtain ⟨l, d, heq, hrep, hlookup⟩ := h.sync
  cases heq.symm.trans hsync
  have hname : l₀.name = J.current.name := hrep.name_eq
  rw [LogFile.truncate_eq (by rw [hname]; exact hlookup) hrep.holds.offset_eq, hname] at htruncate
  cases htruncate
  have hupdates := Updates.insert hlookup (contents codecs J.current.records)
  refine ⟨fun n hn => hrep.mem_dir n ((hupdates.mem_iff n).mp hn),
    forall_mem_concat.mpr ⟨fun s hs => ?_, AList.lookup_insert _⟩, hrep.holds.crc_eq⟩
  rw [hupdates.lookup_ne _ (h.closed_name_ne hs)]
  exact hrep.lookup_closed s hs

theorem temp_notMem (hmem : ∀ n ∈ dir, n.kind ≠ .broken → ∃ s ∈ segs, n = s.name) :
    (⟨.temp, id, start⟩ : FileName) ∉ dir := by
  intro hin
  obtain ⟨s, -, heq⟩ := hmem _ hin (by simp)
  cases congrArg FileName.kind heq

section

variable (h : Represents codecs cfg pool w dir J)
include h

theorem Represents.next_id :
    ∃ base, Consecutive Segment.id base J.segments ∧
      J.current.desc.id + 1 = base + J.segments.length := by
  obtain ⟨base, hids⟩ := h.ids
  have hcurrent := (consecutive_cons.mp (consecutive_append.mp hids).2).1
  refine ⟨base, hids, ?_⟩
  rw [Journal.segments, length_append, length_singleton]
  simp only [Segment.desc]
  omega

theorem Represents.cycle (hcycle : w.cycle codecs dir = .ok (w', dir')) :
    Represents codecs cfg pool w' dir' (J.rotate codecs cfg.logFileChunkSize) ∧
      w'.entryIndexStorage = w.entryIndexStorage := by
  obtain ⟨⟨l₀, dir₀⟩, hsync, hcycle⟩ := bind_eq_ok.mp hcycle
  obtain ⟨⟨l₁, dir₁⟩, htruncate, hcycle⟩ := bind_eq_ok.mp hcycle
  obtain ⟨desc, htail, hcycle⟩ := bind_eq_ok.mp hcycle
  obtain ⟨⟨l₂, m₂, dir₂⟩, hcreate, hcycle⟩ := bind_eq_ok.mp hcycle
  obtain ⟨⟨l₃, dir₃⟩, hcrc, hcycle⟩ := bind_eq_ok.mp hcycle
  obtain ⟨⟨l₄, dir₄⟩, hmetadata, hcycle⟩ := bind_eq_ok.mp hcycle
  obtain ⟨⟨l₅, dir₅⟩, hhardState, hcycle⟩ := bind_eq_ok.mp hcycle
  obtain ⟨⟨l₆, dir₆⟩, hnextEntry, hcycle⟩ := bind_eq_ok.mp hcycle
  obtain ⟨⟨l₇, dir₇⟩, hsync', hcycle⟩ := bind_eq_ok.mp hcycle
  obtain ⟨⟨m₈, dir₈⟩, hfinalize, hcycle⟩ := bind_eq_ok.mp hcycle
  obtain ⟨cur, hopen, hpure⟩ := bind_eq_ok.mp hcycle
  cases hpure
  obtain ⟨hmem, hlookup, hlastCrc⟩ := h.closeCurrent hsync htruncate
  cases h.tailLogFileDesc.symm.trans htail
  rw [h.state_eq] at hcreate hmetadata hhardState hnextEntry
  rw [hlastCrc] at hcrc
  obtain ⟨hbuild, hid, rfl⟩ := building_create codecs (temp_notMem hmem) hcreate
  have hbuild := ((hbuild.encode hcrc).encode hmetadata).encode hhardState
  have hrecords : Building codecs w.logMgr.cfg w.logMgr.memPool dir₁
      ⟨.temp, J.current.desc.id + 1, J.state.lastEntryIndex + 1⟩ (J.rotateRecords codecs) l₆
        dir₆ := by
    rw [Journal.rotateRecords]
    by_cases hempty : J.state.emptyNextEntry
    · rw [if_pos hempty] at hnextEntry ⊢
      cases hnextEntry
      exact hbuild
    · rw [if_neg hempty] at hnextEntry ⊢
      exact hbuild.encode hnextEntry
  obtain ⟨hrecords, hsynced⟩ := hrecords.sync hsync'
  obtain ⟨m', dir', cur', hfinalize', hopen', hrep⟩ := building_finish
    (m := { w.logMgr with
      filesDesc := w.logMgr.filesDesc.insert (J.current.desc.id + 1)
        ⟨J.current.desc.id + 1, J.state.lastEntryIndex + 1, true⟩
      nextLogId := w.logMgr.nextLogId + 1 })
    h.next_id hmem hlookup (fun s hs => h.memPool_eq ▸ h.fits s hs) hrecords hsynced
    (AList.lookup_insert _) (by rw [← hid])
  cases hfinalize.symm.trans hfinalize'
  cases hopen.symm.trans hopen'
  have hrep := hrep w.state w.entryIndexStorage
  rw [h.state_eq] at hrep ⊢
  simp only [h.cfg_eq, h.memPool_eq] at hrep
  exact ⟨hrep, rfl⟩

theorem Represents.save_cases (hsave : w.save codecs dir st entries = .ok (w', dir')) :
    ∃ w₁ dir₁ w₂ dir₂,
      (if entries = [] then .ok (w, dir) else w.saveEntry codecs dir entries) = .ok (w₁, dir₁) ∧
      w₁.saveHardState codecs dir₁ st = .ok (w₂, dir₂) ∧
      Represents codecs cfg pool w₁ dir₁ (J.saveEntries codecs entries) ∧
      Represents codecs cfg pool w₂ dir₂ ((J.saveEntries codecs entries).saveHardState codecs st) ∧
      ((w₂.cycle codecs dir₂ = .ok (w', dir') ∧ J.save codecs cfg.logFileChunkSize st entries =
          ((J.saveEntries codecs entries).saveHardState codecs st).rotate codecs
            cfg.logFileChunkSize) ∨
        J.save codecs cfg.logFileChunkSize st entries =
            (J.saveEntries codecs entries).saveHardState codecs st ∧
          (if mustSync st w₂.state.hardState entries.length then w₂.sync dir₂
            else .ok (w₂, dir₂)) = .ok (w', dir')) := by
  obtain ⟨⟨w₁, dir₁⟩, hentries, hsave⟩ := bind_eq_ok.mp hsave
  obtain ⟨⟨w₂, dir₂⟩, hhardState, hsave⟩ := bind_eq_ok.mp hsave
  have h₁ : Represents codecs cfg pool w₁ dir₁ (J.saveEntries codecs entries) := by
    by_cases hnil : entries = []
    · rw [if_pos hnil] at hentries
      cases hentries
      rw [hnil]
      exact h
    · rw [if_neg hnil] at hentries
      exact h.saveEntry hentries
  have h₂ := h₁.saveHardState hhardState
  have hcycle : w₂.currentLogFile.doCycle = true ↔ cfg.logFileChunkSize <
      Journal.offset codecs ((J.saveEntries codecs entries).saveHardState codecs st) := by
    rw [LogFile.doCycle, Writer.checkCycle, decide_eq_true_eq, h₂.segmentSize_eq,
      h₂.holds.offset_eq]
    rfl
  refine ⟨w₁, dir₁, w₂, dir₂, hentries, hhardState, h₁, h₂, ?_⟩
  simp only at hsave
  split at hsave
  next hfull => exact .inl ⟨hsave, if_pos (hcycle.mp hfull)⟩
  next hfull => exact .inr ⟨if_neg (mt hcycle.mpr hfull), hsave⟩

theorem save_represents (hsave : w.save codecs dir st entries = .ok (w', dir')) :
    Represents codecs cfg pool w' dir' (J.save codecs cfg.logFileChunkSize st entries) := by
  obtain ⟨w₁, dir₁, w₂, dir₂, -, -, -, h₂, ⟨hcycle, hJ⟩ | ⟨hJ, hlast⟩⟩ := h.save_cases hsave
  · rw [hJ]
    exact (h₂.cycle hcycle).1
  · rw [hJ]
    split at hlast
    · exact h₂.sync_ok hlast
    · cases hlast
      exact h₂

theorem saveSnapshot_represents {snapshot : Snapshot}
    (hsave : w.saveSnapshot codecs dir snapshot = .ok (w', dir')) :
    Represents codecs cfg pool w' dir' (J.saveSnapshot codecs snapshot) := by
  obtain ⟨⟨l, d⟩, hencode, hsave⟩ := bind_eq_ok.mp hsave
  rw [LogFile.snapshot, if_neg (by simp [Snapshot.toWal])] at hencode
  have h₁ := h.encode hencode { w.state with
    lastEntryIndex := max w.state.lastEntryIndex snapshot.metadata.index } w.entryIndexStorage
  rw [h.state_eq] at h₁
  simp only [h.state_eq] at hsave
  exact h₁.sync_ok hsave

theorem close_segmentsAt (hclose : w.close dir = .ok dir') :
    SegmentsAt codecs dir' J.closed J.current J.tail := by
  obtain ⟨l, d, hsync, hrep, hlookup⟩ := h.sync
  simp only [Wal.close, Wal.sync, hsync, ok_bind] at hclose
  cases hclose
  exact { hrep with lookup_current := hlookup }

end

end Represents

end Babuza.Babuzawal
