import Babuza.Babuzawal.Page
import Mathlib.Data.List.AList
import Mathlib.Data.List.Sort

/-!
# Log files

The directory of a native log, one log file and the file manager
(`logfile/logFile.go`, `logfile/manager.go`, `utility/utility.go`).

A directory maps names to contents. A file that is being written is reached through its name; it
is closed before it is renamed. `LogFile.Holds` says which records the file behind a writer
consists of once its buffer is flushed, and which bytes of preallocated space follow them.
-/

namespace Babuza.Babuzawal

open Lib Allocator List

/-- `.wal`, `.wal.tmp` and `.wal.broken`, and a file that has been removed while it is open. -/
inductive FileKind
  | log
  | temp
  | broken
  | unlinked
  deriving DecidableEq

structure FileName where
  kind : FileKind
  id : Nat
  startLogIndex : Nat
  deriving DecidableEq

abbrev Directory := AList fun _ : FileName => Bytes

def rename (dir : Directory) (old new : FileName) : Except WalError Directory :=
  match dir.lookup old with
  | none => .error .fileNotExist
  | some file => .ok ((dir.erase old).insert new file)

structure LogFileDesc where
  id : Nat
  startLogIndex : Nat
  isTempFile : Bool
  deriving DecidableEq

namespace LogFileDesc

def getLogFileName (desc : LogFileDesc) : FileName := ⟨.log, desc.id, desc.startLogIndex⟩

def getTempLogFileName (desc : LogFileDesc) : FileName := ⟨.temp, desc.id, desc.startLogIndex⟩

def empty : LogFileDesc := ⟨0, 0, false⟩

end LogFileDesc

def parseLogFileName (name : FileName) : Option LogFileDesc :=
  match name.kind with
  | .log => some ⟨name.id, name.startLogIndex, false⟩
  | _ => none

def logFileMagicHeader : Bytes :=
  "babuzawal-raft-wal-D37314C80A57AA1ABB325BF1A2750F53FA822E64".toList.map
    fun c => UInt8.ofNat c.toNat

def logFileVersion : Nat := 1

def logFileHeaderLength : Nat := logFileMagicHeader.length + 8

def logFileHeader : Bytes := logFileMagicHeader ++ leBytes 8 logFileVersion

/-- `OpenLogFileHandle`: the checks on the content of the file. The buffer the header is read
into starts out as zeros. -/
def openLogFileHandle (file : Bytes) : Except WalError Unit :=
  if file = [] then .error .eof
  else
    let buf := file.take logFileHeaderLength ++ zeros (logFileHeaderLength - file.length)
    if buf.take logFileMagicHeader.length ≠ logFileMagicHeader then .error .magicHeaderMismatch
    else
      let v := leNat (buf.drop logFileMagicHeader.length)
      if v ≠ logFileVersion then .error (.unrecognizedVersion v) else .ok ()

/-- `CreateLogFileHandle` on a file whose content is `file`. It is not truncated. -/
def createLogFileHandle (file : Bytes) (preAllocSize : Nat) : Bytes :=
  writeAt (zeroExtend file preAllocSize) 0 logFileHeader

/-- `GetLogFileReader`: what is left to read behind the header. -/
def getLogFileReader (dir : Directory) (desc : LogFileDesc) : Except WalError Bytes :=
  match dir.lookup desc.getLogFileName with
  | none => .error .fileNotExist
  | some file => do
    openLogFileHandle file
    return file.drop logFileHeaderLength

/-- `RepairLogFile`: keep a copy, then truncate. -/
def repairLogFile (dir : Directory) (desc : LogFileDesc) (lastValidOffset : Nat) :
    Except WalError Directory :=
  match dir.lookup desc.getLogFileName with
  | none => .error .fileNotExist
  | some file => do
    openLogFileHandle file
    return (dir.insert ⟨.broken, desc.id, desc.startLogIndex⟩ file).insert desc.getLogFileName
      ((zeroExtend file lastValidOffset).take lastValidOffset)

/-- The loop of `ReadValidLogFiles`, over the files from the last one back; `found` are the files
already passed. -/
def validLogFiles (snapIndex : Nat) : (files : List LogFileDesc) → (nextSeq : Nat) →
    (found : List LogFileDesc) → Except WalError (List LogFileDesc)
  | [], _, found => .ok found
  | f :: files, nextSeq, found =>
    if nextSeq ≠ 0 ∧ f.id ≠ nextSeq - 1 then .error (.idNotContinuous (nextSeq - 1) f.id)
    else if f.startLogIndex ≤ snapIndex then .ok (f :: found)
    else validLogFiles snapIndex files f.id (f :: found)

def logFiles (dir : Directory) : List LogFileDesc :=
  (dir.keys.filterMap parseLogFileName).insertionSort fun a b => a.id ≤ b.id

def readValidLogFiles (dir : Directory) (snapIndex : Nat) : Except WalError (List LogFileDesc) :=
  validLogFiles snapIndex (logFiles dir).reverse 0 []

structure Encoder where
  memPool : ByteSlicePool
  currentCrc : UInt32

structure LogFile where
  name : FileName
  pw : Writer
  enc : Encoder

namespace LogFile

def offset (l : LogFile) : Nat := l.pw.currentOffset

def lastCrc (l : LogFile) : UInt32 := l.enc.currentCrc

def doCycle (l : LogFile) : Bool := l.pw.checkCycle

def withFile (l : LogFile) (dir : Directory)
    (op : Writer → Bytes → Except WalError (Writer × Bytes)) :
    Except WalError (LogFile × Directory) :=
  match dir.lookup l.name with
  | none => .error .fileNotExist
  | some file => do
    let (pw, file) ← op l.pw file
    return ({ l with pw := pw }, dir.insert l.name file)

def sync (l : LogFile) (dir : Directory) : Except WalError (LogFile × Directory) :=
  l.withFile dir fun pw file => pw.sync file

def truncate (l : LogFile) (dir : Directory) : Except WalError (LogFile × Directory) :=
  l.withFile dir fun pw file => .ok (pw, pw.truncate file)

variable (codecs : RaftCodecs)

def encode (l : LogFile) (dir : Directory) (r : Record) :
    Except WalError (LogFile × Directory) := do
  let (data, crc) ← Babuzawal.encode l.enc.memPool l.enc.currentCrc r.logType.code (r.log codecs)
  let (l, dir) ← l.withFile dir fun pw file => pw.write file data
  return ({ l with enc := { l.enc with currentCrc := crc } }, dir)

def crc (l : LogFile) (dir : Directory) (value : UInt32) := l.encode codecs dir (.crc value)

def metadata (l : LogFile) (dir : Directory) (data : Bytes) := l.encode codecs dir (.metadata data)

def hardState (l : LogFile) (dir : Directory) (st : HardState) :=
  l.encode codecs dir (.hardState st)

/-- `Snapshot`, with `walpb.ValidateSnapshotForWrite` in front. -/
def snapshot (l : LogFile) (dir : Directory) (snap : WalSnapshot) :
    Except WalError (LogFile × Directory) :=
  if snap.confState = none ∧ 0 < snap.index then .error .missingConfState
  else l.encode codecs dir (.snapshot snap)

def nextEntry (l : LogFile) (dir : Directory) (e : WalNextEntry) :=
  l.encode codecs dir (.nextEntry e)

def entry (l : LogFile) (dir : Directory) (type : EntryType) (data : Bytes) :=
  l.encode codecs dir (.entry type data)

end LogFile

structure ManagerConfig where
  logFileChunkSize : Nat
  alignmentPageSize : Nat
  pageWriterBufSize : Nat
  deriving DecidableEq

structure Manager where
  cfg : ManagerConfig
  filesDesc : AList fun _ : Nat => LogFileDesc
  nextLogId : Nat
  memPool : ByteSlicePool

namespace Manager

def newManager (cfg : ManagerConfig) (memPool : ByteSlicePool) : Manager := ⟨cfg, ∅, 0, memPool⟩

def newManagerWithScan (cfg : ManagerConfig) (dir : Directory) (snapIndex : Nat)
    (memPool : ByteSlicePool) : Except WalError Manager := do
  let files ← readValidLogFiles dir snapIndex
  match files.getLast? with
  | none => throw .notFoundValidLogFiles
  | some last =>
    return {
      cfg := cfg
      filesDesc := files.foldl (fun m f => m.insert f.id f) ∅
      nextLogId := last.id + 1
      memPool := memPool }

/-- `page.CreateWriter` with the configured sizes, on a handle at `seek`, under a new encoder. -/
def newLogFile (m : Manager) (name : FileName) (seek : Nat) (initCrc : UInt32) : LogFile where
  name := name
  pw := .create m.cfg.logFileChunkSize m.cfg.alignmentPageSize m.cfg.pageWriterBufSize seek
  enc := ⟨m.memPool, initCrc⟩

def openLogFile (m : Manager) (dir : Directory) (id seekTo : Nat) (initCrc : UInt32) :
    Except WalError LogFile :=
  match m.filesDesc.lookup id with
  | none => .error (.logFileNotFound id)
  | some desc =>
    match dir.lookup desc.getLogFileName with
    | none => .error .fileNotExist
    | some file => do
      openLogFileHandle file
      return m.newLogFile desc.getLogFileName seekTo initCrc

def createNextTempLogFile (m : Manager) (dir : Directory) (id startLogIndex : Nat) :
    Except WalError (LogFile × Manager × Directory) :=
  if m.nextLogId ≠ id then .error (.unexpectedLogId m.nextLogId id)
  else
    let desc : LogFileDesc := ⟨id, startLogIndex, true⟩
    let file := createLogFileHandle ((dir.lookup desc.getTempLogFileName).getD [])
      m.cfg.logFileChunkSize
    .ok (m.newLogFile desc.getTempLogFileName logFileHeaderLength 0,
      { m with filesDesc := m.filesDesc.insert id desc, nextLogId := m.nextLogId + 1 },
      dir.insert desc.getTempLogFileName file)

def finalizeTempLogFile (m : Manager) (dir : Directory) (id : Nat) :
    Except WalError (Manager × Directory) :=
  match m.filesDesc.lookup id with
  | none => .error (.logFileNotFound id)
  | some desc => do
    let dir ← rename dir desc.getTempLogFileName desc.getLogFileName
    return ({ m with filesDesc := m.filesDesc.insert id { desc with isTempFile := false } }, dir)

/-- `LastLogFileDesc`, the zero description for an id the manager does not know. -/
def lastLogFileDesc (m : Manager) : Except WalError LogFileDesc :=
  if m.filesDesc.keys = [] then .error .notFoundValidLogFiles
  else .ok ((m.filesDesc.lookup (m.nextLogId - 1)).getD .empty)

end Manager

/-- The content of a file with the given records and no preallocated space. -/
def contents (codecs : RaftCodecs) (rs : List Record) : Bytes :=
  logFileHeader ++ encodeRecords codecs 0 rs

theorem logFileHeader_length : logFileHeader.length = logFileHeaderLength := by
  simp [logFileHeader, logFileHeaderLength]

theorem openLogFileHandle_header (rest : Bytes) :
    openLogFileHandle (logFileHeader ++ rest) = .ok () := by
  have hne : logFileHeader ++ rest ≠ [] := append_ne_nil_of_left_ne_nil (by decide) rest
  have hbuf : (logFileHeader ++ rest).take logFileHeaderLength ++
      zeros (logFileHeaderLength - (logFileHeader ++ rest).length) = logFileHeader := by
    rw [← logFileHeader_length, take_left, length_append,
      Nat.sub_eq_zero_of_le (Nat.le_add_right _ _), zeros_zero, append_nil]
  rw [openLogFileHandle, if_neg hne, hbuf]
  rfl

variable {desc : LogFileDesc} {rest : Bytes}

theorem getLogFileReader_eq {dir : Directory}
    (h : dir.lookup desc.getLogFileName = some (logFileHeader ++ rest)) :
    getLogFileReader dir desc = .ok rest := by
  simp only [getLogFileReader, h, openLogFileHandle_header]
  rw [ok_bind, ← logFileHeader_length, drop_left]
  rfl

theorem createLogFileHandle_nil (preAllocSize : Nat) :
    createLogFileHandle [] preAllocSize =
      logFileHeader ++ zeros (preAllocSize - logFileHeaderLength) := by
  have h := writeAt_append [] (zeros preAllocSize) logFileHeader
  rw [nil_append, nil_append, zeros_drop, logFileHeader_length] at h
  rwa [createLogFileHandle, zeroExtend, nil_append, length_nil, Nat.sub_zero]

/-! ## What writing to a file changes -/

/-- `dir'` is `dir` except for the content of the file `name`. -/
structure Updates (name : FileName) (dir dir' : Directory) : Prop where
  lookup_ne : ∀ n, n ≠ name → dir'.lookup n = dir.lookup n
  mem_iff : ∀ n, n ∈ dir' ↔ n ∈ dir

namespace Updates

variable {name : FileName} {dir : Directory}

theorem insert {file : Bytes} (h : dir.lookup name = some file) (file' : Bytes) :
    Updates name dir (dir.insert name file') where
  lookup_ne := fun _ hn => AList.lookup_insert_ne hn
  mem_iff := by
    intro n
    rw [AList.mem_insert]
    constructor
    · rintro (rfl | hn)
      · exact AList.lookup_isSome.mp (by rw [h]; rfl)
      · exact hn
    · exact .inr

end Updates

namespace LogFile

structure Frame (l : LogFile) (dir : Directory) (l' : LogFile) (dir' : Directory) : Prop where
  name_eq : l'.name = l.name
  memPool_eq : l'.enc.memPool = l.enc.memPool
  segmentSize_eq : l'.pw.segmentSize = l.pw.segmentSize
  pageSize_eq : l'.pw.pageSize = l.pw.pageSize
  updates : Updates l.name dir dir'

/-- The file behind `l` consists of the records `rs` and the bytes `tail`, some of it still
buffered, and `l` stands at the end of the records. -/
structure Holds (codecs : RaftCodecs) (l : LogFile) (dir : Directory) (rs : List Record)
    (tail : Bytes) : Prop where
  file : ∃ file, dir.lookup l.name = some file ∧ l.pw.WF file ∧
    l.pw.view file = contents codecs rs ++ tail
  offset_eq : l.pw.currentOffset = (contents codecs rs).length
  crc_eq : l.enc.currentCrc = crcAfter codecs 0 rs

variable {codecs : RaftCodecs} {l l' : LogFile} {dir dir' : Directory} {rs : List Record}
  {tail : Bytes} {r : Record}

def added (codecs : RaftCodecs) (rs : List Record) (r : Record) : Bytes :=
  r.bytes codecs (crcAfter codecs 0 rs)

theorem contents_append_singleton :
    contents codecs (rs ++ [r]) = contents codecs rs ++ added codecs rs r := by
  rw [contents, encodeRecords_append, encodeRecords, encodeRecords_nil, append_nil, ← append_assoc]
  rfl

section

variable (h : l.Holds codecs dir rs tail)
include h

theorem Holds.of_wrote {file file' : Bytes} {pw : Writer} (hfile : dir.lookup l.name = some file)
    (hview : l.pw.view file = contents codecs rs ++ tail)
    (hwrote : l.pw.Wrote file (added codecs rs r) pw file') :
    Holds codecs
      { l with pw := pw, enc := { l.enc with currentCrc := r.nextCrc codecs l.enc.currentCrc } }
      (dir.insert l.name file') (rs ++ [r]) (tail.drop (added codecs rs r).length) ∧
    l.Frame dir
      { l with pw := pw, enc := { l.enc with currentCrc := r.nextCrc codecs l.enc.currentCrc } }
      (dir.insert l.name file') := by
  refine ⟨⟨⟨file', AList.lookup_insert _, hwrote.wf, ?_⟩, ?_, ?_⟩,
    ⟨rfl, rfl, hwrote.segmentSize_eq, hwrote.pageSize_eq, .insert hfile _⟩⟩
  · rw [hwrote.view_eq, hview, h.offset_eq, writeAt_append, contents_append_singleton]
  · rw [hwrote.currentOffset_eq, h.offset_eq, contents_append_singleton, length_append]
  · rw [crcAfter_append, ← h.crc_eq]
    rfl

theorem Holds.encode (hencode : l.encode codecs dir r = .ok (l', dir')) :
    l'.Holds codecs dir' (rs ++ [r]) (tail.drop (added codecs rs r).length) ∧
      r.Fits codecs l.enc.memPool ∧ l.Frame dir l' dir' := by
  obtain ⟨file, hfile, hwf, hview⟩ := h.file
  obtain ⟨out, hout, hrest⟩ := bind_eq_ok.mp hencode
  have hfits := Record.fits_of_encode hout
  rw [Record.encode_eq hfits] at hout
  cases hout
  obtain ⟨⟨l₁, dir₁⟩, hwith, hrest⟩ := bind_eq_ok.mp hrest
  simp only [withFile, hfile] at hwith
  obtain ⟨⟨pw, file'⟩, hwrite, hpure⟩ := bind_eq_ok.mp hwith
  cases hpure
  cases hrest
  rw [h.crc_eq] at hwrite
  obtain ⟨hholds, hframe⟩ := h.of_wrote hfile hview (Writer.write_wrote hwf hwrite)
  exact ⟨hholds, hfits, hframe⟩

theorem Holds.encode_exists (hpage : 0 < l.pw.pageSize) (hfits : r.Fits codecs l.enc.memPool) :
    ∃ l' dir', l.encode codecs dir r = .ok (l', dir') := by
  obtain ⟨file, hfile, hwf, hview⟩ := h.file
  obtain ⟨pw, file', hwrite, -⟩ := Writer.write_exists (r.bytes codecs l.enc.currentCrc) hwf
    (.inr hpage)
  simp only [LogFile.encode, Record.encode_eq hfits, ok_bind, withFile, hfile, hwrite]
  exact ⟨_, _, rfl⟩

theorem Holds.sync :
    ∃ l' dir', l.sync dir = .ok (l', dir') ∧ l'.Holds codecs dir' rs tail ∧ l.Frame dir l' dir' ∧
      dir'.lookup l.name = some (contents codecs rs ++ tail) := by
  obtain ⟨file, hfile, hwf, hview⟩ := h.file
  refine ⟨{ l with pw := l.pw.flushed }, dir.insert l.name (l.pw.view file), ?_, ?_, ?_, ?_⟩
  · simp only [LogFile.sync, withFile, hfile, Writer.sync_eq hwf, ok_bind]
    rfl
  · exact ⟨⟨_, AList.lookup_insert _, Writer.flushed_wf hwf,
      (Writer.view_flushed hwf).trans hview⟩, h.offset_eq, h.crc_eq⟩
  · exact ⟨rfl, rfl, rfl, rfl, .insert hfile _⟩
  · rw [AList.lookup_insert, hview]

end

theorem encode_seek_le (h : l.encode codecs dir r = .ok (l', dir')) : l.pw.seek ≤ l'.pw.seek := by
  obtain ⟨out, -, h⟩ := bind_eq_ok.mp h
  obtain ⟨⟨l₁, dir₁⟩, hwith, hpure⟩ := bind_eq_ok.mp h
  cases hpure
  unfold withFile at hwith
  split at hwith
  · cases hwith
  · obtain ⟨⟨pw, file'⟩, hwrite, hpure⟩ := bind_eq_ok.mp hwith
    cases hpure
    exact Writer.write_seek_le hwrite

theorem Holds.sync_seek (h : l.Holds codecs dir rs tail) (hsync : l.sync dir = .ok (l', dir')) :
    l'.pw.seek = (contents codecs rs).length := by
  obtain ⟨file, hfile, hwf, -⟩ := h.file
  simp only [LogFile.sync, withFile, hfile, Writer.sync_eq hwf, ok_bind] at hsync
  cases hsync
  exact hwf.pos_eq.trans h.offset_eq

theorem Holds.lookup_take (h : l.Holds codecs dir rs tail) {front : Bytes}
    (hfront : front <+: contents codecs rs) (hseek : front.length ≤ l.pw.seek) :
    ∃ behind, dir.lookup l.name = some (front ++ behind) := by
  obtain ⟨file, hfile, hwf, hview⟩ := h.file
  have htake := Writer.view_take hwf.valid
  have hinView : front <+: l.pw.view file := by
    rw [hview]
    exact hfront.trans (prefix_append _ _)
  obtain ⟨behind, hbehind⟩ : front <+: file := by
    have hshort := prefix_take_iff.mpr ⟨hinView, hseek⟩
    rw [htake] at hshort
    exact hshort.trans (List.take_prefix _ _)
  exact ⟨behind, by rw [hfile, hbehind]⟩

theorem truncate_eq (hfile : dir.lookup l.name = some (contents codecs rs ++ tail))
    (hoffset : l.pw.currentOffset = (contents codecs rs).length) :
    l.truncate dir = .ok (l, dir.insert l.name (contents codecs rs)) := by
  have htake : l.pw.truncate (contents codecs rs ++ tail) = contents codecs rs := by
    rw [Writer.truncate, zeroExtend, hoffset, length_append,
      Nat.sub_eq_zero_of_le (Nat.le_add_right _ _), zeros_zero, append_nil, take_left]
  simp only [truncate, withFile, hfile, ok_bind, htake]
  rfl

end LogFile

namespace Manager

variable {codecs : RaftCodecs} {m : Manager} {dir : Directory}

theorem newLogFile_holds {name : FileName} {rs : List Record} {tail : Bytes}
    (h : dir.lookup name = some (contents codecs rs ++ tail)) :
    (m.newLogFile name (contents codecs rs).length (crcAfter codecs 0 rs)).Holds codecs dir rs tail
    where
  file := by
    have hwf : (m.newLogFile name (contents codecs rs).length (crcAfter codecs 0 rs)).pw.WF
        (contents codecs rs ++ tail) := Writer.create_wf (by rw [length_append]; omega)
    exact ⟨_, h, hwf, Writer.view_of_synced hwf.valid rfl⟩
  offset_eq := rfl
  crc_eq := rfl

theorem openLogFile_eq {id seekTo : Nat} {initCrc : UInt32}
    (hdesc : m.filesDesc.lookup id = some desc)
    (h : dir.lookup desc.getLogFileName = some (logFileHeader ++ rest)) :
    m.openLogFile dir id seekTo initCrc =
      .ok (m.newLogFile desc.getLogFileName seekTo initCrc) := by
  simp only [openLogFile, hdesc, h, openLogFileHandle_header]
  rfl

end Manager

end Babuza.Babuzawal
