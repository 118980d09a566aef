import Babuza.Babuzawal.Player

/-!
# The native write-ahead log

`babuzawal/wal.go`, and from `babuzawal/common.go` the paths that create, replay and search a log.

A `Wal` works on a directory and owns the log file it appends to. With `entryIndexStorage` every
saved entry is also put into the index and into the cache of the entry storage. Syncing a file to
the device is not part of the model: `Sync` flushes the page buffer.
-/

namespace Babuza.Babuzawal

open Lib Allocator Walbase

structure WalState where
  metadata : Bytes
  nextEntry : WalNextEntry
  hardState : HardState
  lastEntryIndex : Nat
  deriving DecidableEq

def WalState.emptyNextEntry (s : WalState) : Bool :=
  s.nextEntry.nextTerm == 0 && s.nextEntry.nextIndex == 0

structure Wal where
  logMgr : Manager
  state : WalState
  currentLogFile : LogFile
  entryIndexStorage : Option (EntryStorage EntryIndexMetadata)

variable (codecs : RaftCodecs)

def createWal (metadata : Bytes) (logMgr : Manager) (dir : Directory) :
    Except WalError (Wal × Directory) := do
  let (tempLogFile, logMgr, dir) ← logMgr.createNextTempLogFile dir 0 0
  let (tempLogFile, dir) ← tempLogFile.crc codecs dir 0
  let (tempLogFile, dir) ← tempLogFile.metadata codecs dir metadata
  let (tempLogFile, dir) ← tempLogFile.snapshot codecs dir .empty
  let (tempLogFile, dir) ← tempLogFile.sync dir
  let (logMgr, dir) ← logMgr.finalizeTempLogFile dir 0
  let openLogFile ← logMgr.openLogFile dir 0 tempLogFile.offset tempLogFile.lastCrc
  return ({
    logMgr := logMgr
    state := ⟨metadata, ⟨0, 0⟩, .empty, 0⟩
    currentLogFile := openLogFile
    entryIndexStorage := none }, dir)

/-- `OpenWal`. The index of the last entry is not restored. -/
def openWal (logMgr : Manager) (dir : Directory) (last : ReplayResult) : Except WalError Wal := do
  let logWriter ← logMgr.openLogFile dir last.lastLogFileDesc.id last.lastValidLogOffset
    last.lastValidLogCrc
  return {
    logMgr := logMgr
    state := ⟨last.metadata, last.nextEntry, last.hardState, 0⟩
    currentLogFile := logWriter
    entryIndexStorage := none }

namespace Wal

def setEntryIndexStorage (w : Wal) (es : EntryStorage EntryIndexMetadata) : Wal :=
  { w with entryIndexStorage := some es }

def tailLogFileDesc (w : Wal) : Except WalError LogFileDesc :=
  w.logMgr.lastLogFileDesc.mapError fun _ => .panic

/-- The index entry that `saveEntry` makes for an entry about to be written. -/
def entryIndexFor (w : Wal) (e : Entry) : Except WalError (EntryIndex EntryIndexMetadata) := do
  let desc ← w.tailLogFileDesc
  return {
    term := e.term
    index := e.index
    type := e.type
    metadata := {
      fileId := desc.id
      offset := w.currentLogFile.offset + headerSize
      dataLen := e.data.length
      dataCapacity := e.data.length + (8 - e.data.length % 8) % 8 } }

/-- The first part of a round of the loop of `saveEntry`: announce the term and index of the entry
unless they follow from the entry before. -/
def saveNextEntry (w : Wal) (dir : Directory) (e : Entry) : Except WalError (Wal × Directory) :=
  if w.state.nextEntry ≠ ⟨e.term, e.index⟩ then do
    let (l, dir) ← w.currentLogFile.nextEntry codecs dir ⟨e.term, e.index⟩
    return ({ w with
      state := { w.state with nextEntry := ⟨e.term, e.index⟩ }
      currentLogFile := l }, dir)
  else .ok (w, dir)

/-- A round of the loop of `saveEntry`, with the index entry it makes. -/
def saveOne (w : Wal) (dir : Directory) (e : Entry) :
    Except WalError (Wal × Directory × List (EntryIndex EntryIndexMetadata)) := do
  let (w, dir) ← w.saveNextEntry codecs dir e
  let entIndex ← (if w.entryIndexStorage.isSome then (w.entryIndexFor e).map fun x => [x]
    else .ok [])
  let (l, dir) ← w.currentLogFile.entry codecs dir e.type e.data
  return ({ w with
    state := { w.state with
      nextEntry := { w.state.nextEntry with nextIndex := e.index + 1 }
      lastEntryIndex := e.index }
    currentLogFile := l }, dir, entIndex)

def saveEntries : Wal → Directory → List Entry →
    Except WalError (Wal × Directory × List (EntryIndex EntryIndexMetadata))
  | w, dir, [] => .ok (w, dir, [])
  | w, dir, e :: entries => do
    let (w, dir, x) ← w.saveOne codecs dir e
    let (w, dir, xs) ← saveEntries w dir entries
    return (w, dir, x ++ xs)

def saveEntry (w : Wal) (dir : Directory) (entries : List Entry) :
    Except WalError (Wal × Directory) := do
  let (w, dir, entriesIndex) ← w.saveEntries codecs dir entries
  match w.entryIndexStorage with
  | none => return (w, dir)
  | some es =>
    let es ← (es.appendEntryIndex entriesIndex).mapError .entryStorage
    return ({ w with entryIndexStorage := some (es.appendCache entries) }, dir)

def saveHardState (w : Wal) (dir : Directory) (st : HardState) :
    Except WalError (Wal × Directory) :=
  if isEmptyHardState st then .ok (w, dir)
  else do
    let (l, dir) ← w.currentLogFile.hardState codecs dir st
    return ({ w with
      state := { w.state with hardState := st }
      currentLogFile := l
      entryIndexStorage := w.entryIndexStorage.map (·.deleteCache st.commit) }, dir)

def cycle (w : Wal) (dir : Directory) : Except WalError (Wal × Directory) := do
  let (l, dir) ← w.currentLogFile.sync dir
  let (l, dir) ← l.truncate dir
  let lastCrc := l.lastCrc
  let tailDesc ← w.tailLogFileDesc
  let nextId := tailDesc.id + 1
  let (nextLogger, logMgr, dir) ←
    w.logMgr.createNextTempLogFile dir nextId (w.state.lastEntryIndex + 1)
  let (nextLogger, dir) ← nextLogger.crc codecs dir lastCrc
  let (nextLogger, dir) ← nextLogger.metadata codecs dir w.state.metadata
  let (nextLogger, dir) ← nextLogger.hardState codecs dir w.state.hardState
  let (nextLogger, dir) ← (if w.state.emptyNextEntry then .ok (nextLogger, dir)
    else nextLogger.nextEntry codecs dir w.state.nextEntry)
  let (nextLogger, dir) ← nextLogger.sync dir
  let (logMgr, dir) ← logMgr.finalizeTempLogFile dir nextId
  let openLogFile ← logMgr.openLogFile dir nextId nextLogger.offset nextLogger.lastCrc
  return ({ w with logMgr := logMgr, currentLogFile := openLogFile }, dir)

/-- `Sync` and the sync in `Close`. -/
def sync (w : Wal) (dir : Directory) : Except WalError (Wal × Directory) := do
  let (l, dir) ← w.currentLogFile.sync dir
  return ({ w with currentLogFile := l }, dir)

def save (w : Wal) (dir : Directory) (st : HardState) (entries : List Entry) :
    Except WalError (Wal × Directory) := do
  let (w, dir) ← (if entries = [] then .ok (w, dir) else w.saveEntry codecs dir entries)
  let (w, dir) ← w.saveHardState codecs dir st
  if w.currentLogFile.doCycle then
    w.cycle codecs dir
  else if mustSync st w.state.hardState entries.length then
    w.sync dir
  else
    return (w, dir)

def saveSnapshot (w : Wal) (dir : Directory) (snapshot : Snapshot) :
    Except WalError (Wal × Directory) := do
  let (l, dir) ← w.currentLogFile.snapshot codecs dir snapshot.toWal
  let w := { w with
    state := { w.state with
      lastEntryIndex := max w.state.lastEntryIndex snapshot.metadata.index }
    currentLogFile := l }
  w.sync dir

def close (w : Wal) (dir : Directory) : Except WalError Directory := do
  let (_, dir) ← w.sync dir
  return dir

end Wal

/-! ## The manager of the log -/

structure Options where
  walLogFileChunkSize : Nat
  walAlignmentPageSize : Nat
  walPageWriteBufferSize : Nat
  disableEntryIndex : Bool
  deriving DecidableEq

def Options.managerConfig (o : Options) : ManagerConfig :=
  ⟨o.walLogFileChunkSize, o.walAlignmentPageSize, o.walPageWriteBufferSize⟩

def defaultOptions : Options where
  walLogFileChunkSize := 64 * 1000 * 1000
  walAlignmentPageSize := 4096
  walPageWriteBufferSize := 4096 * 32
  disableEntryIndex := false

def walMinEntryBufferSize : Nat := 1024 * 1024
def walMaxEntryBufferSize : Nat := 4 * 1024 * 1024

def defaultMemPool : ByteSlicePool := ⟨[1024 * 1024, 2 * 1024 * 1024, 4 * 1024 * 1024]⟩

theorem newByteSlicePool_defaultMemPool :
    newByteSlicePool walMinEntryBufferSize walMaxEntryBufferSize 2 = some defaultMemPool := by
  decide +kernel

theorem acquire_defaultMemPool_isSome_iff (byteSize : Nat) :
    (defaultMemPool.acquire byteSize).isSome ↔
      byteSize ≠ 0 ∧ byteSize ≤ walMaxEntryBufferSize := by
  unfold ByteSlicePool.acquire
  split
  · rename_i hzero
    simp [hzero]
  · simp only [List.find?_isSome, decide_eq_true_eq, defaultMemPool, List.mem_cons,
      List.not_mem_nil, or_false, walMaxEntryBufferSize]
    grind

def findSnapshotInternal (dir : Directory) (memPool : ByteSlicePool) :
    Except WalError (List WalSnapshot) := do
  let p ← Player.create dir 0 memPool
  let (_, result, err) := p.replay codecs dir (.newReplayResult .nopEntryStore) false
  match err with
  | none | some .unexpectedEOF =>
    return result.walSnapshots.filter fun s => s.index ≤ result.hardState.commit
  | some e => throw e

/-- `createWalInternal`; the directory is emptied first. -/
def createWalInternal (metadata : Bytes) (options : Options) (memPool : ByteSlicePool) :
    Except WalError (Wal × Directory) := do
  let (wal, dir) ← createWal codecs metadata (.newManager options.managerConfig memPool) ∅
  if options.disableEntryIndex then
    return (wal, dir)
  else
    return (wal.setEntryIndexStorage .newEntryStorage, dir)

def Options.newCollection (o : Options) : EntryCollection :=
  if o.disableEntryIndex then .entryStore [] else .indexedEntryStore []

/-- `replayWalInternal` up to the entry storage: the result of the player, the opened log and the
directory, which a repair may have changed. -/
def replayWal (dir : Directory) (snapshot : Option Snapshot) (options : Options)
    (memPool : ByteSlicePool) : Except WalError (ReplayResult × Wal × Directory) := do
  let walSnap := (snapshot.map Snapshot.toWal).getD .empty
  let p ← Player.create dir walSnap.index memPool
  let (dir, result, err) := p.replay codecs dir (.newReplayResult options.newCollection) true
  match err with
  | none | some .unexpectedEOF =>
    let logMgr ← Manager.newManagerWithScan options.managerConfig dir walSnap.index memPool
    let wal ← openWal logMgr dir result
    return (result, wal, dir)
  | some e => throw e

/-- The entry storage of `replayWalInternal` when the entry index is enabled. -/
def replayEntryStorage (snapshot : Option Snapshot) (deleteUncommitted : Bool)
    (result : ReplayResult) :
    Except WalError (ReplayResult × EntryStorage EntryIndexMetadata) := do
  let es := (EntryStorage.ofSnapshot snapshot).setHardState result.hardState
  let collection ← (if deleteUncommitted then
      result.entryCollection.deleteUncommittedEntry result.hardState.commit
    else .ok result.entryCollection)
  let es ← (es.appendEntryIndex collection.entriesIndex).mapError .entryStorage
  return ({ result with entryCollection := collection }, es)

/-- `replayWalInternal` with the entry index enabled. -/
def replayWalInternal (dir : Directory) (snapshot : Option Snapshot) (deleteUncommitted : Bool)
    (options : Options) (memPool : ByteSlicePool) :
    Except WalError (ReplayResult × EntryStorage EntryIndexMetadata × Wal × Directory) := do
  let (result, wal, dir) ← replayWal codecs dir snapshot options memPool
  let (result, es) ← replayEntryStorage snapshot deleteUncommitted result
  return (result, es, wal.setEntryIndexStorage es, dir)

end Babuza.Babuzawal
