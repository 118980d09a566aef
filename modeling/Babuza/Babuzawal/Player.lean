import Babuza.Babuzawal.LogFile

/-!
# Replaying a log

`player/parser.go`, `player/replay.go`, `player/replayResult.go` and the entry collections. The
parser reads a file record by record into a `ReplayResult`; it always ends with an error, and the
result it has collected until then is kept, so a handler returns the result together with its
error.

An entry record carries no term and no index. They come from the last next-entry record, which
has to appear in the same file before the first entry.
-/

namespace Babuza.Babuzawal

open Lib Allocator Walbase List

/-- `storage.EntryIndexMetadata`: where the data of an entry lies. -/
structure EntryIndexMetadata where
  fileId : Nat
  offset : Nat
  dataLen : Nat
  dataCapacity : Nat
  deriving DecidableEq

instance : Inhabited EntryIndexMetadata := ⟨⟨0, 0, 0, 0⟩⟩

/-- `EntryStore`, `IndexedEntryStore` and `NopEntryStore`. -/
inductive EntryCollection
  | entryStore (entries : List Entry)
  | indexedEntryStore (entriesIndex : List (EntryIndex EntryIndexMetadata))
  | nopEntryStore
  deriving DecidableEq

/-- The append both entry stores make in `Decode`. -/
def decodeInto {α : Type} (snapshotIndex index : Nat) (entry : α) (entries : List α) :
    Option (List α) :=
  if snapshotIndex < index then
    let up := index - snapshotIndex - 1
    if entries.length < up then none else some (entries.take up ++ [entry])
  else some entries

/-- `DeleteUncommittedEntry` of both entry stores. Nothing is deleted when the first entry is
already above the commit index. -/
def deleteFrom {α : Type} (index : α → Nat) (commitIndex : Nat) (entries : List α) : List α :=
  match entries.findIdx? fun e => commitIndex < index e with
  | none => entries
  | some 0 => entries
  | some (i + 1) => entries.take (i + 1)

namespace EntryCollection

def clearEntries : EntryCollection → EntryCollection
  | entryStore _ => entryStore []
  | indexedEntryStore _ => indexedEntryStore []
  | nopEntryStore => nopEntryStore

def isNop : EntryCollection → Bool
  | nopEntryStore => true
  | _ => false

def deleteUncommittedEntry (commitIndex : Nat) :
    EntryCollection → Except WalError EntryCollection
  | entryStore entries => .ok (entryStore (deleteFrom Entry.index commitIndex entries))
  | indexedEntryStore entries =>
    .ok (indexedEntryStore (deleteFrom EntryIndex.index commitIndex entries))
  | nopEntryStore => .error .notImplementedOp

def entries : EntryCollection → List Entry
  | entryStore entries => entries
  | _ => []

def entriesIndex : EntryCollection → List (EntryIndex EntryIndexMetadata)
  | indexedEntryStore entries => entries
  | _ => []

end EntryCollection

structure ReplayResult where
  metadata : Bytes
  hardState : HardState
  nextEntry : WalNextEntry
  walSnapshots : List WalSnapshot
  lastLogFileDesc : LogFileDesc
  lastValidLogOffset : Nat
  lastValidLogCrc : UInt32
  entryCollection : EntryCollection
  deriving DecidableEq

namespace ReplayResult

def newReplayResult (entryCollection : EntryCollection) : ReplayResult where
  metadata := []
  hardState := .empty
  nextEntry := ⟨0, 0⟩
  walSnapshots := []
  lastLogFileDesc := .empty
  lastValidLogOffset := 0
  lastValidLogCrc := 0
  entryCollection := entryCollection

def reset (r : ReplayResult) : ReplayResult := newReplayResult r.entryCollection.clearEntries

/-- `Decode` of the entry collection followed by `SetNextIndex`. -/
def decodeEntry (r : ReplayResult) (snapshotIndex : Nat) (type : EntryType) (logBuf : Bytes)
    (entryDataCapacity : Nat) : Except WalError ReplayResult :=
  let term := r.nextEntry.nextTerm
  let index := r.nextEntry.nextIndex
  let next : WalNextEntry := ⟨term, (index + 1) % 2 ^ 64⟩
  match r.entryCollection with
  | .entryStore entries =>
    match decodeInto snapshotIndex index ⟨term, index, type, logBuf⟩ entries with
    | none => .error .entryOutOfRange
    | some entries => .ok { r with entryCollection := .entryStore entries, nextEntry := next }
  | .indexedEntryStore entries =>
    let metadata : EntryIndexMetadata :=
      { fileId := r.lastLogFileDesc.id
        offset := r.lastValidLogOffset + headerSize
        dataLen := logBuf.length
        dataCapacity := entryDataCapacity }
    match decodeInto snapshotIndex index ⟨term, index, type, metadata⟩ entries with
    | none => .error .entryOutOfRange
    | some entries =>
      .ok { r with entryCollection := .indexedEntryStore entries, nextEntry := next }
  | .nopEntryStore => .error .notImplementedOp

end ReplayResult

/-! ## The parser -/

structure Parser where
  result : ReplayResult
  findNextEntry : Bool
  deriving DecidableEq

namespace Parser

variable (codecs : RaftCodecs) (pool : ByteSlicePool) (snapshotIndex : Nat)

def handleEntry (p : Parser) (type : EntryType) (d : Decoded) : Except WalError Parser :=
  if p.result.entryCollection.isNop then .ok p
  else if p.findNextEntry then do
    let result ← p.result.decodeEntry snapshotIndex type d.logBuf
      (d.logSizeWithPadding - headerSize)
    return { p with result := result }
  else .error .notFoundNextEntry

/-- The error of a message that cannot be unmarshalled, which may be the one that `Replay`
repairs. -/
def unmarshalError (endsEarly : Bool) : WalError := if endsEarly then .unexpectedEOF else .unmarshal

def handleBody (p : Parser) (d : Decoded) : Except WalError Parser :=
  match LogType.ofCode? d.logType with
  | some .nextEntry =>
    match WalNextEntry.unmarshal d.logBuf with
    | .error e => .error (unmarshalError (e = .unexpectedEOF))
    | .ok e => .ok { result := { p.result with nextEntry := e }, findNextEntry := true }
  | some .normalEntry => p.handleEntry snapshotIndex .normal d
  | some .confChangeEntry => p.handleEntry snapshotIndex .confChange d
  | some .confChangeV2Entry => p.handleEntry snapshotIndex .confChangeV2 d
  | some .metadata => .ok { p with result := { p.result with metadata := d.logBuf } }
  | some .hardState =>
    match codecs.hardState.unmarshal d.logBuf with
    | none => .error (unmarshalError (codecs.endsEarly d.logBuf))
    | some st => .ok { p with result := { p.result with hardState := st } }
  | some .snapshot =>
    match codecs.walSnapshot.unmarshal d.logBuf with
    | none => .error (unmarshalError (codecs.endsEarly d.logBuf))
    | some snap =>
      .ok { p with result := { p.result with walSnapshots := p.result.walSnapshots ++ [snap] } }
  | some .crc | none => .error .notSupportMessage

def setCrc (p : Parser) (crc : UInt32) : Parser :=
  { p with result := { p.result with lastValidLogCrc := crc } }

def increaseOffset (p : Parser) (n : Nat) : Parser :=
  { p with result :=
      { p.result with lastValidLogOffset := p.result.lastValidLogOffset + n } }

/-- `logHandler`: the parser after the record, and the error if there is one. -/
def logHandler (p : Parser) (d : Decoded) : Parser × Option WalError :=
  if d.logType = LogType.crc.code then
    if d.logBuf.length < 4 then (p, some .panic)
    else
      let p := p.setCrc (UInt32.ofNat (leNat (d.logBuf.take 4)))
      if p.result.lastValidLogCrc ≠ d.logCrc then (p, some .crcMismatchForCrcMessage)
      else (p.increaseOffset d.logSizeWithPadding, none)
  else
    let p := p.setCrc (crc32Update p.result.lastValidLogCrc d.logBuf)
    if p.result.lastValidLogCrc ≠ d.logCrc then (p, some .crcMismatchForOthersMessage)
    else
      match p.handleBody codecs snapshotIndex d with
      | .error e => (p, some e)
      | .ok p => (p.increaseOffset d.logSizeWithPadding, none)

/-- The loop of `Parse`. Every round reads at least a header, so `fuel` above the length of the
stream is enough. -/
def parseLoop : (fuel : Nat) → Parser → Bytes → Parser × WalError
  | 0, p, _ => (p, .eof)
  | fuel + 1, p, stream =>
    match decode pool stream with
    | .error e => (p, e)
    | .ok d =>
      match p.logHandler codecs snapshotIndex d with
      | (p, some e) => (p, e)
      | (p, none) => parseLoop fuel p d.rest

def start (p : Parser) (desc : LogFileDesc) : Parser where
  result := { p.result with
    lastLogFileDesc := desc
    lastValidLogOffset := logFileHeaderLength }
  findNextEntry := false

def parse (p : Parser) (desc : LogFileDesc) (stream : Bytes) : Parser × WalError :=
  parseLoop codecs pool snapshotIndex (stream.length + 1) (p.start desc) stream

end Parser

structure Player where
  logFiles : List LogFileDesc
  startSnapshotIndex : Nat
  memPool : ByteSlicePool

namespace Player

def create (dir : Directory) (startSnapshotIndex : Nat) (memPool : ByteSlicePool) :
    Except WalError Player := do
  let logFiles ← readValidLogFiles dir startSnapshotIndex
  return ⟨logFiles, startSnapshotIndex, memPool⟩

variable (codecs : RaftCodecs)

/-- The loop of `replay`: the parser at the end, and the file and the error it stopped at. -/
def replayFiles (pool : ByteSlicePool) (snapshotIndex : Nat) (dir : Directory) :
    Parser → List LogFileDesc → Parser × Option (LogFileDesc × WalError)
  | p, [] => (p, none)
  | p, desc :: files =>
    match getLogFileReader dir desc with
    | .error e => (p, some (desc, e))
    | .ok stream =>
      match p.parse codecs pool snapshotIndex desc stream with
      | (p, .eof) => replayFiles pool snapshotIndex dir p files
      | (p, e) => (p, some (desc, e))

/-- The unexported `replay`. -/
def replayOnce (p : Player) (dir : Directory) (result : ReplayResult) :
    ReplayResult × Option (LogFileDesc × WalError) :=
  let (parser, err) := replayFiles codecs p.memPool p.startSnapshotIndex dir ⟨result, false⟩
    p.logFiles
  (parser.result, err)

def repairable : WalError → Bool
  | .unexpectedEOF | .crcMismatchForOthersMessage => true
  | _ => false

/-- `Replay`: the directory, the result and the error afterwards. -/
def replay (p : Player) (dir : Directory) (result : ReplayResult) (repair : Bool) :
    Directory × ReplayResult × Option WalError :=
  match p.replayOnce codecs dir result with
  | (result, none) => (dir, result, none)
  | (result, some (desc, e)) =>
    if repair = true ∧ repairable e = true then
      match p.logFiles.getLast? with
      | none => (dir, result, some .panic)
      | some lastDesc =>
        if desc.id ≠ lastDesc.id then (dir, result, some .notMaximumRepairedFileId)
        else
          match repairLogFile dir lastDesc result.lastValidLogOffset with
          | .error e => (dir, result, some e)
          | .ok dir =>
            let (result, err) := p.replayOnce codecs dir result.reset
            (dir, result, err.map Prod.snd)
    else (dir, result, some e)

end Player

/-! ## What a log means -/

/-- What a list of records says, without checksums and offsets. -/
structure LogView where
  metadata : Bytes
  hardState : HardState
  nextEntry : WalNextEntry
  snapshots : List WalSnapshot
  entries : List Entry
  found : Bool
  deriving DecidableEq

variable {v v' : LogView} {rs : List Record} {r : Record}

namespace LogView

def empty : LogView := ⟨[], .empty, ⟨0, 0⟩, [], [], false⟩

def nextOf (v : LogView) (type : EntryType) (data : Bytes) : Entry :=
  ⟨v.nextEntry.nextTerm, v.nextEntry.nextIndex, type, data⟩

/-- The effect of one record; `none` where the parser fails. -/
def apply (snapshotIndex : Nat) (v : LogView) : Record → Option LogView
  | .crc _ => some v
  | .metadata data => some { v with metadata := data }
  | .hardState st => some { v with hardState := st }
  | .snapshot snap => some { v with snapshots := v.snapshots ++ [snap] }
  | .nextEntry e => some { v with nextEntry := e, found := true }
  | .entry type data =>
    if v.found then
      (decodeInto snapshotIndex v.nextEntry.nextIndex (v.nextOf type data) v.entries).map
        fun entries =>
          { v with
            entries := entries
            nextEntry := ⟨v.nextEntry.nextTerm, (v.nextEntry.nextIndex + 1) % 2 ^ 64⟩ }
    else none

def applyAll (snapshotIndex : Nat) : LogView → List Record → Option LogView
  | v, [] => some v
  | v, r :: rs => (v.apply snapshotIndex r).bind fun v => applyAll snapshotIndex v rs

/-- At the beginning of a file no next-entry record has been seen. -/
def startFile (v : LogView) : LogView := { v with found := false }

variable {snapshotIndex : Nat}

@[simp] theorem applyAll_nil (v : LogView) : v.applyAll snapshotIndex [] = some v := rfl

theorem applyAll_cons (v : LogView) (r : Record) (rs : List Record) :
    v.applyAll snapshotIndex (r :: rs) =
      (v.apply snapshotIndex r).bind fun v => v.applyAll snapshotIndex rs := rfl

theorem applyAll_append (v : LogView) (rs rs' : List Record) :
    v.applyAll snapshotIndex (rs ++ rs') =
      (v.applyAll snapshotIndex rs).bind fun v => v.applyAll snapshotIndex rs' := by
  induction rs generalizing v with
  | nil => rfl
  | cons r rs ih =>
    rw [cons_append, applyAll_cons, applyAll_cons, Option.bind_assoc]
    simp only [ih]

theorem apply_snapshots (h : v.apply snapshotIndex r = some v') :
    v'.snapshots = v.snapshots ++ r.snapshot?.toList := by
  cases r with
  | entry type data =>
    rw [apply] at h
    split at h
    · obtain ⟨entries, -, rfl⟩ := Option.map_eq_some_iff.mp h
      exact (append_nil _).symm
    · cases h
  | snapshot snap =>
    cases h
    rfl
  | crc | metadata | hardState | nextEntry =>
    cases h
    exact (append_nil _).symm

theorem applyAll_snapshots (h : v.applyAll snapshotIndex rs = some v') :
    v'.snapshots = v.snapshots ++ rs.filterMap Record.snapshot? := by
  induction rs generalizing v with
  | nil =>
    cases h
    exact (append_nil _).symm
  | cons r rs ih =>
    rw [applyAll_cons, Option.bind_eq_some_iff] at h
    obtain ⟨u, hu, h⟩ := h
    rw [ih h, apply_snapshots hu, append_assoc]
    cases hr : r.snapshot? <;> simp [hr]

end LogView

/-! ## The parser reads the meaning -/

def entryHead (e : Entry) : Nat × Nat × EntryType := (e.term, e.index, e.type)

def entryIndexHead (e : EntryIndex EntryIndexMetadata) : Nat × Nat × EntryType :=
  (e.term, e.index, e.type)

/-- The collection has collected `entries`. An indexed store has everything but the data. -/
def EntryCollection.Agrees (entries : List Entry) : EntryCollection → Prop
  | .entryStore es => es = entries
  | .indexedEntryStore xs => xs.map entryIndexHead = entries.map entryHead
  | .nopEntryStore => True

theorem decodeInto_map {α β γ : Type} {f : α → γ} {g : β → γ} {snapshotIndex index : Nat}
    {x : α} {y : β} {xs : List α} {ys ys' : List β} (hx : f x = g y) (hxs : xs.map f = ys.map g)
    (h : decodeInto snapshotIndex index y ys = some ys') :
    ∃ xs', decodeInto snapshotIndex index x xs = some xs' ∧ xs'.map f = ys'.map g := by
  have hlen : xs.length = ys.length := by simpa using congrArg List.length hxs
  unfold decodeInto at h ⊢
  by_cases habove : snapshotIndex < index
  · rw [if_pos habove] at h ⊢
    by_cases hgap : ys.length < index - snapshotIndex - 1
    · simp [hgap] at h
    · simp only [hgap, hlen, if_false, Option.some.injEq] at h ⊢
      refine ⟨_, rfl, ?_⟩
      rw [← h, map_append, map_append, map_take, map_take, hxs]
      simp [hx]
  · rw [if_neg habove] at h ⊢
    cases h
    exact ⟨xs, rfl, hxs⟩

/-- The parser has read a log that means `v`. -/
structure Parser.Shows (p : Parser) (v : LogView) : Prop where
  metadata : p.result.metadata = v.metadata
  hardState : p.result.hardState = v.hardState
  snapshots : p.result.walSnapshots = v.snapshots
  found : p.findNextEntry = v.found
  nextEntry : p.result.entryCollection.isNop = false → p.result.nextEntry = v.nextEntry
  entries : p.result.entryCollection.Agrees v.entries

/-- The record can be read back at all. -/
def Record.Readable : Record → Prop
  | .nextEntry e => e.Fits
  | _ => True

instance (r : Record) : Decidable r.Readable := by
  cases r <;> unfold Record.Readable <;> infer_instance

/-- What reading records changes besides the meaning. -/
structure Parser.Advance (p : Parser) (size : Nat) (crc : UInt32) (q : Parser) : Prop where
  offset_eq : q.result.lastValidLogOffset = p.result.lastValidLogOffset + size
  crc_eq : q.result.lastValidLogCrc = crc
  desc_eq : q.result.lastLogFileDesc = p.result.lastLogFileDesc
  clear_eq : q.result.entryCollection.clearEntries = p.result.entryCollection.clearEntries

namespace Parser

variable {codecs : RaftCodecs} {pool : ByteSlicePool} {snapshotIndex : Nat} {p : Parser}

theorem Advance.refl : p.Advance 0 p.result.lastValidLogCrc p := ⟨rfl, rfl, rfl, rfl⟩

variable {crc : UInt32}

theorem Advance.trans {q q' : Parser} {size size' : Nat} {crc' : UInt32} (h : p.Advance size crc q)
    (h' : q.Advance size' crc' q') :
    p.Advance (size + size') crc' q' where
  offset_eq := by rw [h'.offset_eq, h.offset_eq, Nat.add_assoc]
  crc_eq := h'.crc_eq
  desc_eq := h'.desc_eq.trans h.desc_eq
  clear_eq := h'.clear_eq.trans h.clear_eq

variable {d : Decoded}

theorem handleEntry_shows {type : EntryType} (hshows : p.Shows v)
    (happly : v.apply snapshotIndex (.entry type d.logBuf) = some v') :
    ∃ q, p.handleEntry snapshotIndex type d = .ok q ∧ q.Shows v' ∧
      p.Advance 0 p.result.lastValidLogCrc q := by
  have hfound : v.found = true := by
    by_contra hnot
    simp [LogView.apply, hnot] at happly
  rw [LogView.apply, if_pos hfound, Option.map_eq_some_iff] at happly
  obtain ⟨entries, hdecode, rfl⟩ := happly
  cases hcollection : p.result.entryCollection with
  | nopEntryStore =>
    refine ⟨p, by rw [handleEntry, hcollection]; rfl, ?_, .refl⟩
    refine { hshows with nextEntry := ?_, entries := ?_ }
    · intro hnop
      rw [hcollection] at hnop
      cases hnop
    · rw [hcollection]
      trivial
  | entryStore es =>
    have hes : es = v.entries := by
      have := hshows.entries
      rwa [hcollection] at this
    have hnext := hshows.nextEntry (by rw [hcollection]; rfl)
    have hstep : p.handleEntry snapshotIndex type d = .ok { p with result := { p.result with
        entryCollection := .entryStore entries
        nextEntry := ⟨v.nextEntry.nextTerm, (v.nextEntry.nextIndex + 1) % 2 ^ 64⟩ } } := by
      simp only [handleEntry, hcollection, EntryCollection.isNop, hshows.found, hfound,
        ReplayResult.decodeEntry, hnext, hes]
      simp only [LogView.nextOf] at hdecode
      rw [hdecode]
      rfl
    refine ⟨_, hstep, ?_, ?_⟩
    · exact { hshows with nextEntry := fun _ => rfl, entries := rfl }
    · exact ⟨rfl, rfl, rfl, by rw [hcollection]; rfl⟩
  | indexedEntryStore xs =>
    have hxs : xs.map entryIndexHead = v.entries.map entryHead := by
      have := hshows.entries
      rwa [hcollection] at this
    have hnext := hshows.nextEntry (by rw [hcollection]; rfl)
    obtain ⟨xs', hxs', hagrees⟩ := decodeInto_map (f := entryIndexHead) (g := entryHead)
      (x := ⟨v.nextEntry.nextTerm, v.nextEntry.nextIndex, type,
        { fileId := p.result.lastLogFileDesc.id
          offset := p.result.lastValidLogOffset + headerSize
          dataLen := d.logBuf.length
          dataCapacity := d.logSizeWithPadding - headerSize }⟩) rfl hxs hdecode
    have hstep : p.handleEntry snapshotIndex type d = .ok { p with result := { p.result with
        entryCollection := .indexedEntryStore xs'
        nextEntry := ⟨v.nextEntry.nextTerm, (v.nextEntry.nextIndex + 1) % 2 ^ 64⟩ } } := by
      simp only [handleEntry, hcollection, EntryCollection.isNop, hshows.found, hfound,
        ReplayResult.decodeEntry, hnext, hxs']
      rfl
    refine ⟨_, hstep, ?_, ?_⟩
    · exact { hshows with nextEntry := fun _ => rfl, entries := hagrees }
    · exact ⟨rfl, rfl, rfl, by rw [hcollection]; rfl⟩

theorem handleBody_shows (hshows : p.Shows v) (htype : d.logType = r.logType.code)
    (hbody : d.logBuf = r.body codecs) (hread : r.Readable) (hcrc : r.logType ≠ .crc)
    (happly : v.apply snapshotIndex r = some v') :
    ∃ q, p.handleBody codecs snapshotIndex d = .ok q ∧ q.Shows v' ∧
      p.Advance 0 p.result.lastValidLogCrc q := by
  rw [handleBody, htype, LogType.ofCode?_code, hbody]
  cases r with
  | crc value => exact absurd rfl hcrc
  | metadata data =>
    cases happly
    refine ⟨_, rfl, ?_, ⟨rfl, rfl, rfl, rfl⟩⟩
    exact { hshows with metadata := rfl }
  | hardState st =>
    cases happly
    refine ⟨{ p with result := { p.result with hardState := st } }, ?_, ?_, ⟨rfl, rfl, rfl, rfl⟩⟩
    · simp [Record.logType, Record.body, Record.log, EncodeLog.body]
    · exact { hshows with hardState := rfl }
  | snapshot snap =>
    cases happly
    refine ⟨{ p with result := { p.result with
      walSnapshots := p.result.walSnapshots ++ [snap] } }, ?_, ?_, ⟨rfl, rfl, rfl, rfl⟩⟩
    · simp [Record.logType, Record.body, Record.log, EncodeLog.body]
    · exact { hshows with snapshots := by simp [hshows.snapshots] }
  | nextEntry e =>
    cases happly
    refine ⟨{ result := { p.result with nextEntry := e }, findNextEntry := true }, ?_, ?_,
      ⟨rfl, rfl, rfl, rfl⟩⟩
    · simp [Record.logType, Record.body, Record.log, EncodeLog.body,
        WalNextEntry.unmarshal_marshal hread]
    · exact { hshows with found := rfl, nextEntry := fun _ => rfl }
  | entry type data =>
    have hbuf : d.logBuf = data := hbody
    obtain ⟨q, hq, hrest⟩ := handleEntry_shows (d := d) hshows (by rw [hbuf]; exact happly)
    refine ⟨q, ?_, hrest⟩
    cases type <;> exact hq

theorem Shows.setCrc (h : p.Shows v) : (p.setCrc crc).Shows v :=
  { h with }

theorem Shows.increaseOffset {n : Nat} (h : p.Shows v) : (p.increaseOffset n).Shows v :=
  { h with }

theorem logHandler_shows (hshows : p.Shows v) (hcrc : p.result.lastValidLogCrc = crc)
    (hread : r.Readable) (happly : v.apply snapshotIndex r = some v')
    (htype : d.logType = r.logType.code) (hbody : d.logBuf = r.body codecs)
    (hlogCrc : d.logCrc = r.nextCrc codecs crc) :
    ∃ q, p.logHandler codecs snapshotIndex d = (q, none) ∧ q.Shows v' ∧
      p.Advance d.logSizeWithPadding (r.nextCrc codecs crc) q := by
  by_cases hkind : r.logType = .crc
  · obtain ⟨value, rfl⟩ : ∃ value, r = .crc value := by
      cases r with
      | crc value => exact ⟨value, rfl⟩
      | entry type data => cases type <;> cases hkind
      | _ => cases hkind
    cases happly
    have hvalue : UInt32.ofNat (leNat ((leBytes 4 value.toNat).take 4)) = value := by
      rw [take_of_length_le (by simp),
        leNat_leBytes (by have := value.toNat_lt; omega), UInt32.ofNat_toNat]
    refine ⟨(p.setCrc value).increaseOffset d.logSizeWithPadding, ?_,
      hshows.setCrc.increaseOffset, ⟨rfl, rfl, rfl, rfl⟩⟩
    simp [logHandler, htype, hbody, hlogCrc, Record.logType, Record.body, Record.log,
      Record.nextCrc, EncodeLog.body, EncodeLog.encode, hvalue, setCrc]
  · have hcode : d.logType ≠ LogType.crc.code :=
      fun heq => hkind (LogType.code_injective (htype.symm.trans heq))
    have hnext : crc32Update crc d.logBuf = r.nextCrc codecs crc := by
      rw [hbody]
      cases r with
      | crc value => exact absurd rfl hkind
      | _ => rfl
    obtain ⟨q, hq, hshows', hadvance⟩ := handleBody_shows (p := p.setCrc (r.nextCrc codecs crc))
      (d := d) hshows.setCrc htype hbody hread hkind happly
    refine ⟨q.increaseOffset d.logSizeWithPadding, ?_, hshows'.increaseOffset, ?_⟩
    · simp only [logHandler, hcode, if_false, hcrc, hnext, hlogCrc, setCrc, ne_eq,
        not_true_eq_false]
      simp only [setCrc] at hq
      rw [hq]
    · refine ⟨?_, hadvance.crc_eq, hadvance.desc_eq, hadvance.clear_eq⟩
      show q.result.lastValidLogOffset + d.logSizeWithPadding = _
      rw [hadvance.offset_eq]
      rfl

theorem parseLoop_fuel {fuel fuel' : Nat} {stream : Bytes} (h : stream.length < fuel)
    (h' : stream.length < fuel') :
    parseLoop codecs pool snapshotIndex fuel p stream =
      parseLoop codecs pool snapshotIndex fuel' p stream := by
  induction fuel generalizing fuel' p stream with
  | zero => omega
  | succ fuel ih =>
    obtain ⟨fuel', rfl⟩ : ∃ k, fuel' = k + 1 := ⟨fuel' - 1, by omega⟩
    rw [parseLoop, parseLoop]
    split
    · rfl
    rename_i d hdecode
    have hlt := decode_rest_length hdecode
    split
    · rfl
    · exact ih (by omega) (by omega)

theorem handleBody_ok_cases {q : Parser} (h : p.handleBody codecs snapshotIndex d = .ok q) :
    (∃ type, p.handleEntry snapshotIndex type d = .ok q) ∨
      q.result.entryCollection = p.result.entryCollection := by
  simp only [handleBody] at h
  split at h
  · split at h
    · cases h
    · cases h
      exact .inr rfl
  · exact .inl ⟨_, h⟩
  · exact .inl ⟨_, h⟩
  · exact .inl ⟨_, h⟩
  · cases h
    exact .inr rfl
  · split at h
    · cases h
    · cases h
      exact .inr rfl
  · split at h
    · cases h
    · cases h
      exact .inr rfl
  · cases h
  · cases h

section Collection

/-! A property of the entry collection that the handler of entries keeps, and that makes the handler
the same for two snapshots, does both for whole logs. -/

variable (codecs pool) {other : Nat} {P : EntryCollection → Prop}
  (hentry : ∀ {p : Parser} {type d}, P p.result.entryCollection →
    p.handleEntry snapshotIndex type d = p.handleEntry other type d ∧
      ∀ {q}, p.handleEntry snapshotIndex type d = .ok q → P q.result.entryCollection)
include hentry

theorem logHandler_collection (h : P p.result.entryCollection) (d : Decoded) :
    p.logHandler codecs snapshotIndex d = p.logHandler codecs other d ∧
      P (p.logHandler codecs snapshotIndex d).1.result.entryCollection := by
  have hbody : ∀ crc, (p.setCrc crc).handleBody codecs snapshotIndex d =
      (p.setCrc crc).handleBody codecs other d := by
    intro crc
    have hsame := fun type => (@hentry (p.setCrc crc) type d h).1
    simp only [handleBody, hsame]
  constructor
  · simp only [logHandler, hbody]
  · unfold logHandler
    split
    · dsimp only
      split
      · exact h
      · split <;> exact h
    · dsimp only
      split
      · exact h
      · split
        · exact h
        · next q hq =>
          show P q.result.entryCollection
          rcases handleBody_ok_cases hq with ⟨type, hq⟩ | hq
          · have hset : P (p.setCrc
                (crc32Update p.result.lastValidLogCrc d.logBuf)).result.entryCollection := h
            exact (hentry hset).2 hq
          · rw [hq]
            exact h

theorem parseLoop_collection (h : P p.result.entryCollection) (fuel : Nat) (stream : Bytes) :
    parseLoop codecs pool snapshotIndex fuel p stream = parseLoop codecs pool other fuel p stream ∧
      P (parseLoop codecs pool snapshotIndex fuel p stream).1.result.entryCollection := by
  induction fuel generalizing p stream with
  | zero => exact ⟨rfl, h⟩
  | succ fuel ih =>
    rw [parseLoop, parseLoop]
    cases decode pool stream with
    | error e => exact ⟨rfl, h⟩
    | ok d =>
      obtain ⟨hsame, hkept⟩ := logHandler_collection codecs hentry h d
      dsimp only
      rw [← hsame]
      rcases hq : p.logHandler codecs snapshotIndex d with ⟨q, _ | e⟩
      · rw [hq] at hkept
        exact ih hkept d.rest
      · rw [hq] at hkept
        exact ⟨rfl, hkept⟩

theorem replayFiles_collection (dir : Directory) (h : P p.result.entryCollection)
    (files : List LogFileDesc) :
    Player.replayFiles codecs pool snapshotIndex dir p files =
        Player.replayFiles codecs pool other dir p files ∧
      P (Player.replayFiles codecs pool snapshotIndex dir p files).1.result.entryCollection := by
  induction files generalizing p with
  | nil => exact ⟨rfl, h⟩
  | cons desc files ih =>
    rw [Player.replayFiles, Player.replayFiles]
    cases getLogFileReader dir desc with
    | error e => exact ⟨rfl, h⟩
    | ok stream =>
      obtain ⟨hsame, hkept⟩ := parseLoop_collection codecs pool hentry (p := p.start desc) h
        (stream.length + 1) stream
      dsimp only [parse]
      rw [← hsame]
      rcases hq : parseLoop codecs pool snapshotIndex (stream.length + 1) (p.start desc) stream with
        ⟨q, e⟩
      rw [hq] at hkept
      cases e with
      | eof => exact ih hkept
      | _ => exact ⟨rfl, hkept⟩

end Collection

/-- The handler on one record after the other, up to the first error. -/
def feed (codecs : RaftCodecs) (snapshotIndex : Nat) (p : Parser) :
    UInt32 → List Record → Parser × Option WalError
  | _, [] => (p, none)
  | crc, r :: rs =>
    match p.logHandler codecs snapshotIndex (r.decoded codecs crc []) with
    | (q, some e) => (q, some e)
    | (q, none) => q.feed codecs snapshotIndex (r.nextCrc codecs crc) rs

theorem parseLoop_records {fuel : Nat} (tail : Bytes) (hfits : ∀ r ∈ rs, r.Fits codecs pool)
    (hvisible : AllVisible codecs crc rs)
    (hfuel : (encodeRecords codecs crc rs ++ tail).length < fuel) :
    parseLoop codecs pool snapshotIndex fuel p (encodeRecords codecs crc rs ++ tail) =
      match p.feed codecs snapshotIndex crc rs with
      | (q, some e) => (q, e)
      | (q, none) => parseLoop codecs pool snapshotIndex (tail.length + 1) q tail := by
  induction rs generalizing p crc fuel with
  | nil => exact parseLoop_fuel hfuel (Nat.lt_succ_self _)
  | cons r rs ih =>
    obtain ⟨fuel, rfl⟩ : ∃ k, fuel = k + 1 := ⟨fuel - 1, by omega⟩
    have hpos : 0 < (r.bytes codecs crc).length :=
      Nat.lt_of_lt_of_le (by decide) Record.headerSize_le_bytes
    rw [encodeRecords, append_assoc] at hfuel ⊢
    rw [length_append] at hfuel
    rw [parseLoop, Record.decode_bytes (hfits r (by simp)) hvisible.1, feed]
    -- the handler does not look at the bytes behind the record
    change (match p.logHandler codecs snapshotIndex (r.decoded codecs crc []) with
      | (p, some e) => (p, e)
      | (p, none) => parseLoop codecs pool snapshotIndex fuel p _) = _
    rcases p.logHandler codecs snapshotIndex (r.decoded codecs crc []) with ⟨q, _ | e⟩
    · exact ih (fun r' hr' => hfits r' (by simp [hr'])) hvisible.2 (by omega)
    · rfl

theorem feed_shows (hshows : p.Shows v) (hcrc : p.result.lastValidLogCrc = crc)
    (hread : ∀ r ∈ rs, r.Readable) (happly : v.applyAll snapshotIndex rs = some v') :
    ∃ q, p.feed codecs snapshotIndex crc rs = (q, none) ∧ q.Shows v' ∧
      p.Advance (encodeRecords codecs crc rs).length (crcAfter codecs crc rs) q := by
  induction rs generalizing p v crc with
  | nil =>
    cases happly
    exact ⟨p, rfl, hshows, hcrc ▸ .refl⟩
  | cons r rs ih =>
    rw [LogView.applyAll_cons, Option.bind_eq_some_iff] at happly
    obtain ⟨u, hu, happly⟩ := happly
    obtain ⟨q, hq, hqshows, hqadvance⟩ := logHandler_shows
      (d := r.decoded codecs crc []) hshows hcrc (hread r (by simp)) hu rfl rfl rfl
    obtain ⟨q', hq', hshows', hadvance⟩ := ih hqshows hqadvance.crc_eq
      (fun r' hr' => hread r' (by simp [hr'])) happly
    refine ⟨q', by simp only [feed, hq, hq'], hshows', ?_⟩
    rw [encodeRecords, length_append]
    exact hqadvance.trans hadvance

end Parser

end Babuza.Babuzawal
