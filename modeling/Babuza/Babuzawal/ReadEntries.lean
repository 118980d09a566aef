import Babuza.Babuzawal.EntryIndex
import Babuza.Babuzawal.Purge

/-!
# Reading through the entry index

`Manager.ReadEntriesData` fills the data into entries from the places that their index names
(`logfile/manager.go`, `utility/utility.go`). It reads what lies in the directory, so the records
of the entries must have left the buffer of the page writer: `Save` syncs whenever it has written
an entry.

A run of the log keeps an index that a replay of its files builds again, and every part of it reads
back what was saved last. Only for the empty part `ReadEntriesData` returns an error.
-/

namespace Babuza.Babuzawal

open Lib Allocator Walbase List

inductive ReadDataError
  | invalidSize
  | logFileNotFound (id : Nat)
  | fileNotExist
  | invalidOffset
  | eof
  deriving DecidableEq

/-- A round of `utility.ReadEntriesData`, with `ReadAt` of the mapped file. -/
def readEntryData (file : Bytes) (m : EntryIndex EntryIndexMetadata) (d : Entry) :
    Except ReadDataError Entry :=
  if 0 < m.metadata.dataLen then
    if file.length < m.metadata.offset then .error .invalidOffset
    else
      let data := (file.drop m.metadata.offset).take m.metadata.dataLen
      if data.length < m.metadata.dataLen then .error .eof else .ok { d with data := data }
  else .ok d

def Utility.readEntriesData (dir : Directory) (name : FileName)
    (ents : List (EntryIndex EntryIndexMetadata × Entry)) : Except ReadDataError (List Entry) :=
  match dir.lookup name with
  | none => .error .fileNotExist
  | some file => ents.mapM fun x => readEntryData file x.1 x.2

namespace Manager

def readFile (m : Manager) (dir : Directory) (id : Nat)
    (ents : List (EntryIndex EntryIndexMetadata × Entry)) : Except ReadDataError (List Entry) :=
  match m.filesDesc.lookup id with
  | none => .error (.logFileNotFound id)
  | some desc => Utility.readEntriesData dir desc.getLogFileName ents

/-- The loop of `ReadEntriesData`; `group` are the entries from `startIndex` on. -/
def readLoop (m : Manager) (dir : Directory) : (currFileId : Nat) →
    (group : List (EntryIndex EntryIndexMetadata × Entry)) →
    List (EntryIndex EntryIndexMetadata × Entry) → Except ReadDataError (List Entry)
  | currFileId, group, [] => m.readFile dir currFileId group
  | currFileId, group, x :: rest =>
    if currFileId ≠ x.1.metadata.fileId then do
      let front ← m.readFile dir currFileId group
      let back ← readLoop m dir x.1.metadata.fileId [x] rest
      return front ++ back
    else readLoop m dir currFileId (group ++ [x]) rest

def readEntriesData (m : Manager) (dir : Directory)
    (readEntryIndex : List (EntryIndex EntryIndexMetadata)) (destEnts : List Entry) :
    Except ReadDataError (List Entry) :=
  match readEntryIndex with
  | [] => .error .invalidSize
  | ei :: _ =>
    if readEntryIndex.length ≠ destEnts.length then .error .invalidSize
    else m.readLoop dir ei.metadata.fileId [] (readEntryIndex.zip destEnts)

variable {m : Manager} {dir : Directory}

/-- The index `x` leads to the data of `e`. -/
def Finds (m : Manager) (dir : Directory) (x : EntryIndex EntryIndexMetadata) (e : Entry) : Prop :=
  ∃ desc file, m.filesDesc.lookup x.metadata.fileId = some desc ∧
    dir.lookup desc.getLogFileName = some file ∧
    readEntryData file x (EntryStorage.blank x) = .ok e

/-- What is handed to the loop: the index and an entry without data. -/
def request (p : EntryIndex EntryIndexMetadata × Entry) : EntryIndex EntryIndexMetadata × Entry :=
  (p.1, EntryStorage.blank p.1)

variable {pairs : List (EntryIndex EntryIndexMetadata × Entry)}

theorem readFile_eq {id : Nat} (hne : pairs ≠ [])
    (h : ∀ p ∈ pairs, p.1.metadata.fileId = id ∧ m.Finds dir p.1 p.2) :
    m.readFile dir id (pairs.map request) = .ok (pairs.map Prod.snd) := by
  obtain ⟨first, hfirst⟩ := exists_mem_of_ne_nil pairs hne
  obtain ⟨rfl, desc, file, hdesc, hfile, -⟩ := h first hfirst
  simp only [readFile, hdesc, Utility.readEntriesData, hfile]
  rw [mapM_map]
  refine mapM_eq_ok fun p hp => ?_
  obtain ⟨hid, desc', file', hdesc', hfile', hread⟩ := h p hp
  rw [hid, hdesc] at hdesc'
  cases hdesc'
  rw [hfile] at hfile'
  cases hfile'
  exact hread

theorem readLoop_eq {id : Nat} {group : List (EntryIndex EntryIndexMetadata × Entry)}
    (hne : group ≠ []) (hgroup : ∀ p ∈ group, p.1.metadata.fileId = id ∧ m.Finds dir p.1 p.2)
    (hpairs : ∀ p ∈ pairs, m.Finds dir p.1 p.2) :
    m.readLoop dir id (group.map request) (pairs.map request) =
      .ok (group.map Prod.snd ++ pairs.map Prod.snd) := by
  induction pairs generalizing id group with
  | nil => rw [map_nil, readLoop, readFile_eq hne hgroup, map_nil, append_nil]
  | cons p pairs ih =>
    obtain ⟨hp, hrest⟩ := forall_mem_cons.mp hpairs
    rw [map_cons, readLoop]
    split
    · have hsingle : m.readLoop dir p.1.metadata.fileId ([p].map request) (pairs.map request) =
          .ok ([p].map Prod.snd ++ pairs.map Prod.snd) := ih (by simp) (by simp [hp]) hrest
      rw [readFile_eq hne hgroup, ok_bind]
      exact bind_eq_ok.mpr ⟨_, hsingle, rfl⟩
    · rename_i hsame
      have hgroup' : ∀ q ∈ group ++ [p], q.1.metadata.fileId = id ∧ m.Finds dir q.1 q.2 :=
        forall_mem_concat.mpr ⟨hgroup, (not_not.mp hsame).symm, hp⟩
      have hlast := ih (by simp) hgroup' hrest
      rw [map_append, map_singleton] at hlast
      rw [hlast, map_append, append_assoc]
      rfl

theorem readEntriesData_eq (hne : pairs ≠ []) (h : ∀ p ∈ pairs, m.Finds dir p.1 p.2) :
    m.readEntriesData dir (pairs.map Prod.fst) ((pairs.map Prod.fst).map EntryStorage.blank) =
      .ok (pairs.map Prod.snd) := by
  cases pairs with
  | nil => exact absurd rfl hne
  | cons p pairs =>
    obtain ⟨hp, hrest⟩ := forall_mem_cons.mp h
    have hzip : ((p :: pairs).map Prod.fst).zip (((p :: pairs).map Prod.fst).map
        EntryStorage.blank) = request p :: pairs.map request := by
      rw [map_map, zip_map']
      rfl
    have hloop : m.readLoop dir p.1.metadata.fileId ([p].map request) (pairs.map request) =
        .ok ([p].map Prod.snd ++ pairs.map Prod.snd) :=
      readLoop_eq (by simp) (by simp [hp]) hrest
    rw [map_cons] at hzip ⊢
    rwa [readEntriesData, if_neg (by simp), hzip, readLoop, if_neg (by simp [request])]

end Manager

/-! ## Entries that have reached their files -/

variable {st : HardState} {files : List LogFileDesc} {entries : List Entry} {snapshot : Snapshot}

section Flushed

variable {codecs : RaftCodecs} {cfg : ManagerConfig} {pool : ByteSlicePool} {w w' : Wal}
  {dir dir' : Directory} {J : Journal}

variable {before rs : List Record}

theorem readEntryData_indexAt {id : Nat} {e : Entry} (behind : Bytes) :
    readEntryData (contents codecs (before ++ [.entry e.type e.data]) ++ behind)
      (indexAt codecs id before e) (EntryStorage.blank (indexAt codecs id before e)) = .ok e := by
  obtain ⟨front, rest, hfront, hfile⟩ : ∃ front rest,
      front.length = (contents codecs before).length + headerSize ∧
      contents codecs (before ++ [.entry e.type e.data]) ++ behind = front ++ (e.data ++ rest) := by
    rw [LogFile.contents_append_singleton, append_assoc, LogFile.added, Record.bytes,
      frame_split, ← append_assoc (contents codecs before), append_assoc (Record.body _ _)]
    refine ⟨_, _, ?_, rfl⟩
    simp [headerSize]
  rw [hfile, readEntryData]
  have hoffset : (indexAt codecs id before e).metadata.offset = front.length := hfront.symm
  have hlen : (indexAt codecs id before e).metadata.dataLen = e.data.length := rfl
  rw [hoffset, hlen, drop_left, take_left]
  split
  · rw [if_neg (by simp)]
    rw [if_neg (Nat.lt_irrefl _)]
    rfl
  · have hdata : e.data = [] := List.length_eq_zero_iff.mp (by omega)
    obtain ⟨term, index, type, data⟩ := e
    cases hdata
    rfl

/-- The file has all its records of entries. -/
def LogFile.Flushed (codecs : RaftCodecs) (l : LogFile) (rs : List Record) : Prop :=
  ∀ before type data after, rs = before ++ .entry type data :: after →
    (contents codecs (before ++ [.entry type data])).length ≤ l.pw.seek

theorem contents_take (before after : List Record) :
    contents codecs before <+: contents codecs (before ++ after) := by
  rw [contents, contents, encodeRecords_append, ← append_assoc]
  exact prefix_append _ _

theorem LogFile.flushed_of_not_entry {l : LogFile} (h : ∀ r ∈ rs, r.isEntry = false) :
    l.Flushed codecs rs := by
  intro before type data after hrs
  have hentry := h (.entry type data) (by rw [hrs]; simp)
  cases hentry

theorem LogFile.Flushed.encode {l l' : LogFile} {r : Record} (h : l.Flushed codecs rs)
    (hr : r.isEntry = false) (hencode : l.encode codecs dir r = .ok (l', dir')) :
    l'.Flushed codecs (rs ++ [r]) := by
  intro before type data after hrs
  refine le_trans ?_ (LogFile.encode_seek_le hencode)
  rcases eq_nil_or_concat after with rfl | ⟨after', last, rfl⟩
  · have hlast := congrArg List.getLast? hrs
    simp at hlast
    rw [hlast] at hr
    cases hr
  · rw [concat_eq_append, ← cons_append, ← append_assoc] at hrs
    exact h before type data after' (append_inj_left' hrs rfl)

theorem Represents.flushed_sync (h : Represents codecs cfg pool w dir J)
    (hsync : w.sync dir = .ok (w', dir')) : w'.currentLogFile.Flushed codecs J.current.records := by
  obtain ⟨⟨l, d⟩, hl, hpure⟩ := bind_eq_ok.mp hsync
  cases hpure
  intro before type data after hrs
  rw [h.holds.sync_seek hl, hrs, append_cons before _ after]
  exact (contents_take _ _).length_le

theorem Flushed.saveHardState (h : w.currentLogFile.Flushed codecs J.current.records)
    (hsave : w.saveHardState codecs dir st = .ok (w', dir')) :
    w'.currentLogFile.Flushed codecs (J.saveHardState codecs st).current.records := by
  unfold Wal.saveHardState at hsave
  rw [Journal.saveHardState]
  split at hsave
  · rename_i hempty
    cases hsave
    rwa [if_pos hempty]
  · rename_i hempty
    obtain ⟨⟨l, d⟩, hencode, hpure⟩ := bind_eq_ok.mp hsave
    cases hpure
    rw [if_neg hempty]
    exact h.encode rfl hencode

section

variable (h : Represents codecs cfg pool w dir J)
include h

theorem Represents.flushed_save (hflushed : w.currentLogFile.Flushed codecs J.current.records)
    (hsave : w.save codecs dir st entries = .ok (w', dir')) :
    w'.currentLogFile.Flushed codecs
      (J.save codecs cfg.logFileChunkSize st entries).current.records := by
  obtain ⟨w₁, dir₁, w₂, dir₂, hentries, hhardState, -, h₂, ⟨-, hJ⟩ | ⟨hJ, hlast⟩⟩ :=
    h.save_cases hsave
  · rw [hJ]
    exact LogFile.flushed_of_not_entry (Journal.rotateRecords_isEntry codecs _)
  · rw [hJ]
    split at hlast
    · exact h₂.flushed_sync hlast
    · rename_i hsync
      -- without a sync there were no entries
      have hnil : entries = [] := by
        cases entries with
        | nil => rfl
        | cons e entries => exact absurd rfl hsync
      rw [if_pos hnil] at hentries
      cases hentries
      cases hlast
      rw [hnil]
      exact Flushed.saveHardState hflushed hhardState

theorem Represents.flushed_saveSnapshot
    (hsave : w.saveSnapshot codecs dir snapshot = .ok (w', dir')) :
    w'.currentLogFile.Flushed codecs (J.saveSnapshot codecs snapshot).current.records := by
  obtain ⟨⟨l, d⟩, hencode, hsync⟩ := bind_eq_ok.mp hsave
  rw [LogFile.snapshot, if_neg (by simp [Snapshot.toWal])] at hencode
  have h₁ := h.encode hencode { w.state with
    lastEntryIndex := max w.state.lastEntryIndex snapshot.metadata.index } w.entryIndexStorage
  exact h₁.flushed_sync hsync

theorem Represents.lookup_entry {s : Segment} {after : List Record} {type : EntryType}
    {data : Bytes} (hflushed : w.currentLogFile.Flushed codecs J.current.records)
    (hs : s ∈ J.segments) (hrecords : s.records = before ++ .entry type data :: after) :
    ∃ behind, dir.lookup s.name =
      some (contents codecs (before ++ [.entry type data]) ++ behind) := by
  have hfront : contents codecs (before ++ [.entry type data]) <+: contents codecs s.records := by
    rw [hrecords, append_cons before _ after]
    exact contents_take _ _
  rcases List.mem_append.mp hs with hs | hs
  · obtain ⟨behind, hbehind⟩ := hfront
    exact ⟨behind, by rw [h.lookup_closed s hs, hbehind]⟩
  · rw [mem_singleton.mp hs] at hfront hrecords ⊢
    rw [← h.name_eq]
    exact h.holds.lookup_take hfront (hflushed _ _ _ _ hrecords)

theorem Represents.filesDesc_lookup {s : Segment} (htidy : Tidy w dir files) (hs : s ∈ J.segments) :
    w.logMgr.filesDesc.lookup s.id = some s.desc := by
  have hdir : s.name ∈ dir := by
    rw [← AList.lookup_isSome]
    rcases List.mem_append.mp hs with hs | hs
    · rw [h.lookup_closed s hs]
      rfl
    · obtain ⟨file, hfile, -⟩ := h.holds.file
      rw [mem_singleton.mp hs, ← h.name_eq, hfile]
      rfl
  have hfile : s.desc ∈ files := (htidy.mem s.desc).mp (mem_parse_iff.mpr ⟨hdir, rfl⟩)
  rw [← Option.mem_def, AList.mem_lookup_iff]
  exact htidy.known.mem_iff.mpr (mem_map.mpr ⟨s.desc, hfile, rfl⟩)

theorem Represents.finds {x : EntryIndex EntryIndexMetadata} {e : Entry} (htidy : Tidy w dir files)
    (hflushed : w.currentLogFile.Flushed codecs J.current.records) (hx : J.Places codecs x e) :
    w.logMgr.Finds dir x e := by
  obtain ⟨s, hs, before, after, hrecords, rfl⟩ := hx
  obtain ⟨behind, hbehind⟩ := h.lookup_entry hflushed hs hrecords
  exact ⟨s.desc, _, h.filesDesc_lookup htidy hs, hbehind, readEntryData_indexAt behind⟩

end

end Flushed

/-! ## Runs -/

/-- What happens to a log with its index: an operation on the log, and what the node does with the
entry storage. -/
inductive IndexOp
  | write (op : WalOp)
  | applySnapshot (snap : Snapshot)
  | compact (compactIndex : Nat)

/-- A call of the entry storage; one that fails leaves it as it is. -/
def Wal.withStorage (w : Wal)
    (call : EntryStorage EntryIndexMetadata →
      Except StorageError (EntryStorage EntryIndexMetadata)) : Wal :=
  match w.entryIndexStorage with
  | none => w
  | some es =>
    match call es with
    | .error _ => w
    | .ok es => { w with entryIndexStorage := some es }

namespace IndexOp

def exec (codecs : RaftCodecs) (s : Wal × Directory) : IndexOp → Except WalError (Wal × Directory)
  | write op => op.exec codecs s
  | applySnapshot snap => .ok (s.1.withStorage fun es => es.applySnapshot snap, s.2)
  | compact compactIndex => .ok (s.1.withStorage fun es => es.compact compactIndex, s.2)

def journal (codecs : RaftCodecs) (chunkSize : Nat) (J : Journal) : IndexOp → Journal
  | write op => op.journal codecs chunkSize J
  | _ => J

def state (S : LogState) : IndexOp → LogState
  | write op => op.state S
  | _ => S

def saved : IndexOp → List Entry
  | write (.save _ entries) => entries
  | write (.saveSnapshot _) | applySnapshot _ | compact _ => []

/-- The log goes on without a gap, also behind a snapshot that is applied. -/
def Valid (S : LogState) : IndexOp → Prop
  | write op => op.Valid S
  | applySnapshot snap => snap.metadata.index ≤ S.entries.length
  | compact _ => True

def AllValid : LogState → List IndexOp → Prop
  | _, [] => True
  | S, op :: ops => op.Valid S ∧ AllValid (op.state S) ops

/-- Entries are saved above what the storage has dropped. -/
def Above (s : Wal × Directory) : IndexOp → Prop
  | write (.save _ entries) =>
    ∀ es ∈ s.1.entryIndexStorage, ∀ e ∈ entries, es.dummy.index < e.index
  | _ => True

instance (s : Wal × Directory) (op : IndexOp) : Decidable (op.Above s) := by
  unfold Above
  split <;> infer_instance

end IndexOp

section Run

variable {codecs : RaftCodecs} {cfg : ManagerConfig} {pool : ByteSlicePool} {metadata : Bytes}
  {exact : Bool} {saved : List Entry} {S : LogState} {J : Journal} {s s' : Wal × Directory}

structure Serving (codecs : RaftCodecs) (cfg : ManagerConfig) (pool : ByteSlicePool)
    (metadata : Bytes) (exact : Bool) (saved : List Entry) (S : LogState) (J : Journal)
    (s : Wal × Directory) : Prop where
  represents : Represents codecs cfg pool s.1 s.2 J
  stores : J.Stores metadata S
  blank : Blank pool J.tail
  tidy : ∃ files, Tidy s.1 s.2 files
  keeps : ∃ xs, s.1.KeepsIndex codecs exact J S.entries xs
  flushed : s.1.currentLogFile.Flushed codecs J.current.records
  latest : ∀ e ∈ S.entries, lastSaved saved e.index = some e

section

variable (h : Serving codecs cfg pool metadata exact saved S J s)
include h

theorem Serving.consecutive : Consecutive Entry.index 1 S.entries := by
  obtain ⟨xs, hkeeps⟩ := h.keeps
  obtain ⟨es, -, hlive⟩ := hkeeps.live
  exact hkeeps.indexed.consecutive hlive.consecutive

theorem Serving.withStorage
    {call : EntryStorage EntryIndexMetadata → Except StorageError (EntryStorage EntryIndexMetadata)}
    (hcall : ∀ es es' xs, xs.length = S.entries.length → Live exact es xs → call es = .ok es' →
      Live exact es' xs) :
    Serving codecs cfg pool metadata exact saved S J (s.1.withStorage call, s.2) := by
  obtain ⟨xs, hkeeps⟩ := h.keeps
  obtain ⟨es, hes, hlive⟩ := hkeeps.live
  have hlength := hkeeps.indexed.places.length_eq
  obtain ⟨files, htidy⟩ := h.tidy
  cases hresult : call es with
  | error e =>
    have hsame : s.1.withStorage call = s.1 := by
      simp only [Wal.withStorage, hes, hresult]
    rwa [hsame]
  | ok es' =>
    have hset : s.1.withStorage call = { s.1 with entryIndexStorage := some es' } := by
      simp only [Wal.withStorage, hes, hresult]
    rw [hset]
    exact {
      represents := h.represents.setEntryIndexStorage (some es')
      stores := h.stores
      blank := h.blank
      tidy := ⟨files, htidy.sameFiles ⟨rfl, rfl, fun _ => Iff.rfl⟩⟩
      keeps := ⟨xs, ⟨es', rfl, hcall es es' xs hlength hlive hresult⟩, hkeeps.indexed⟩
      flushed := h.flushed
      latest := h.latest }

theorem Serving.save (hvalid : ValidBatch S.entries.length entries)
    (habove : ∀ es ∈ s.1.entryIndexStorage, ∀ e ∈ entries, es.dummy.index < e.index)
    (hsave : s.1.save codecs s.2 st entries = .ok s') :
    Serving codecs cfg pool metadata exact (saved ++ entries) (S.save st entries)
      (J.save codecs cfg.logFileChunkSize st entries) s' := by
  have hexec : (WalOp.save st entries).exec codecs s = .ok s' := hsave
  obtain ⟨files, htidy⟩ := h.tidy
  obtain ⟨xs, hkeeps⟩ := h.keeps
  obtain ⟨first, hentries, hpos, -⟩ := hvalid.consecutive
  exact {
    represents := save_represents h.represents hsave
    stores := h.stores.save codecs cfg.logFileChunkSize hvalid
    blank := blank_exec cfg.logFileChunkSize (.save st entries) h.blank
    tidy := htidy.exec hexec
    keeps := hkeeps.save h.represents h.stores hvalid habove hsave
    flushed := h.represents.flushed_save h.flushed hsave
    latest := fun e he => lastSaved_truncAppend h.consecutive h.latest hentries hpos he }

theorem Serving.saveSnapshot (hsave : s.1.saveSnapshot codecs s.2 snapshot = .ok s') :
    Serving codecs cfg pool metadata exact saved (S.saveSnapshot snapshot)
      (J.saveSnapshot codecs snapshot) s' := by
  have hexec : (WalOp.saveSnapshot snapshot).exec codecs s = .ok s' := hsave
  obtain ⟨files, htidy⟩ := h.tidy
  obtain ⟨xs, hkeeps⟩ := h.keeps
  exact {
    represents := saveSnapshot_represents h.represents hsave
    stores := h.stores.saveSnapshot codecs snapshot
    blank := blank_exec cfg.logFileChunkSize (.saveSnapshot snapshot) h.blank
    tidy := htidy.exec hexec
    keeps := ⟨xs, hkeeps.saveSnapshot hsave⟩
    flushed := h.represents.flushed_saveSnapshot hsave
    latest := h.latest }

theorem Serving.exec {op : IndexOp} (hvalid : op.Valid S) (habove : op.Above s)
    (hexact : exact = true → ∀ snap, op ≠ .applySnapshot snap) (hexec : op.exec codecs s = .ok s') :
    Serving codecs cfg pool metadata exact (saved ++ op.saved) (op.state S)
      (op.journal codecs cfg.logFileChunkSize J) s' := by
  cases op with
  | write op =>
    cases op with
    | save st entries => exact h.save hvalid habove hexec
    | saveSnapshot snapshot =>
      rw [IndexOp.saved, append_nil]
      exact h.saveSnapshot hexec
  | applySnapshot snap =>
    cases hexec
    rw [IndexOp.saved, append_nil]
    refine h.withStorage fun es es' xs hlength hlive happly => ?_
    cases exact with
    | true => exact absurd rfl (hexact rfl snap)
    | false => exact hlive.applySnapshot (by rw [hlength]; exact hvalid) happly
  | compact compactIndex =>
    cases hexec
    rw [IndexOp.saved, append_nil]
    exact h.withStorage fun es es' xs _ hlive hcompact => hlive.compact hcompact

theorem Serving.run {ops : List IndexOp} (hvalid : IndexOp.AllValid S ops)
    (habove : Throughout (IndexOp.exec codecs) IndexOp.Above s ops)
    (hexact : exact = true → ∀ snap, IndexOp.applySnapshot snap ∉ ops)
    (hrun : Lib.run (IndexOp.exec codecs) s ops = .ok s') :
    Serving codecs cfg pool metadata exact (saved ++ ops.flatMap IndexOp.saved)
      (ops.foldl IndexOp.state S) (ops.foldl (IndexOp.journal codecs cfg.logFileChunkSize) J)
      s' := by
  induction ops generalizing s S J saved with
  | nil =>
    cases hrun
    rwa [flatMap_nil, append_nil]
  | cons op ops ih =>
    obtain ⟨s₁, hexec, hrest⟩ := run_cons_eq_ok.mp hrun
    have h₁ :=
      h.exec hvalid.1 habove.1 (fun hexact' snap heq => hexact hexact' snap (by simp [heq])) hexec
    have hlast := ih h₁ hvalid.2 (habove.2 s₁ hexec)
      (fun hexact' snap hmem => hexact hexact' snap (mem_cons_of_mem _ hmem)) hrest
    rwa [append_assoc] at hlast

end

theorem serving_create {options : Options} (exact : Bool)
    (hindex : options.disableEntryIndex = false)
    (hcreate : createWalInternal codecs metadata options pool = .ok s) :
    Serving codecs options.managerConfig pool metadata exact [] .initial
      (.create codecs options.walLogFileChunkSize metadata) s := by
  obtain ⟨⟨w, dir⟩, hwal, hpure⟩ := bind_eq_ok.mp hcreate
  simp only [hindex, Bool.false_eq_true, if_false] at hpure
  cases hpure
  obtain ⟨hrep, -⟩ := createWal_represents hwal
  have hnone : ∀ r ∈ [Record.crc 0, .metadata metadata, .snapshot .empty], r.isEntry = false := by
    simp [Record.isEntry]
  obtain ⟨v, hv⟩ := LogView.indexAll_of_not_entry codecs 0 0 hnone [] LogView.empty.startFile []
  have hstart : LogView.indexSegments codecs 0 LogView.empty [] [] = some (LogView.empty, []) := rfl
  exact {
    represents := hrep.setEntryIndexStorage _
    stores := Journal.stores_create codecs _ metadata
    blank := blank_zeros pool _
    tidy := ⟨_, (createWal_tidy hwal).sameFiles ⟨rfl, rfl, fun _ => Iff.rfl⟩⟩
    keeps :=
      ⟨[], ⟨_, rfl, consecutive_nil, Nat.le_refl _, prefix_refl _, fun _ => rfl⟩,
      ⟨v, (LogView.indexSegments_concat hstart).trans hv⟩, .nil⟩
    flushed := LogFile.flushed_of_not_entry hnone
    latest := fun e he => absurd he (by simp [LogState.initial]) }

theorem Serving.replayWal_eq (h : Serving codecs cfg pool metadata exact saved S J s)
    {options : Options} {dir : Directory} (hindex : options.disableEntryIndex = false)
    (hclose : s.1.close s.2 = .ok dir)
    (hvisible : ∀ t ∈ J.segments, AllVisible codecs 0 t.records) :
    ∃ result w dir' es xs, replayWal codecs dir none options pool = .ok (result, w, dir') ∧
      result.entryCollection = .indexedEntryStore xs ∧ s.1.entryIndexStorage = some es ∧
      Live exact es xs ∧ List.Forall₂ (J.Places codecs) xs S.entries := by
  obtain ⟨xs, hkeeps⟩ := h.keeps
  obtain ⟨es, hes, hlive⟩ := hkeeps.live
  obtain ⟨u, hu⟩ := hkeeps.indexed.read
  have hat := close_segmentsAt h.represents hclose
  obtain ⟨p, v, hp, hpool, hplay, -, hshown⟩ := h.stores.playable hat h.represents.fits hvisible
  have hnone : Player.create dir (startIndex none) pool = .ok p := hp
  obtain ⟨result, w, dir', hreplay, hplayer, -, -⟩ := hplay.replayWal_eq hnone hpool
    (fun _ hs => hs) hshown h.blank hat h.represents.fits options
  have hcollection : options.newCollection = .indexedEntryStore [] := by
    simp [Options.newCollection, hindex]
  have hstart : p.startSnapshotIndex = 0 := by
    obtain ⟨files, -, hpure⟩ := bind_eq_ok.mp hp
    cases hpure
    rfl
  have hxs := hplay.replay_index (fun t ht => hat.name_ne ht) (hstart ▸ hu) (hpool ▸ h.blank)
  rw [← hcollection, hplayer] at hxs
  exact ⟨result, w, dir', es, xs, hreplay, hxs, hes, hlive, hkeeps.indexed.places⟩

theorem exists_of_forall₂ {α β : Type} {R : α → β → Prop} {xs : List α} {ys : List β}
    (h : List.Forall₂ R xs ys) {x : α} (hx : x ∈ xs) : ∃ y ∈ ys, R x y := by
  induction h with
  | nil => cases hx
  | cons hR _ ih =>
    rcases mem_cons.mp hx with rfl | hx
    · exact ⟨_, mem_cons_self, hR⟩
    · obtain ⟨y, hy, hxy⟩ := ih hx
      exact ⟨y, mem_cons_of_mem _ hy, hxy⟩

theorem Serving.readEntriesData_eq (h : Serving codecs cfg pool metadata exact saved S J s)
    {es : EntryStorage EntryIndexMetadata} {xs index : List (EntryIndex EntryIndexMetadata)}
    (hlive : Live exact es xs) (hplaces : List.Forall₂ (J.Places codecs) xs S.entries)
    (hindex : index.Sublist es.ents) (hne : index ≠ []) :
    ∃ ents, s.1.logMgr.readEntriesData s.2 index (index.map EntryStorage.blank) = .ok ents ∧
      ents.map some = index.map fun x => lastSaved saved x.index := by
  obtain ⟨files, htidy⟩ := h.tidy
  have hfound : ∀ x ∈ index, ∃ e, lastSaved saved x.index = some e ∧
      s.1.logMgr.Finds s.2 x e := by
    intro x hx
    obtain ⟨e, he, hplace⟩ := exists_of_forall₂ hplaces
      (mem_of_mem_drop (hlive.front.subset (hindex.subset hx)))
    have hfinds := h.represents.finds htidy h.flushed hplace
    obtain ⟨t, -, before, after, -, rfl⟩ := hplace
    exact ⟨e, h.latest e he, hfinds⟩
  -- the entry that is read for an index, together with the index
  let found := fun x : EntryIndex EntryIndexMetadata =>
    (x, (lastSaved saved x.index).getD (EntryStorage.blank x))
  have hpairs : ∀ p ∈ index.map found, s.1.logMgr.Finds s.2 p.1 p.2 := by
    intro p hp
    obtain ⟨x, hx, rfl⟩ := mem_map.mp hp
    obtain ⟨e, he, hfinds⟩ := hfound x hx
    simp only [found, he, Option.getD_some]
    exact hfinds
  have hread := Manager.readEntriesData_eq (by simpa using hne) hpairs
  have hfst : (index.map found).map Prod.fst = index := by
    rw [map_map]
    exact map_id index
  rw [hfst] at hread
  refine ⟨_, hread, ?_⟩
  rw [map_map, map_map]
  refine map_congr_left fun x hx => ?_
  obtain ⟨e, he, -⟩ := hfound x hx
  simp only [Function.comp_apply, found, he, Option.getD_some]

/-- The index of a log is the one that a replay builds, and it reads back what was saved last. -/
theorem index_replayed_and_read {options : Options} {s₀ : Wal × Directory} {dir : Directory}
    {ops : List IndexOp} (hindex : options.disableEntryIndex = false)
    (hcreate : createWalInternal codecs metadata options pool = .ok s₀)
    (hvalid : IndexOp.AllValid .initial ops)
    (habove : Throughout (IndexOp.exec codecs) IndexOp.Above s₀ ops)
    (hrun : Lib.run (IndexOp.exec codecs) s₀ ops = .ok s) (hclose : s.1.close s.2 = .ok dir)
    (hvisible : ∀ t ∈ (ops.foldl (IndexOp.journal codecs options.walLogFileChunkSize)
      (.create codecs options.walLogFileChunkSize metadata)).segments,
      AllVisible codecs 0 t.records) :
    ∃ es xs result w dir', s.1.entryIndexStorage = some es ∧
      replayWal codecs dir none options pool = .ok (result, w, dir') ∧
      result.entryCollection = .indexedEntryStore xs ∧
      es.ents <+: xs.drop es.dummy.index ∧
      ((∀ snap, IndexOp.applySnapshot snap ∉ ops) → es.ents = xs.drop es.dummy.index) ∧
      ∀ index, index.Sublist es.ents → index ≠ [] → ∃ ents,
        s.1.logMgr.readEntriesData s.2 index (index.map EntryStorage.blank) = .ok ents ∧
        ents.map some = index.map fun x => lastSaved (ops.flatMap IndexOp.saved) x.index := by
  classical
  have h := (serving_create (decide (∀ snap, IndexOp.applySnapshot snap ∉ ops)) hindex hcreate).run
    hvalid habove (fun hexact => of_decide_eq_true hexact) hrun
  rw [nil_append] at h
  obtain ⟨result, w, dir', es, xs, hreplay, hxs, hes, hlive, hplaces⟩ :=
    h.replayWal_eq hindex hclose hvisible
  exact ⟨es, xs, result, w, dir', hes, hreplay, hxs, hlive.front,
    fun hno => hlive.exact_eq (decide_eq_true hno),
    fun index hsub hne => h.readEntriesData_eq hlive hplaces hsub hne⟩

end Run

def indexedOptions (chunkSize : Nat) : Options := ⟨chunkSize, 16, 32, false⟩

/-- The second and third entry are saved again behind a change of files, and the first one is
compacted. -/
def rewrittenOps : List IndexOp :=
  [.write (.save ⟨1, 1, 0⟩
      [⟨1, 1, .normal, [7]⟩, ⟨1, 2, .normal, [8, 8]⟩, ⟨1, 3, .normal, [9]⟩]),
    .write (.save ⟨2, 1, 1⟩ [⟨2, 2, .confChange, [10, 11, 12]⟩, ⟨2, 3, .normal, [13]⟩]),
    .write (.saveSnapshot (smallSnapshot 1)), .compact 1]

def rewrittenRun : Except WalError (Wal × Directory) := do
  let s ← createWalInternal .unary [1, 2, 3, 4] (indexedOptions 210) smallPool
  run (IndexOp.exec .unary) s rewrittenOps

theorem rewrittenOps_valid : IndexOp.AllValid .initial rewrittenOps :=
  ⟨⟨⟨1, by decide, by decide, by decide⟩, by decide, by decide⟩,
    ⟨⟨2, by decide, by decide, by decide⟩, by decide, by decide⟩, trivial, trivial, trivial⟩

theorem readEntriesData_empty_part :
    ∃ s es, rewrittenRun = .ok s ∧ s.1.entryIndexStorage = some es ∧
      ([] : List (EntryIndex EntryIndexMetadata)).Sublist es.ents ∧
      s.1.logMgr.readEntriesData s.2 [] [] = .error .invalidSize := by
  obtain ⟨s, hs⟩ := exists_eq_ok (x := rewrittenRun) (by decide +kernel)
  have hsome : ∀ s, rewrittenRun = .ok s → s.1.entryIndexStorage.isSome := by decide +kernel
  obtain ⟨es, hes⟩ := Option.isSome_iff_exists.mp (hsome s hs)
  exact ⟨s, es, hs, hes, nil_sublist _, rfl⟩

theorem index_replayed_and_read_overwritten :
    ∃ s dir es xs result w dir', rewrittenRun = .ok s ∧ s.1.close s.2 = .ok dir ∧
      s.1.currentLogFile.name.id = 1 ∧ s.1.entryIndexStorage = some es ∧
      replayWal .unary dir none (indexedOptions 210) smallPool = .ok (result, w, dir') ∧
      result.entryCollection = .indexedEntryStore xs ∧ es.ents = xs.drop 1 ∧
      ∃ ents, s.1.logMgr.readEntriesData s.2 es.ents (es.ents.map EntryStorage.blank) = .ok ents ∧
        ents = [⟨2, 2, .confChange, [10, 11, 12]⟩, ⟨2, 3, .normal, [13]⟩] := by
  obtain ⟨s, hs⟩ := exists_eq_ok (x := rewrittenRun) (by decide +kernel)
  obtain ⟨s₀, hcreate, hrun⟩ := bind_eq_ok.mp hs
  have habove : ∀ s₀, createWalInternal .unary [1, 2, 3, 4] (indexedOptions 210) smallPool =
      .ok s₀ → Throughout (IndexOp.exec .unary) IndexOp.Above s₀ rewrittenOps := by
    decide +kernel
  have hend : ∀ s, rewrittenRun = .ok s → (s.1.close s.2).isOk ∧
      s.1.currentLogFile.name.id = 1 ∧ ∃ es ∈ s.1.entryIndexStorage, es.dummy.index = 1 ∧
        es.ents.map EntryIndex.index = [2, 3] := by
    decide +kernel
  obtain ⟨hok, hid, es', hes', hdummy, hents⟩ := hend s hs
  obtain ⟨dir, hclose⟩ := exists_eq_ok hok
  obtain ⟨es, xs, result, w, dir', hes, hreplay, hxs, -, hexact, hread⟩ :=
    index_replayed_and_read rfl hcreate rewrittenOps_valid (habove s₀ hcreate) hrun hclose
      (by decide +kernel)
  obtain rfl : es' = es := Option.some.inj (hes'.symm.trans hes)
  have hsame := hexact (by simp [rewrittenOps])
  rw [hdummy] at hsame
  obtain ⟨ents, hents', hlast⟩ := hread es'.ents (List.Sublist.refl _) (by
    intro hnil
    rw [hnil] at hents
    cases hents)
  refine ⟨s, dir, es', xs, result, w, dir', hs, hclose, hid, hes, hreplay, hxs, hsame, ents, hents',
    ?_⟩
  have hindices : es'.ents.map (fun x => lastSaved (rewrittenOps.flatMap IndexOp.saved) x.index) =
      (es'.ents.map EntryIndex.index).map (lastSaved (rewrittenOps.flatMap IndexOp.saved)) := by
    rw [map_map]
    rfl
  rw [hindices, hents] at hlast
  have hvalues : [2, 3].map (lastSaved (rewrittenOps.flatMap IndexOp.saved)) =
      [⟨2, 2, .confChange, [10, 11, 12]⟩, ⟨2, 3, .normal, [13]⟩].map some := by decide
  exact map_injective_iff.mpr (Option.some_injective _) (hlast.trans hvalues)

end Babuza.Babuzawal
