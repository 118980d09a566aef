import Babuza.Babuzawal.ReadEntries
import Babuza.Babuzawal.RecordStream

/-!
# Entries of any size

`Save` of an entry under the default options of the manager. The encoder refuses a record above
`maxLogSize`, but the memory pool of the default options ends far below that size and panics in
between. A record is refused after the announcement of its entry has been written, which is not
taken back.
-/

namespace Babuza.Babuzawal

open Lib Allocator Walbase List

/-- The log as `saveEntry` leaves it when the record of `e` is refused. The encoder checks the size
and takes its buffer before it writes anything, so the announcement of the entry is all that has
happened. -/
def Wal.refused (codecs : RaftCodecs) (w : Wal) (dir : Directory) (e : Entry) : Wal × Directory :=
  match w.saveNextEntry codecs dir e with
  | .ok s => s
  | .error _ => ({ w with state := { w.state with nextEntry := ⟨e.term, e.index⟩ } }, dir)

/-- The entry is read at the place where it was written, and a replay of the closed log finds it
unless a record of the log is taken for preallocated space. -/
structure Replayable (codecs : RaftCodecs) (J : Journal) (s : Wal × Directory) (name : FileName)
    (offset : Nat) (e : Entry) : Prop where
  decodes : ∃ file d, s.2.lookup name = some file ∧
    decode defaultMemPool (file.drop offset) = .ok d ∧
    d.logType = (LogType.ofEntryType e.type).code ∧ d.logBuf = e.data
  replays : (∀ t ∈ J.segments, AllVisible codecs 0 t.records) →
    ∃ dir result w dir' xs, s.1.close s.2 = .ok dir ∧
      replayWal codecs dir none defaultOptions defaultMemPool = .ok (result, w, dir') ∧
      result.entryCollection = .indexedEntryStore xs ∧ ∃ x ∈ xs, x.index = e.index ∧
        s.1.logMgr.readEntriesData s.2 [x] [EntryStorage.blank x] = .ok [e]

/-- `Save` of `e` succeeds and the entry can be replayed, or it refuses the size and has changed
nothing. -/
def SavedOrRefused (codecs : RaftCodecs) (J : Journal) (s : Wal × Directory) (st : HardState)
    (e : Entry) : Prop :=
  match s.1.save codecs s.2 st [e] with
  | .ok s' => Replayable codecs (J.save codecs defaultOptions.walLogFileChunkSize st [e]) s'
      s.1.currentLogFile.name (s.1.refused codecs s.2 e).1.currentLogFile.offset e
  | .error .logSizeExceedLimit =>
    (s.1.refused codecs s.2 e).2 = s.2 ∧
      (s.1.refused codecs s.2 e).1.currentLogFile = s.1.currentLogFile ∧
      (s.1.refused codecs s.2 e).1.state.nextEntry = s.1.state.nextEntry
  | .error _ => False

/-- The running checksum in front of the record of `e`. -/
def Wal.crcBefore (codecs : RaftCodecs) (w : Wal) (e : Entry) : UInt32 :=
  if w.state.nextEntry = ⟨e.term, e.index⟩ then w.currentLogFile.lastCrc
  else (Record.nextEntry ⟨e.term, e.index⟩).nextCrc codecs w.currentLogFile.lastCrc

variable {codecs : RaftCodecs}

theorem fits_defaultMemPool_iff (r : Record) :
    r.Fits codecs defaultMemPool ↔ (r.body codecs).length + headerSize ≤ walMaxEntryBufferSize := by
  unfold Record.Fits calcPadding
  rw [acquire_defaultMemPool_isSome_iff]
  unfold walMaxEntryBufferSize headerSize maxLogSize
  omega

theorem marshal_length_le (n : WalNextEntry) : n.marshal.length ≤ 22 := by
  have hterm : (varint n.nextTerm).length ≤ 10 := varintGroups_length 9 n.nextTerm
  have hindex : (varint n.nextIndex).length ≤ 10 := varintGroups_length 9 n.nextIndex
  unfold WalNextEntry.marshal
  rw [length_append]
  split <;> split <;> simp only [length_cons, length_nil] <;> omega

theorem nextEntry_fits (codecs : RaftCodecs) (n : WalNextEntry) :
    (Record.nextEntry n).Fits codecs defaultMemPool := by
  rw [fits_defaultMemPool_iff]
  have hlength : ((Record.nextEntry n).body codecs).length ≤ 22 := marshal_length_le n
  unfold walMaxEntryBufferSize headerSize
  omega

theorem crc_fits (codecs : RaftCodecs) (c : UInt32) :
    (Record.crc c).Fits codecs defaultMemPool := by
  rw [fits_defaultMemPool_iff]
  have hlength : ((Record.crc c).body codecs).length = 4 := leBytes_length 4 _
  unfold walMaxEntryBufferSize headerSize
  omega

/-! ## Saving entries that fit -/

variable {dir₁ : Directory} {w₁ : Wal}

variable {data metadata : Bytes}

section Exists

variable {cfg : ManagerConfig} {pool : ByteSlicePool} {w : Wal} {dir : Directory} {J : Journal}
  {e : Entry} {st : HardState}

section

variable (h : Represents codecs cfg pool w dir J)
include h

theorem Represents.entryIndexFor_exists (e : Entry) :
    ∃ idx, (if w.entryIndexStorage.isSome then (w.entryIndexFor e).map fun x => [x]
      else .ok []) = .ok idx := by
  split
  · unfold Wal.entryIndexFor
    rw [h.tailLogFileDesc, ok_bind]
    exact ⟨_, rfl⟩
  · exact ⟨_, rfl⟩

variable (hpage : 0 < cfg.alignmentPageSize)
  (hnext : ∀ n : WalNextEntry, (Record.nextEntry n).Fits codecs pool)
include hpage hnext

theorem Represents.saveNextEntry_exists (e : Entry) :
    ∃ w' dir', w.saveNextEntry codecs dir e = .ok (w', dir') := by
  unfold Wal.saveNextEntry
  split
  · obtain ⟨l, dir', hencode⟩ := h.encode_exists hpage (hnext ⟨e.term, e.index⟩)
    exact ⟨_, _, by rw [LogFile.nextEntry, hencode, ok_bind]; rfl⟩
  · exact ⟨_, _, rfl⟩

theorem Represents.saveOne_eq (e : Entry) :
    ∃ w₁ dir₁ idx, w.saveNextEntry codecs dir e = .ok (w₁, dir₁) ∧
      Represents codecs cfg pool w₁ dir₁ (J.saveNextEntry codecs e) ∧
      w.saveOne codecs dir e = (w₁.currentLogFile.entry codecs dir₁ e.type e.data).map fun x =>
        ({ w₁ with
          state := { w₁.state with
            nextEntry := { w₁.state.nextEntry with nextIndex := e.index + 1 }
            lastEntryIndex := e.index }
          currentLogFile := x.1 }, x.2, idx) := by
  obtain ⟨w₁, dir₁, hsave⟩ := h.saveNextEntry_exists hpage hnext e
  have h₁ := h.saveNextEntry hsave
  obtain ⟨idx, hidx⟩ := h₁.entryIndexFor_exists e
  refine ⟨w₁, dir₁, idx, hsave, h₁, ?_⟩
  unfold Wal.saveOne
  simp only [hsave, ok_bind, hidx]
  cases w₁.currentLogFile.entry codecs dir₁ e.type e.data <;> rfl

theorem Represents.save_one_exists {es : EntryStorage EntryIndexMetadata}
    (hhard : (Record.hardState st).Fits codecs pool)
    (hrotate : ∀ r ∈ ((J.saveEntries codecs [e]).saveHardState codecs st).rotateRecords codecs,
      r.Fits codecs pool)
    (hes : w.entryIndexStorage = some es) (hlo : es.dummy.index < e.index)
    (hhi : e.index ≤ es.lastIndex + 1) (hfits : (Record.entry e.type e.data).Fits codecs pool) :
    ∃ w' dir', w.save codecs dir st [e] = .ok (w', dir') := by
  obtain ⟨w₁, dir₁, idx, hsave, h₁, hone⟩ := h.saveOne_eq hpage hnext e
  obtain ⟨l, dir₂, hentry⟩ := h₁.encode_exists hpage hfits
  rw [LogFile.entry, hentry] at hone
  obtain ⟨w₂, dir₂, hentries⟩ : ∃ w₂ dir₂,
      w.saveEntries codecs dir [e] = .ok (w₂, dir₂, idx ++ []) := by
    rw [Wal.saveEntries, hone]
    exact ⟨_, _, rfl⟩
  obtain ⟨hidx, hkeep⟩ := h.saveEntries_index (by rw [hes]; rfl) hentries
  obtain ⟨es', happend⟩ : ∃ es', es.appendEntryIndex (idx ++ []) = .ok es' := by
    have hsingle : Consecutive Entry.index e.index [e] :=
      consecutive_cons.mpr ⟨rfl, consecutive_nil⟩
    rw [hidx, EntryStorage.appendEntryIndex_above (mt batchIndex_eq_nil.mp (cons_ne_nil e []))
      (J.batchIndex_consecutive hsingle) hlo, if_pos hhi]
    exact ⟨_, rfl⟩
  obtain ⟨w₃, hsaved⟩ : ∃ w₃, w.saveEntry codecs dir [e] = .ok (w₃, dir₂) := by
    unfold Wal.saveEntry
    rw [hentries, ok_bind]
    simp only [hkeep, hes, happend]
    exact ⟨_, rfl⟩
  have h₃ := h.saveEntry hsaved
  obtain ⟨w₄, dir₄, hstate⟩ := h₃.saveHardState_exists hpage hhard
  have h₄ := h₃.saveHardState hstate
  unfold Wal.save
  rw [if_neg (cons_ne_nil e []), hsaved, ok_bind]
  simp only [hstate, ok_bind]
  split
  · exact h₄.cycle_exists hpage hrotate
  · split
    · exact h₄.sync_exists
    · exact ⟨_, _, rfl⟩

end

theorem save_error {err : WalError} (hone : w.saveOne codecs dir e = .error err) :
    w.save codecs dir st [e] = .error err := by
  unfold Wal.save Wal.saveEntry Wal.saveEntries
  rw [if_neg (cons_ne_nil e []), hone]
  rfl

theorem entry_refused (l : LogFile) (dir : Directory) (type : EntryType)
    (hsize : maxLogSize < data.length) :
    l.entry codecs dir type data = .error .logSizeExceedLimit := by
  have hbody : maxLogSize < ((Record.entry type data).log codecs).body.length := hsize
  unfold LogFile.entry LogFile.encode Babuzawal.encode
  rw [if_pos hbody]
  rfl

theorem entry_panics {l : LogFile} (dir : Directory) {type : EntryType}
    (hsize : data.length ≤ maxLogSize)
    (hfits : ¬ (Record.entry type data).Fits codecs l.enc.memPool) :
    l.entry codecs dir type data = .error .panic := by
  have hbody : ¬ maxLogSize < ((Record.entry type data).log codecs).body.length :=
    Nat.not_lt.mpr hsize
  have hpool :
    l.enc.memPool.acquire (headerSize + ((Record.entry type data).log codecs).body.length +
      calcPadding ((Record.entry type data).log codecs).body.length) = none := by
    rw [← Option.not_isSome_iff_eq_none]
    exact fun hsome => hfits ⟨hsize, hsome⟩
  unfold LogFile.entry LogFile.encode Babuzawal.encode
  rw [if_neg hbody, hpool]
  rfl

theorem Represents.save_panics (h : Represents codecs cfg defaultMemPool w dir J)
    (hpage : 0 < cfg.alignmentPageSize) (e : Entry) (st : HardState)
    (hlarge : ¬ e.data.length + headerSize ≤ walMaxEntryBufferSize)
    (hsize : e.data.length ≤ maxLogSize) : w.save codecs dir st [e] = .error .panic := by
  obtain ⟨w₁, dir₁, idx, -, h₁, hone⟩ := h.saveOne_eq hpage (nextEntry_fits codecs) e
  have hfits : ¬ (Record.entry e.type e.data).Fits codecs w₁.currentLogFile.enc.memPool := by
    rwa [h₁.encPool_eq, fits_defaultMemPool_iff]
  rw [entry_panics dir₁ hsize hfits] at hone
  exact save_error hone

theorem announced_iff (hnext : w.saveNextEntry codecs dir e = .ok (w₁, dir₁)) :
    dir₁ = dir ∧ w₁.currentLogFile = w.currentLogFile ∧ w₁.state.nextEntry = w.state.nextEntry ↔
      w.state.nextEntry = ⟨e.term, e.index⟩ := by
  unfold Wal.saveNextEntry at hnext
  split at hnext
  · rename_i hother
    obtain ⟨⟨l, d⟩, -, hpure⟩ := bind_eq_ok.mp hnext
    cases hpure
    exact ⟨fun hsame => absurd hsame.2.2.symm hother, fun hsame => absurd hsame hother⟩
  · rename_i hsame
    cases hnext
    exact ⟨fun _ => not_not.mp hsame, fun _ => ⟨rfl, rfl, rfl⟩⟩

end Exists

theorem Journal.save_segment (codecs : RaftCodecs) (chunkSize : Nat) (J : Journal) (st : HardState)
    (e : Entry) :
    ∃ t ∈ (J.save codecs chunkSize st [e]).segments, t.name = J.current.name ∧ ∃ after,
      t.records = (J.saveNextEntry codecs e).current.records ++ .entry e.type e.data :: after := by
  have hgrows : Grows codecs (J.saveOne codecs e)
      ((J.saveEntries codecs [e]).saveHardState codecs st) := .saveHardState st
  have hone : Grows codecs J (J.saveOne codecs e) := .saveOne e
  have hsame := hone.trans hgrows
  refine ⟨((J.saveEntries codecs [e]).saveHardState codecs st).current, ?_, ?_, ?_⟩
  · rw [Journal.save]
    split
    · simp [Journal.segments, Journal.rotate]
    · simp [Journal.segments]
  · simp only [Segment.name, Segment.desc, hsame.id_eq, hsame.start_eq]
  · obtain ⟨after, hafter⟩ := hgrows.records_eq
    refine ⟨after, ?_⟩
    rw [hafter]
    simp [Journal.saveOne, Journal.setState, Journal.append]

section Place

variable {cfg : ManagerConfig} {pool : ByteSlicePool} {w : Wal} {dir : Directory} {J : Journal}
  {e : Entry}

theorem Represents.crcBefore_eq (h : Represents codecs cfg pool w dir J) (e : Entry) :
    w.crcBefore codecs e = crcAfter codecs 0 (J.saveNextEntry codecs e).current.records := by
  have hcrc : w.currentLogFile.lastCrc = crcAfter codecs 0 J.current.records := h.holds.crc_eq
  unfold Wal.crcBefore Journal.saveNextEntry
  rw [h.state_eq, hcrc]
  by_cases hnext : J.state.nextEntry = ⟨e.term, e.index⟩
  · rw [if_pos hnext, if_neg (not_not.mpr hnext)]
  · rw [if_neg hnext, if_pos hnext]
    simp only [Journal.setState, Journal.append, crcAfter_append]
    rfl

theorem entry_visible_iff {crc : UInt32} (type : EntryType) (data : Bytes) :
    (Record.entry type data).Visible codecs crc ↔ (data = [] → crc ≠ 0) := by
  change (data = [] → crc32Update crc data ≠ 0) ↔ _
  constructor
  · rintro hvisible rfl
    rw [← crc32Update_nil crc]
    exact hvisible rfl
  · rintro hne rfl
    rw [crc32Update_nil]
    exact hne rfl

end Place

/-! ## Saved, refused or neither -/

section Saved

variable {saved : List Entry} {S : LogState} {J : Journal} {s : Wal × Directory} {exact : Bool}
  {st : HardState} {e : Entry}

variable {s' : Wal × Directory}

theorem Serving.replays
    (h' : Serving codecs defaultOptions.managerConfig defaultMemPool metadata exact (saved ++ [e])
      (S.save st [e]) J s')
    (hvisible : ∀ t ∈ J.segments, AllVisible codecs 0 t.records) :
    ∃ dir result w dir' xs, s'.1.close s'.2 = .ok dir ∧
      replayWal codecs dir none defaultOptions defaultMemPool = .ok (result, w, dir') ∧
      result.entryCollection = .indexedEntryStore xs ∧ ∃ x ∈ xs, x.index = e.index ∧
        s'.1.logMgr.readEntriesData s'.2 [x] [EntryStorage.blank x] = .ok [e] := by
  obtain ⟨w', dir', hsync⟩ := h'.represents.sync_exists
  have hclose : s'.1.close s'.2 = .ok dir' := by
    rw [Wal.close, hsync]
    rfl
  obtain ⟨result, w, dir'', es, xs, hreplay, hxs, -, -, hplaces⟩ :=
    h'.replayWal_eq (show defaultOptions.disableEntryIndex = false from rfl) hclose hvisible
  have he : e ∈ (S.save st [e]).entries :=
    mem_append_right _ (mem_singleton.mpr rfl)
  obtain ⟨x, hx, hplace⟩ := exists_of_forall₂ hplaces.flip he
  obtain ⟨files, htidy⟩ := h'.tidy
  have hpairs : ∀ p ∈ [(x, e)], s'.1.logMgr.Finds s'.2 p.1 p.2 := by
    intro p hp
    rw [mem_singleton.mp hp]
    exact h'.represents.finds htidy h'.flushed hplace
  have hread := Manager.readEntriesData_eq (cons_ne_nil _ _) hpairs
  obtain ⟨t, -, before, after, -, rfl⟩ := hplace
  exact ⟨dir', result, w, dir'', xs, hclose, hreplay, hxs, _, hx, rfl, hread⟩

section

variable (h : Serving codecs defaultOptions.managerConfig defaultMemPool metadata exact saved S J s)
  (h' : Serving codecs defaultOptions.managerConfig defaultMemPool metadata exact (saved ++ [e])
    (S.save st [e]) (J.save codecs defaultOptions.walLogFileChunkSize st [e]) s')
  (hnext : s.1.saveNextEntry codecs s.2 e = .ok (w₁, dir₁))
include h h' hnext

theorem Serving.saved_bytes :
    ∃ file behind, s'.2.lookup s.1.currentLogFile.name = some file ∧
      file.drop w₁.currentLogFile.offset =
        (Record.entry e.type e.data).bytes codecs (s.1.crcBefore codecs e) ++ behind := by
  have h₁ := h.represents.saveNextEntry hnext
  obtain ⟨t, ht, hname, after, hrecords⟩ :=
    J.save_segment codecs defaultOptions.walLogFileChunkSize st e
  obtain ⟨behind, hlookup⟩ := h'.represents.lookup_entry h'.flushed ht hrecords
  rw [hname, ← h.represents.name_eq, LogFile.contents_append_singleton] at hlookup
  refine ⟨_, behind, hlookup, ?_⟩
  rw [LogFile.offset, h₁.holds.offset_eq, append_assoc, drop_left,
    h.represents.crcBefore_eq]
  rfl

theorem Serving.replayable_iff
    (hfits : (Record.entry e.type e.data).Fits codecs defaultMemPool) :
    Replayable codecs (J.save codecs defaultOptions.walLogFileChunkSize st [e]) s'
        s.1.currentLogFile.name w₁.currentLogFile.offset e ↔
      (e.data = [] → s.1.crcBefore codecs e ≠ 0) := by
  obtain ⟨file, behind, hlookup, hdrop⟩ := h.saved_bytes h' hnext
  constructor
  · rintro ⟨⟨file', d, hlookup', hdecode, -⟩, -⟩ hempty hzero
    cases hlookup.symm.trans hlookup'
    have hhidden : (Record.entry e.type e.data).bytes codecs 0 =
        frame (LogType.ofEntryType e.type).code [] 0 := by
      rw [hempty]
      rfl
    rw [hdrop, hzero, hhidden, decode_hidden (LogType.ofEntryType e.type).code_lt] at hdecode
    cases hdecode
  · intro hvisible
    have hdecode :=
      Record.decode_bytes hfits ((entry_visible_iff e.type e.data).mpr hvisible) behind
    rw [← hdrop] at hdecode
    exact ⟨⟨file, _, hlookup, hdecode, rfl, rfl⟩, h'.replays⟩

end

theorem rotateRecords_fits
    (hmetadata : (Record.metadata J.state.metadata).Fits codecs defaultMemPool)
    (hstate : (Record.hardState J.state.hardState).Fits codecs defaultMemPool) :
    ∀ r ∈ J.rotateRecords codecs, r.Fits codecs defaultMemPool := by
  rw [Journal.rotateRecords]
  split
  · simp only [append_nil, forall_mem_cons]
    exact ⟨crc_fits codecs _, hmetadata, hstate, by simp⟩
  · simp only [cons_append, nil_append, forall_mem_cons]
    exact ⟨crc_fits codecs _, hmetadata, hstate, nextEntry_fits codecs _, by simp⟩

theorem Serving.savedOrRefused_iff
    (h : Serving codecs defaultOptions.managerConfig defaultMemPool metadata exact saved S J s)
    (hmetadata : (Record.metadata metadata).Fits codecs defaultMemPool)
    (hhard : (Record.hardState st).Fits codecs defaultMemPool)
    (hstate : (Record.hardState s.1.state.hardState).Fits codecs defaultMemPool)
    (hvalid : ValidBatch S.entries.length [e])
    (hlive : ∀ es ∈ s.1.entryIndexStorage, es.dummy.index < e.index ∧ e.index ≤ es.lastIndex + 1) :
    SavedOrRefused codecs J s st e ↔
      e.data.length + headerSize ≤ walMaxEntryBufferSize ∧
          (e.data = [] → s.1.crcBefore codecs e ≠ 0) ∨
        maxLogSize < e.data.length ∧ s.1.state.nextEntry = ⟨e.term, e.index⟩ := by
  have hpage : 0 < defaultOptions.managerConfig.alignmentPageSize := by decide
  obtain ⟨w₁, dir₁, idx, hnext, h₁, hone⟩ := h.represents.saveOne_eq hpage (nextEntry_fits codecs) e
  have hrefused : s.1.refused codecs s.2 e = (w₁, dir₁) := by rw [Wal.refused, hnext]
  have hpool : (Record.entry e.type e.data).Fits codecs defaultMemPool ↔
      e.data.length + headerSize ≤ walMaxEntryBufferSize := fits_defaultMemPool_iff _
  have hlimit : walMaxEntryBufferSize ≤ maxLogSize := by decide
  unfold SavedOrRefused
  rw [hrefused]
  by_cases hfits : (Record.entry e.type e.data).Fits codecs defaultMemPool
  · have hsmall := hpool.mp hfits
    have hsize : ¬ maxLogSize < e.data.length := by omega
    obtain ⟨xs, hkeeps⟩ := h.keeps
    obtain ⟨es, hes, -⟩ := hkeeps.live
    obtain ⟨hlo, hhi⟩ := hlive es hes
    have hgrows : Journal.Grows codecs J ((J.saveEntries codecs [e]).saveHardState codecs st) :=
      (Journal.Grows.saveEntries [e]).trans (.saveHardState st)
    have hrotate : ∀ r ∈
        ((J.saveEntries codecs [e]).saveHardState codecs st).rotateRecords codecs,
        r.Fits codecs defaultMemPool := by
      apply rotateRecords_fits
      · rwa [hgrows.metadata_eq, h.stores.metadata_eq]
      · rw [Journal.hardState_saveHardState, Journal.hardState_saveEntries, ← h.represents.state_eq]
        split
        · exact hstate
        · exact hhard
    obtain ⟨w', dir', hsave⟩ :=
      h.represents.save_one_exists hpage (nextEntry_fits codecs) hhard hrotate hes hlo hhi hfits
    have h' := h.save hvalid (fun es hes e' he' => mem_singleton.mp he' ▸ (hlive es hes).1) hsave
    rw [hsave]
    simp only [h.replayable_iff h' hnext hfits, hsmall, hsize, true_and, false_and, or_false]
  · have hlarge : ¬ e.data.length + headerSize ≤ walMaxEntryBufferSize := mt hpool.mpr hfits
    simp only [hlarge, false_and, false_or]
    by_cases hsize : maxLogSize < e.data.length
    · rw [entry_refused _ _ _ hsize] at hone
      rw [save_error hone]
      simp only [hsize, true_and]
      exact announced_iff hnext
    · rw [h.represents.save_panics hpage e st hlarge (Nat.not_lt.mp hsize)]
      simp only [hsize, false_and]

/-- Under the default options `Save` of an entry, in any state that a run reaches, does what it
should exactly if the record fits the memory pool and does not look like preallocated space, or if
it is above the limit of the encoder and the entry is the one that the log expects. -/
theorem save_savedOrRefused_iff {s₀ : Wal × Directory} {ops : List IndexOp}
    (hcreate : createWalInternal codecs metadata defaultOptions defaultMemPool = .ok s₀)
    (hops : IndexOp.AllValid .initial ops)
    (habove : Throughout (IndexOp.exec codecs) IndexOp.Above s₀ ops)
    (hrun : run (IndexOp.exec codecs) s₀ ops = .ok s)
    (hhard : (Record.hardState st).Fits codecs defaultMemPool)
    (hstate : (Record.hardState s.1.state.hardState).Fits codecs defaultMemPool)
    (hvalid : ValidBatch (ops.foldl IndexOp.state .initial).entries.length [e])
    (hlive : ∀ es ∈ s.1.entryIndexStorage,
      es.dummy.index < e.index ∧ e.index ≤ es.lastIndex + 1) :
    SavedOrRefused codecs (ops.foldl (IndexOp.journal codecs defaultOptions.walLogFileChunkSize)
        (.create codecs defaultOptions.walLogFileChunkSize metadata)) s st e ↔
      e.data.length + headerSize ≤ walMaxEntryBufferSize ∧
          (e.data = [] → s.1.crcBefore codecs e ≠ 0) ∨
        maxLogSize < e.data.length ∧ s.1.state.nextEntry = ⟨e.term, e.index⟩ := by
  have hnew := serving_create false rfl hcreate
  have hmetadata := hnew.represents.fits_current (.metadata metadata) (by simp [Journal.create])
  have h := hnew.run hops habove (fun hfalse => by cases hfalse) hrun
  exact h.savedOrRefused_iff hmetadata hhard hstate hvalid hlive

end Saved

/-! ### A new log -/

theorem createWal_exists {cfg : ManagerConfig} {pool : ByteSlicePool}
    (hpage : 0 < cfg.alignmentPageSize) (hcrc : (Record.crc 0).Fits codecs pool)
    (hmetadata : (Record.metadata metadata).Fits codecs pool)
    (hsnapshot : (Record.snapshot .empty).Fits codecs pool) :
    ∃ s, createWal codecs metadata (.newManager cfg pool) ∅ = .ok s ∧
      s.1.state = ⟨metadata, ⟨0, 0⟩, .empty, 0⟩ := by
  obtain ⟨l₀, m₀, dir₀, hcreate⟩ : ∃ l₀ m₀ dir₀,
      (Manager.newManager cfg pool).createNextTempLogFile ∅ 0 0 = .ok (l₀, m₀, dir₀) :=
    ⟨_, _, _, rfl⟩
  obtain ⟨hbuild, -, rfl⟩ := building_create codecs (AList.notMem_empty _) hcreate
  obtain ⟨l₁, dir₁, hcrc, hbuild⟩ := hbuild.encode_exists hpage hcrc
  obtain ⟨l₂, dir₂, hmeta, hbuild⟩ := hbuild.encode_exists hpage hmetadata
  obtain ⟨l₃, dir₃, hsnap, hbuild⟩ := hbuild.encode_exists hpage hsnapshot
  obtain ⟨l₄, dir₄, hsync, -⟩ := hbuild.holds.sync
  obtain ⟨hbuild, hsynced⟩ := hbuild.sync hsync
  obtain ⟨m', dir', cur, hfinalize, hopen, -⟩ := building_finish
    (m := { Manager.newManager cfg pool with
      filesDesc := (Manager.newManager cfg pool).filesDesc.insert 0 ⟨0, 0, true⟩
      nextLogId := (Manager.newManager cfg pool).nextLogId + 1 })
    (show ∃ base, Consecutive Segment.id base [] ∧ 0 = base + ([] : List Segment).length from
      ⟨0, consecutive_nil, rfl⟩)
    (fun n hn => absurd hn (AList.notMem_empty n)) (by simp) (by simp)
    hbuild hsynced (AList.lookup_insert _) rfl
  unfold createWal
  simp only [hcreate, ok_bind, LogFile.crc, hcrc, LogFile.metadata, hmeta, LogFile.snapshot,
    if_neg (show ¬ (WalSnapshot.empty.confState = none ∧ 0 < WalSnapshot.empty.index) by decide),
    hsnap, hsync, hfinalize, hopen]
  exact ⟨_, rfl, rfl⟩

theorem createWalInternal_exists (hmetadata : (Record.metadata metadata).Fits codecs defaultMemPool)
    (hsnapshot : (Record.snapshot .empty).Fits codecs defaultMemPool) :
    ∃ s, createWalInternal codecs metadata defaultOptions defaultMemPool = .ok s ∧
      s.1.entryIndexStorage = some .newEntryStorage ∧
      s.1.state = ⟨metadata, ⟨0, 0⟩, .empty, 0⟩ := by
  have hpage : 0 < defaultOptions.managerConfig.alignmentPageSize := by decide
  obtain ⟨⟨w, dir⟩, hcreate, hstate⟩ :=
    createWal_exists hpage (crc_fits codecs 0) hmetadata hsnapshot
  unfold createWalInternal
  rw [hcreate, ok_bind]
  exact ⟨_, rfl, rfl, hstate⟩

/-- An entry of five million bytes, far below the limit of the encoder. -/
def fiveMillion : Entry := ⟨1, 1, .normal, zeros 5000000⟩

theorem fiveMillion_length : fiveMillion.data.length = 5000000 := length_replicate

/-- The pool panics for an entry that the encoder would take. -/
theorem save_fiveMillion_panics :
    ∃ s, createWalInternal .unary [1, 2, 3, 4] defaultOptions defaultMemPool = .ok s ∧
      s.1.save .unary s.2 .empty [fiveMillion] = .error .panic ∧
      ¬ SavedOrRefused .unary (.create .unary defaultOptions.walLogFileChunkSize [1, 2, 3, 4]) s
        .empty fiveMillion := by
  obtain ⟨s, hcreate, -⟩ : ∃ s, createWalInternal .unary [1, 2, 3, 4] defaultOptions
    defaultMemPool = .ok s ∧ _ := createWalInternal_exists (by decide) (by decide)
  have hlarge : ¬ fiveMillion.data.length + headerSize ≤ walMaxEntryBufferSize := by
    rw [fiveMillion_length]
    decide
  have hsize : fiveMillion.data.length ≤ maxLogSize := by
    rw [fiveMillion_length]
    decide
  have hsave := (createWalInternal_represents hcreate).save_panics (by decide) fiveMillion .empty
    hlarge hsize
  refine ⟨s, hcreate, hsave, ?_⟩
  unfold SavedOrRefused
  rw [hsave]
  exact not_false

theorem save_savedOrRefused_first :
    ∃ s, createWalInternal .unary [1, 2, 3, 4] defaultOptions defaultMemPool = .ok s ∧
      SavedOrRefused .unary (.create .unary defaultOptions.walLogFileChunkSize [1, 2, 3, 4]) s
        ⟨1, 0, 1⟩ ⟨1, 1, .normal, [5, 6, 7, 8]⟩ := by
  obtain ⟨s, hcreate, hes, hstate⟩ : ∃ s, createWalInternal .unary [1, 2, 3, 4] defaultOptions
      defaultMemPool = .ok s ∧ _ := createWalInternal_exists (by decide) (by decide)
  have hops : IndexOp.AllValid .initial [] := trivial
  refine ⟨s, hcreate,
    (save_savedOrRefused_iff hcreate hops trivial rfl (by decide) ?_ ?_ ?_).mpr ?_⟩
  · rw [hstate]
    decide
  · exact ⟨⟨1, by decide, by decide, by decide⟩, by decide, by decide⟩
  · rw [hes]
    rintro es ⟨⟩
    decide
  · exact .inl ⟨by decide, fun hempty => by cases hempty⟩

end Babuza.Babuzawal
