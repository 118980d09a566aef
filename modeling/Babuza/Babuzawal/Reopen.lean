import Babuza.Babuzawal.Recovery

/-!
# Reopening a log

`OpenWal` continues a log behind the last record that the player accepted. The bytes it finds there
are `Blank`: the decoder takes them for the end of the file, or for a torn record that `Replay` cuts
off. A reopened log represents the journal it was closed with, except that the index of its last
entry is forgotten (`openWal_represents`), and it can be written, closed and replayed again.
-/

namespace Babuza.Babuzawal

open Lib Allocator Walbase List

/-- Bytes in which the decoder finds no record, with nothing but zeros behind the first header.
Preallocated space is blank, and so is what is left of a header. -/
structure Blank (pool : ByteSlicePool) (tail : Bytes) : Prop where
  stops : decode pool tail = .error .eof ∨ decode pool tail = .error .unexpectedEOF
  zeros_behind : ∃ n, tail.drop headerSize = zeros n

theorem Blank.error {pool : ByteSlicePool} {tail : Bytes} (h : Blank pool tail) :
    ∃ e, decode pool tail = .error e ∧ (e = .eof ∨ Player.repairable e = true) :=
  h.stops.elim (fun heof => ⟨_, heof, .inl rfl⟩) fun hshort => ⟨_, hshort, .inr rfl⟩

variable {J J' : Journal}

section Blank

variable {pool : ByteSlicePool} {tail : Bytes} {codecs : RaftCodecs}

theorem blank_zeros (pool : ByteSlicePool) (n : Nat) : Blank pool (zeros n) := by
  refine ⟨?_, n - headerSize, zeros_drop n headerSize⟩
  rw [decode_zeros]
  split
  · exact .inr rfl
  · exact .inl rfl

theorem Blank.drop (h : Blank pool tail) {n : Nat} (hn : headerSize ≤ n) :
    Blank pool (tail.drop n) := by
  obtain ⟨k, hk⟩ := h.zeros_behind
  rw [show tail.drop n = (tail.drop headerSize).drop (n - headerSize) by
    rw [drop_drop]; congr 1; omega, hk, zeros_drop]
  exact blank_zeros pool _

theorem headerSize_le_encodeRecords {crc : UInt32} {rs : List Record} (h : rs ≠ []) :
    headerSize ≤ (encodeRecords codecs crc rs).length := by
  cases rs with
  | nil => exact absurd rfl h
  | cons r rs =>
    rw [encodeRecords, length_append]
    exact Nat.le_trans Record.headerSize_le_bytes (Nat.le_add_right _ _)

theorem Journal.Grows.blank (h : Journal.Grows codecs J J') (hblank : Blank pool J.tail) :
    Blank pool J'.tail := by
  obtain ⟨rs, hrs⟩ := h.records_eq
  have hsize : J'.offset codecs - J.offset codecs =
      (encodeRecords codecs (crcAfter codecs 0 J.current.records) rs).length := by
    rw [Journal.offset, Journal.offset, hrs, contents, contents, encodeRecords_append,
      ← append_assoc, length_append, Nat.add_sub_cancel_left]
  rw [h.tail_eq, hsize]
  by_cases hnil : rs = []
  · rwa [hnil, encodeRecords_nil, length_nil, drop_zero]
  · exact hblank.drop (headerSize_le_encodeRecords hnil)

end Blank

/-! ## Operations -/

inductive WalOp
  | save (st : HardState) (entries : List Entry)
  | saveSnapshot (snapshot : Snapshot)
  deriving DecidableEq

namespace WalOp

def exec (codecs : RaftCodecs) (s : Wal × Directory) : WalOp → Except WalError (Wal × Directory)
  | save st entries => s.1.save codecs s.2 st entries
  | saveSnapshot snapshot => s.1.saveSnapshot codecs s.2 snapshot

def journal (codecs : RaftCodecs) (chunkSize : Nat) (J : Journal) : WalOp → Journal
  | save st entries => J.save codecs chunkSize st entries
  | saveSnapshot snapshot => J.saveSnapshot codecs snapshot

def state (S : LogState) : WalOp → LogState
  | save st entries => S.save st entries
  | saveSnapshot snapshot => S.saveSnapshot snapshot

def Valid (S : LogState) : WalOp → Prop
  | save _ entries => ValidBatch S.entries.length entries
  | saveSnapshot _ => True

def AllValid : LogState → List WalOp → Prop
  | _, [] => True
  | S, op :: ops => op.Valid S ∧ AllValid (op.state S) ops

end WalOp

section Operations

variable {codecs : RaftCodecs} {cfg : ManagerConfig} {pool : ByteSlicePool} {w w' : Wal}
  {dir dir' : Directory} {metadata : Bytes} {S : LogState} {ops : List WalOp}

theorem exec_represents {op : WalOp} (h : Represents codecs cfg pool w dir J)
    (hexec : op.exec codecs (w, dir) = .ok (w', dir')) :
    Represents codecs cfg pool w' dir' (op.journal codecs cfg.logFileChunkSize J) := by
  cases op with
  | save st entries => exact save_represents h hexec
  | saveSnapshot snapshot => exact saveSnapshot_represents h hexec

theorem run_represents (h : Represents codecs cfg pool w dir J)
    (hrun : run (WalOp.exec codecs) (w, dir) ops = .ok (w', dir')) :
    Represents codecs cfg pool w' dir'
      (ops.foldl (WalOp.journal codecs cfg.logFileChunkSize) J) := by
  induction ops generalizing w dir J with
  | nil =>
    cases hrun
    exact h
  | cons op ops ih =>
    obtain ⟨⟨w₁, dir₁⟩, hexec, hrun⟩ := run_cons_eq_ok.mp hrun
    exact ih (exec_represents h hexec) hrun

theorem Journal.Stores.run (codecs : RaftCodecs) (chunkSize : Nat) (h : J.Stores metadata S)
    (hvalid : WalOp.AllValid S ops) :
    (ops.foldl (WalOp.journal codecs chunkSize) J).Stores metadata (ops.foldl WalOp.state S) := by
  induction ops generalizing J S with
  | nil => exact h
  | cons op ops ih =>
    refine ih ?_ hvalid.2
    cases op with
    | save st entries => exact h.save codecs chunkSize hvalid.1
    | saveSnapshot snapshot => exact h.saveSnapshot codecs snapshot

/-- An operation only adds to the current file, or a new file is begun behind it. -/
theorem WalOp.journal_cases {P : Journal → Prop} {chunkSize : Nat} (op : WalOp)
    (hgrows : ∀ {J'}, Journal.Grows codecs J J' → P J')
    (hrotate : ∀ J' : Journal, P (J'.rotate codecs chunkSize)) :
    P (op.journal codecs chunkSize J) := by
  cases op with
  | save st entries =>
    simp only [WalOp.journal, Journal.save]
    split
    · exact hrotate _
    · exact hgrows ((Journal.Grows.saveEntries entries).trans (.saveHardState st))
  | saveSnapshot snapshot => exact hgrows (.saveSnapshot snapshot)

theorem blank_exec (chunkSize : Nat) (op : WalOp) (h : Blank pool J.tail) :
    Blank pool (op.journal codecs chunkSize J).tail :=
  op.journal_cases (fun hgrows => hgrows.blank h) fun _ => blank_zeros pool _

theorem blank_run (chunkSize : Nat) (h : Blank pool J.tail) :
    Blank pool (ops.foldl (WalOp.journal codecs chunkSize) J).tail :=
  foldlRecOn (motive := fun J : Journal => Blank pool J.tail) ops _ h fun _ hJ op _ =>
    blank_exec chunkSize op hJ

end Operations

/-! ## `OpenWal` -/

/-- The journal of a reopened log: `OpenWal` does not restore the index of the last entry. -/
def Journal.reopen (J : Journal) (tail : Bytes) : Journal :=
  { J with tail := tail, state := { J.state with lastEntryIndex := 0 } }

theorem Journal.Stores.reopen {metadata : Bytes} {S : LogState} (h : J.Stores metadata S)
    (tail : Bytes) : (J.reopen tail).Stores metadata S := by
  obtain ⟨v, hv, hshown⟩ := h.reads
  exact { h with wellFormed := { h.wellFormed with }, reads := ⟨v, hv, { hshown with }⟩ }

section OpenWal

variable {codecs : RaftCodecs} {dir : Directory} {tail : Bytes} {log : List Entry} {v : LogView}
  {c : EntryCollection} {r : ReplayResult} {snapshotIndex : Nat}

variable {current : Segment} {closed : List Segment}

theorem SegmentsAt.newManagerWithScan_eq (h : SegmentsAt codecs dir closed current tail)
    (cfg : ManagerConfig) (pool : ByteSlicePool) (snapIndex : Nat) :
    ∃ filesDesc, Manager.newManagerWithScan cfg dir snapIndex pool =
        .ok ⟨cfg, filesDesc, current.id + 1, pool⟩ ∧
      filesDesc.lookup current.id = some current.desc := by
  obtain ⟨skipped, read, hsuffix, hread⟩ := h.readValidLogFiles_eq snapIndex
  obtain ⟨front, rfl⟩ : ∃ front, read = front ++ [current] := by
    have hlast : (skipped ++ read).getLast? = some current := by
      rw [← hsuffix.eq_append]
      simp
    have hne : read ≠ [] := by
      rintro rfl
      rcases hsuffix.start_le with rfl | ⟨s, rest, hcons, -⟩
      · simp at hlast
      · cases hcons
    rwa [getLast?_append_of_ne_nil _ hne, getLast?_eq_some_iff] at hlast
  refine ⟨((front ++ [current]).map Segment.desc).foldl (fun m f => m.insert f.id f) ∅, ?_, ?_⟩
  · simp only [Manager.newManagerWithScan, hread, ok_bind, map_append, map_singleton]
    simp [Segment.desc]
    rfl
  · rw [map_append, foldl_append]
    exact AList.lookup_insert _

theorem Recovered.isNop_eq (h : Recovered codecs current v c r) (hnop : c.isNop = false) :
    r.entryCollection.isNop = false := by
  have hclear := h.clear_eq
  cases hc : r.entryCollection with
  | entryStore | indexedEntryStore => rfl
  | nopEntryStore =>
    rw [hc] at hclear
    rwa [← hclear] at hnop

theorem openWal_eq (cfg : ManagerConfig) (pool : ByteSlicePool)
    (hat : SegmentsAt codecs dir closed current tail) (hrecovered : Recovered codecs current v c r)
    (snapIndex : Nat) :
    ∃ filesDesc, let m : Manager := ⟨cfg, filesDesc, current.id + 1, pool⟩
      Manager.newManagerWithScan cfg dir snapIndex pool = .ok m ∧
      filesDesc.lookup current.id = some current.desc ∧
      openWal m dir r = .ok ⟨m, ⟨r.metadata, r.nextEntry, r.hardState, 0⟩,
        m.newLogFile current.name (contents codecs current.records).length
          (crcAfter codecs 0 current.records), none⟩ := by
  obtain ⟨filesDesc, hscan, hdesc⟩ := hat.newManagerWithScan_eq cfg pool snapIndex
  refine ⟨filesDesc, hscan, hdesc, ?_⟩
  have hfile : dir.lookup current.desc.getLogFileName =
      some (logFileHeader ++ (encodeRecords codecs 0 current.records ++ tail)) := by
    rw [← append_assoc]
    exact hat.lookup_current
  have hopen : Manager.openLogFile ⟨cfg, filesDesc, current.id + 1, pool⟩ dir current.desc.id
      (contents codecs current.records).length (crcAfter codecs 0 current.records) = .ok _ :=
    Manager.openLogFile_eq hdesc hfile
  rw [openWal, hrecovered.desc_eq, hrecovered.offset_eq, hrecovered.crc_eq, hopen, ok_bind]
  rfl

theorem openWal_represents {pool : ByteSlicePool} (cfg : ManagerConfig)
    (hat : SegmentsAt codecs dir J.closed J.current tail)
    (hfits : ∀ s ∈ J.segments, ∀ r ∈ s.records, r.Fits codecs pool)
    (hrecovered : Recovered codecs J.current v c r) (hnop : c.isNop = false)
    (hshown : J.Shown snapshotIndex log v) (snapIndex : Nat) :
    ∃ m w, Manager.newManagerWithScan cfg dir snapIndex pool = .ok m ∧ openWal m dir r = .ok w ∧
      Represents codecs cfg pool w dir (J.reopen tail) := by
  obtain ⟨filesDesc, hscan, hdesc, hopen⟩ := openWal_eq cfg pool hat hrecovered snapIndex
  refine ⟨_, _, hscan, hopen, ?_⟩
  rw [hrecovered.metadata, hrecovered.nextEntry (hrecovered.isNop_eq hnop), hrecovered.hardState,
    hshown.metadata, hshown.nextEntry, hshown.hardState]
  exact
    { state_eq := rfl
      ids := hat.ids
      mem_dir := hat.mem_dir
      lookup_closed := hat.lookup_closed
      holds := Manager.newLogFile_holds hat.lookup_current
      name_eq := rfl
      fits := hfits
      nextLogId_eq := rfl
      desc_eq := hdesc
      cfg_eq := rfl
      memPool_eq := rfl
      segmentSize_eq := rfl
      pageSize_eq := rfl
      encPool_eq := rfl }

theorem Journal.Stores.replay_stops {pool : ByteSlicePool} {metadata : Bytes} {S : LogState}
    {e : WalError} (h : J.Stores metadata S) (hat : SegmentsAt codecs dir J.closed J.current tail)
    (hfits : ∀ s ∈ J.segments, ∀ r ∈ s.records, r.Fits codecs pool)
    (hvisible : ∀ s ∈ J.segments, AllVisible codecs 0 s.records)
    (hstop : StopsAt codecs pool 0 (crcAfter codecs 0 J.current.records) tail e)
    (he : e = .eof ∨ Player.repairable e = true) :
    ∃ p v dir' tail' r, Player.create dir 0 pool = .ok p ∧
      p.replay codecs dir (.newReplayResult (.entryStore [])) true = (dir', r, none) ∧
      Yields metadata S r ∧ SegmentsAt codecs dir' J.closed J.current tail' ∧
      Recovered codecs J.current v (.entryStore []) r ∧ J.Shown 0 S.entries v ∧
      tail' = if e = .eof then tail else [] := by
  obtain ⟨p, v, hp, rfl, hplay, hview, hshown⟩ := h.playable hat hfits hvisible
  have hempty : (EntryCollection.entryStore []).IsEmpty := rfl
  have hstart : p.startSnapshotIndex = 0 := by
    obtain ⟨files, -, hpure⟩ := bind_eq_ok.mp hp
    exact (congrArg Player.startSnapshotIndex (Except.ok.inj hpure)).symm
  rw [← hstart] at hstop
  by_cases heof : e = .eof
  · subst heof
    obtain ⟨r, hr, hrecovered⟩ := hplay.replay_eof hempty hstop true
    exact ⟨p, v, dir, tail, r, hp, hr, hrecovered.yields h hshown hview, hat, hrecovered, hshown,
      rfl⟩
  · obtain ⟨r, hr, hrecovered⟩ := hplay.replay_repair hempty (fun s hs => hat.name_ne hs) hstop
      (he.resolve_left heof)
    exact ⟨p, v, _, [], r, hp, hr, hrecovered.yields h hshown hview, hat.repaired, hrecovered,
      hshown, (if_neg heof).symm⟩

end OpenWal

end Babuza.Babuzawal
