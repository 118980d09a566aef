import Babuza.Babuzawal.Player

/-!
# Directories of segments

A segment is a log file as a list of records. `SegmentsAt` says that the log files of a directory
are given segments with consecutive ids, the last one followed by the bytes `tail`. On such a
directory `ReadValidLogFiles` finds a suffix of the segments and the player reads what the
segments mean, up to the point where it reads `tail`.
-/

namespace Babuza.Babuzawal

open Lib Allocator List

structure Segment where
  id : Nat
  startLogIndex : Nat
  records : List Record
  deriving DecidableEq

variable {segs : List Segment} {s : Segment} {base : Nat}

namespace Segment

def desc (s : Segment) : LogFileDesc := ⟨s.id, s.startLogIndex, false⟩

def name (s : Segment) : FileName := s.desc.getLogFileName

/-- The records of a segment can be read back: the checksum record comes first, each record is
within the limits and none looks like preallocated space. -/
structure Sound (codecs : RaftCodecs) (pool : ByteSlicePool) (s : Segment) : Prop where
  crc_first : ∃ crc rest, s.records = .crc crc :: rest
  readable : ∀ r ∈ s.records, r.Readable
  fits : ∀ r ∈ s.records, r.Fits codecs pool
  visible : AllVisible codecs 0 s.records

theorem name_ne_of_consecutive (h : Consecutive Segment.id base segs) (hs : s ∈ segs)
    {name : FileName} (hid : name.id = base + segs.length) : s.name ≠ name := by
  obtain ⟨i, hi, rfl⟩ := mem_iff_getElem.mp hs
  have hpos := h.getElem hi
  intro heq
  have hsame : (segs.get ⟨i, hi⟩).id = name.id := congrArg FileName.id heq
  omega

end Segment

/-- The meaning of segments read one after the other. -/
def LogView.applySegments (snapshotIndex : Nat) : LogView → List Segment → Option LogView
  | v, [] => some v
  | v, s :: segs =>
    (v.startFile.applyAll snapshotIndex s.records).bind fun v => applySegments snapshotIndex v segs

variable {snapshotIndex : Nat}

theorem LogView.applySegments_append (v : LogView) (segs segs' : List Segment) :
    v.applySegments snapshotIndex (segs ++ segs') =
      (v.applySegments snapshotIndex segs).bind fun v => v.applySegments snapshotIndex segs' := by
  induction segs generalizing v with
  | nil => rfl
  | cons s segs ih =>
    rw [cons_append, applySegments, applySegments, Option.bind_assoc]
    simp only [ih]

variable {v v' : LogView}

theorem LogView.applySegments_concat (h : v.applySegments snapshotIndex segs = some v') :
    v.applySegments snapshotIndex (segs ++ [s]) =
      v'.startFile.applyAll snapshotIndex s.records := by
  rw [applySegments_append, h, Option.bind_some, applySegments]
  cases v'.startFile.applyAll snapshotIndex s.records <;> rfl

theorem LogView.applySegments_concat_eq_some
    (h : v.applySegments snapshotIndex (segs ++ [s]) = some v') :
    ∃ u, v.applySegments snapshotIndex segs = some u ∧
      u.startFile.applyAll snapshotIndex s.records = some v' := by
  obtain ⟨u, hu, -⟩ := Option.bind_eq_some_iff.mp ((applySegments_append v segs [s]).symm.trans h)
  exact ⟨u, hu, (applySegments_concat hu).symm.trans h⟩

theorem LogView.applySegments_snapshots (h : v.applySegments snapshotIndex segs = some v') :
    v'.snapshots = v.snapshots ++ segs.flatMap fun s => s.records.filterMap Record.snapshot? := by
  induction segs generalizing v with
  | nil =>
    cases h
    exact (append_nil _).symm
  | cons s segs ih =>
    obtain ⟨u, hu, h⟩ := Option.bind_eq_some_iff.mp h
    rw [ih h, applyAll_snapshots hu, append_assoc, flatMap_cons]
    rfl

/-- The files of `dir` are the segments `closed`, and `current` with `tail` behind it; copies of
broken files aside. -/
structure SegmentsAt (codecs : RaftCodecs) (dir : Directory) (closed : List Segment)
    (current : Segment) (tail : Bytes) : Prop where
  ids : ∃ base, Consecutive Segment.id base (closed ++ [current])
  mem_dir : ∀ name ∈ dir, name.kind ≠ .broken → ∃ s ∈ closed ++ [current], name = s.name
  lookup_closed : ∀ s ∈ closed, dir.lookup s.name = some (contents codecs s.records)
  lookup_current : dir.lookup current.name = some (contents codecs current.records ++ tail)

/-! ## Finding the files -/

theorem parseLogFileName_eq_some {name : FileName} {desc : LogFileDesc} :
    parseLogFileName name = some desc ↔ name = desc.getLogFileName ∧ desc.isTempFile = false := by
  obtain ⟨kind, id, start⟩ := name
  obtain ⟨id', start', temp⟩ := desc
  cases kind <;> simp [parseLogFileName, LogFileDesc.getLogFileName]
  tauto

theorem parsed_nodup (dir : Directory) : (dir.keys.filterMap parseLogFileName).Nodup := by
  refine (AList.keys_nodup dir).filterMap fun a a' b ha ha' => ?_
  rw [(parseLogFileName_eq_some.mp ha).1, (parseLogFileName_eq_some.mp ha').1]

variable {dir : Directory}

theorem logFiles_eq_of_mem {files : List LogFileDesc}
    (hsorted : files.Pairwise fun a b => a.id < b.id)
    (hmem : ∀ desc, desc ∈ dir.keys.filterMap parseLogFileName ↔ desc ∈ files) :
    logFiles dir = files := by
  have hids : (files.map LogFileDesc.id).Nodup :=
    (pairwise_map.mpr hsorted).imp fun hlt => Nat.ne_of_lt hlt
  have hperm : (logFiles dir).Perm files :=
    (perm_insertionSort _ _).trans ((perm_ext_iff_of_nodup (parsed_nodup dir)
      (List.Nodup.of_map _ hids)).mpr hmem)
  have : Std.Total fun a b : LogFileDesc => a.id ≤ b.id := ⟨fun a b => Nat.le_total _ _⟩
  have : IsTrans LogFileDesc fun a b => a.id ≤ b.id := ⟨fun _ _ _ => Nat.le_trans⟩
  refine hperm.eq_of_pairwise ?_ (pairwise_insertionSort _ _)
    (hsorted.imp fun hlt => Nat.le_of_lt hlt)
  intro a b ha hb hab hba
  exact inj_on_of_nodup_map hids (hperm.mem_iff.mp ha) hb (Nat.le_antisymm hab hba)

namespace SegmentsAt

variable {codecs : RaftCodecs} {closed : List Segment} {current : Segment} {tail : Bytes}

theorem mem (h : SegmentsAt codecs dir closed current tail) (hs : s ∈ closed ++ [current]) :
    s.name ∈ dir := by
  rw [← AList.lookup_isSome]
  rcases List.mem_append.mp hs with hs | hs
  · rw [h.lookup_closed s hs]
    rfl
  · rw [mem_singleton.mp hs, h.lookup_current]
    rfl

theorem mem_logFiles (h : SegmentsAt codecs dir closed current tail) (desc : LogFileDesc) :
    desc ∈ dir.keys.filterMap parseLogFileName ↔ desc ∈ (closed ++ [current]).map Segment.desc := by
  rw [mem_filterMap, mem_map]
  constructor
  · rintro ⟨name, hname, hparse⟩
    obtain ⟨rfl, htemp⟩ := parseLogFileName_eq_some.mp hparse
    obtain ⟨s, hs, heq⟩ := h.mem_dir _ (AList.mem_keys.mpr hname) (by
      simp [LogFileDesc.getLogFileName])
    refine ⟨s, hs, ?_⟩
    obtain ⟨id, start, temp⟩ := desc
    simp only [Segment.name, Segment.desc, LogFileDesc.getLogFileName, FileName.mk.injEq] at heq
    simp only at htemp
    simp [Segment.desc, heq, htemp]
  · rintro ⟨s, hs, rfl⟩
    exact ⟨s.name, AList.mem_keys.mp (h.mem hs), parseLogFileName_eq_some.mpr ⟨rfl, rfl⟩⟩

theorem sorted_desc (h : Consecutive Segment.id base segs) :
    (segs.map Segment.desc).Pairwise fun a b => a.id < b.id := by
  rw [pairwise_map]
  have hids : (segs.map Segment.id).Pairwise (· < ·) := by
    rw [h]
    exact pairwise_lt_range'
  exact pairwise_map.mp hids

theorem logFiles_eq (h : SegmentsAt codecs dir closed current tail) :
    logFiles dir = (closed ++ [current]).map Segment.desc := by
  obtain ⟨base, hids⟩ := h.ids
  exact logFiles_eq_of_mem (sorted_desc hids) h.mem_logFiles

end SegmentsAt

/-- The segments that `ReadValidLogFiles` returns: all of them, or those from the last one on that
starts at or below the snapshot. -/
structure Suffix (snapIndex : Nat) (segs skipped read : List Segment) : Prop where
  eq_append : segs = skipped ++ read
  start_le : skipped = [] ∨ ∃ s rest, read = s :: rest ∧ s.startLogIndex ≤ snapIndex
  lt_start : ∀ s ∈ read.tail, snapIndex < s.startLogIndex

theorem validLogFiles_suffix (snapIndex : Nat) (h : Consecutive Segment.id base segs)
    (found : List LogFileDesc) (nextSeq : Nat)
    (hnext : nextSeq = 0 ∨ nextSeq = base + segs.length) :
    ∃ skipped read, Suffix snapIndex segs skipped read ∧
      validLogFiles snapIndex (segs.map Segment.desc).reverse nextSeq found =
        .ok (read.map Segment.desc ++ found) := by
  induction segs using List.reverseRecOn generalizing found nextSeq with
  | nil => exact ⟨[], [], ⟨rfl, .inl rfl, by simp⟩, rfl⟩
  | append_singleton segs s ih =>
    obtain ⟨hsegs, hs⟩ := consecutive_append.mp h
    have hid : s.id = base + segs.length := (consecutive_cons.mp hs).1
    have hcheck : ¬ (nextSeq ≠ 0 ∧ s.desc.id ≠ nextSeq - 1) := by
      rw [length_append, length_singleton] at hnext
      simp only [Segment.desc]
      omega
    rw [map_append, reverse_append, map_singleton, reverse_singleton,
      singleton_append, validLogFiles, if_neg hcheck]
    by_cases hle : s.desc.startLogIndex ≤ snapIndex
    · exact ⟨segs, [s], ⟨rfl, .inr ⟨s, [], rfl, hle⟩, by simp⟩, by rw [if_pos hle]; rfl⟩
    · obtain ⟨skipped, read, hsuffix, hvalid⟩ := ih hsegs (s.desc :: found) s.desc.id
        (.inr hid)
      refine ⟨skipped, read ++ [s], ⟨?_, ?_, ?_⟩, ?_⟩
      · rw [hsuffix.eq_append, append_assoc]
      · rcases hsuffix.start_le with hnil | ⟨t, rest, hread, hstart⟩
        · exact .inl hnil
        · exact .inr ⟨t, rest ++ [s], by rw [hread]; rfl, hstart⟩
      · cases read with
        | nil => exact nofun
        | cons u rest => exact forall_mem_concat.mpr ⟨hsuffix.lt_start, Nat.not_le.mp hle⟩
      · rw [if_neg hle, hvalid, map_append, append_assoc]
        rfl

variable {tail : Bytes} {codecs : RaftCodecs} {current : Segment}

theorem SegmentsAt.readValidLogFiles_eq {closed : List Segment}
    (h : SegmentsAt codecs dir closed current tail) (snapIndex : Nat) :
    ∃ skipped read, Suffix snapIndex (closed ++ [current]) skipped read ∧
      readValidLogFiles dir snapIndex = .ok (read.map Segment.desc) := by
  obtain ⟨base, hids⟩ := h.ids
  obtain ⟨skipped, read, hsuffix, hvalid⟩ := validLogFiles_suffix snapIndex hids [] 0 (.inl rfl)
  rw [append_nil] at hvalid
  refine ⟨skipped, read, hsuffix, ?_⟩
  rw [readValidLogFiles, h.logFiles_eq, hvalid]

/-! ## Reading the files -/

variable {e : WalError} {c initial : EntryCollection}

section Reading

variable {pool : ByteSlicePool} {p : Parser}

theorem decode_nil (pool : ByteSlicePool) : decode pool [] = .error .eof := rfl

/-- What the parser has read when it reaches the end of the records of a segment. -/
structure AtEnd (codecs : RaftCodecs) (s : Segment) (v : LogView) (initial : EntryCollection)
    (p : Parser) : Prop where
  shows_view : p.Shows v
  offset_eq : p.result.lastValidLogOffset = (contents codecs s.records).length
  crc_eq : p.result.lastValidLogCrc = crcAfter codecs 0 s.records
  desc_eq : p.result.lastLogFileDesc = s.desc
  clear_eq : p.result.entryCollection.clearEntries = initial

theorem Parser.Shows.start (h : p.Shows v) (desc : LogFileDesc) :
    (p.start desc).Shows v.startFile :=
  { h with found := rfl }

/-- The checksum record in front of a segment makes the checksum left over from the file before
irrelevant. -/
theorem Segment.Sound.any_crc (h : s.Sound codecs pool) (crc : UInt32) :
    encodeRecords codecs crc s.records = encodeRecords codecs 0 s.records ∧
      crcAfter codecs crc s.records = crcAfter codecs 0 s.records ∧
      AllVisible codecs crc s.records := by
  obtain ⟨value, rest, hrecords⟩ := h.crc_first
  have hvisible := h.visible
  rw [hrecords] at hvisible ⊢
  exact ⟨rfl, rfl, hvisible⟩

theorem parse_records (hsound : s.Sound codecs pool) (tail : Bytes) :
    p.parse codecs pool snapshotIndex s.desc (encodeRecords codecs 0 s.records ++ tail) =
      match (p.start s.desc).feed codecs snapshotIndex p.result.lastValidLogCrc s.records with
      | (q, some e) => (q, e)
      | (q, none) => Parser.parseLoop codecs pool snapshotIndex (tail.length + 1) q tail := by
  obtain ⟨hbytes, -, hvisible⟩ := hsound.any_crc p.result.lastValidLogCrc
  rw [← hbytes]
  exact Parser.parseLoop_records tail hsound.fits hvisible (Nat.lt_succ_self _)

theorem parse_segment (tail : Bytes) (hshows : p.Shows v) (hsound : s.Sound codecs pool)
    (happly : v.startFile.applyAll snapshotIndex s.records = some v') :
    ∃ q, p.parse codecs pool snapshotIndex s.desc (encodeRecords codecs 0 s.records ++ tail) =
        Parser.parseLoop codecs pool snapshotIndex (tail.length + 1) q tail ∧
      AtEnd codecs s v' p.result.entryCollection.clearEntries q := by
  obtain ⟨hbytes, hcrcAfter, -⟩ := hsound.any_crc p.result.lastValidLogCrc
  obtain ⟨q, hq, hqshows, hadvance⟩ := Parser.feed_shows (hshows.start s.desc)
    (show _ = p.result.lastValidLogCrc from rfl) hsound.readable happly
  refine ⟨q, by rw [parse_records hsound, hq], hqshows, ?_, ?_, hadvance.desc_eq, hadvance.clear_eq⟩
  · rw [hadvance.offset_eq, hbytes, contents, length_append, logFileHeader_length]
    rfl
  · rw [hadvance.crc_eq, hcrcAfter]

theorem parse_segment_error (hshows : p.Shows v) (hsound : s.Sound codecs pool)
    (happly : v.startFile.applyAll snapshotIndex s.records = some v')
    (htail : decode pool tail = .error e) :
    ∃ q, p.parse codecs pool snapshotIndex s.desc (encodeRecords codecs 0 s.records ++ tail) =
        (q, e) ∧ AtEnd codecs s v' p.result.entryCollection.clearEntries q := by
  obtain ⟨q, hq, hend⟩ := parse_segment tail hshows hsound happly
  exact ⟨q, by rw [hq, Parser.parseLoop, htail], hend⟩

theorem replayFiles_segment {q : Parser} (files : List LogFileDesc)
    (hlookup : dir.lookup s.name = some (contents codecs s.records ++ tail))
    (hparse : p.parse codecs pool snapshotIndex s.desc (encodeRecords codecs 0 s.records ++ tail) =
      (q, e)) :
    Player.replayFiles codecs pool snapshotIndex dir p (s.desc :: files) =
      if e = .eof then Player.replayFiles codecs pool snapshotIndex dir q files
      else (q, some (s.desc, e)) := by
  rw [contents, append_assoc] at hlookup
  simp only [Player.replayFiles, getLogFileReader_eq hlookup, hparse]
  cases e <;> rfl

theorem replayFiles_closed (files : List LogFileDesc) (hshows : p.Shows v)
    (hsound : ∀ s ∈ segs, s.Sound codecs pool)
    (hlookup : ∀ s ∈ segs, dir.lookup s.name = some (contents codecs s.records))
    (happly : v.applySegments snapshotIndex segs = some v') :
    ∃ q, Player.replayFiles codecs pool snapshotIndex dir p (segs.map Segment.desc ++ files) =
        Player.replayFiles codecs pool snapshotIndex dir q files ∧ q.Shows v' ∧
      q.result.entryCollection.clearEntries = p.result.entryCollection.clearEntries := by
  induction segs generalizing p v with
  | nil =>
    cases happly
    exact ⟨p, rfl, hshows, rfl⟩
  | cons s segs ih =>
    obtain ⟨u, hu, happly⟩ := Option.bind_eq_some_iff.mp happly
    obtain ⟨q, hq, hend⟩ := parse_segment_error hshows (hsound s (by simp)) hu
      (decode_nil pool)
    obtain ⟨q', hq', hshows', hclear⟩ := ih hend.shows_view (fun t ht => hsound t (by simp [ht]))
      (fun t ht => hlookup t (by simp [ht])) happly
    refine ⟨q', ?_, hshows', hclear.trans hend.clear_eq⟩
    rw [map_cons, cons_append, replayFiles_segment _ (by simpa using hlookup s (by simp)) hq,
      if_pos rfl, hq']

/-- The parser stops with `e` at the beginning of `tail`, where the running checksum is `crc`. -/
def StopsAt (codecs : RaftCodecs) (pool : ByteSlicePool) (snapshotIndex : Nat) (crc : UInt32)
    (tail : Bytes) (e : WalError) : Prop :=
  ∀ (q : Parser) (fuel : Nat), q.result.lastValidLogCrc = crc → tail.length < fuel →
    ∃ q', Parser.parseLoop codecs pool snapshotIndex fuel q tail = (q', e) ∧
      q'.result.lastValidLogOffset = q.result.lastValidLogOffset ∧
      q'.result.entryCollection = q.result.entryCollection ∧ (e = .eof → q' = q)

theorem StopsAt.of_decode {crc : UInt32} (h : decode pool tail = .error e) :
    StopsAt codecs pool snapshotIndex crc tail e := by
  intro q fuel _ hfuel
  obtain ⟨fuel, rfl⟩ : ∃ k, fuel = k + 1 := ⟨fuel - 1, by omega⟩
  exact ⟨q, by rw [Parser.parseLoop, h], rfl, rfl, fun _ => rfl⟩

/-- A result that has recovered the meaning `v` of a log ending with the segment `s`, starting
with the collection `initial`. -/
structure Recovered (codecs : RaftCodecs) (s : Segment) (v : LogView) (initial : EntryCollection)
    (r : ReplayResult) : Prop where
  metadata : r.metadata = v.metadata
  hardState : r.hardState = v.hardState
  snapshots : r.walSnapshots = v.snapshots
  nextEntry : r.entryCollection.isNop = false → r.nextEntry = v.nextEntry
  entries : r.entryCollection.Agrees v.entries
  offset_eq : r.lastValidLogOffset = (contents codecs s.records).length
  crc_eq : r.lastValidLogCrc = crcAfter codecs 0 s.records
  desc_eq : r.lastLogFileDesc = s.desc
  clear_eq : r.entryCollection.clearEntries = initial

theorem AtEnd.recovered (h : AtEnd codecs s v initial p) : Recovered codecs s v initial p.result :=
  { h, h.shows_view with }

def EntryCollection.IsEmpty (c : EntryCollection) : Prop := c.clearEntries = c

theorem shows_empty (h : c.IsEmpty) : (⟨.newReplayResult c, false⟩ : Parser).Shows .empty := by
  refine ⟨rfl, rfl, rfl, rfl, fun _ => rfl, ?_⟩
  cases c with
  | entryStore es | indexedEntryStore xs =>
    cases h
    rfl
  | nopEntryStore => trivial

end Reading

/-- The segments `pre` and `current` of a directory, ready to be read by a player. -/
structure Playable (codecs : RaftCodecs) (p : Player) (dir : Directory) (pre : List Segment)
    (current : Segment) (tail : Bytes) (v : LogView) : Prop where
  logFiles_eq : p.logFiles = (pre ++ [current]).map Segment.desc
  lookup_pre : ∀ s ∈ pre, dir.lookup s.name = some (contents codecs s.records)
  lookup_current : dir.lookup current.name = some (contents codecs current.records ++ tail)
  sound : ∀ s ∈ pre ++ [current], s.Sound codecs p.memPool
  view : LogView.empty.applySegments p.startSnapshotIndex (pre ++ [current]) = some v

namespace Playable

variable {p : Player} {pre : List Segment}

section

variable (h : Playable codecs p dir pre current tail v)
include h

section

variable (hc : c.IsEmpty)
include hc

theorem replayOnce_eq :
    ∃ (q : Parser) (u : LogView), q.Shows u ∧
      u.startFile.applyAll p.startSnapshotIndex current.records = some v ∧
      q.result.entryCollection.clearEntries = c ∧
      ∀ q' e', q.parse codecs p.memPool p.startSnapshotIndex current.desc
          (encodeRecords codecs 0 current.records ++ tail) = (q', e') →
        p.replayOnce codecs dir (.newReplayResult c) =
          (q'.result, if e' = .eof then none else some (current.desc, e')) := by
  obtain ⟨u, hu, hv⟩ := LogView.applySegments_concat_eq_some h.view
  obtain ⟨q, hq, hqshows, hqclear⟩ := replayFiles_closed [current.desc] (shows_empty hc)
    (fun s hs => h.sound s (mem_append_left _ hs)) h.lookup_pre hu
  refine ⟨q, u, hqshows, hv, hqclear.trans hc, ?_⟩
  intro q' e' hparse
  rw [Player.replayOnce, h.logFiles_eq, map_append, map_singleton, hq,
    replayFiles_segment [] h.lookup_current hparse]
  cases e' <;> rfl

theorem replayOnce
    (hstop : StopsAt codecs p.memPool p.startSnapshotIndex (crcAfter codecs 0 current.records) tail
      e) :
    ∃ r, p.replayOnce codecs dir (.newReplayResult c) =
        (r, if e = .eof then none else some (current.desc, e)) ∧
      r.lastValidLogOffset = (contents codecs current.records).length ∧
      r.entryCollection.clearEntries = c ∧ (e = .eof → Recovered codecs current v c r) := by
  obtain ⟨q, u, hqshows, hu, hclear, hreplay⟩ := h.replayOnce_eq hc
  obtain ⟨q', hparse, hend⟩ := parse_segment tail hqshows (h.sound current (by simp)) hu
  obtain ⟨r, hr, hoffset, hcollection, heof⟩ := hstop q' _ hend.crc_eq (Nat.lt_succ_self _)
  rw [hclear] at hend
  refine ⟨r.result, hreplay r e (hparse.trans hr), hoffset.trans hend.offset_eq, ?_, ?_⟩
  · rw [hcollection, hend.clear_eq]
  · intro he
    rw [heof he]
    exact hend.recovered

theorem replayOnce_undecodable (htail : decode p.memPool tail = .error e) :
    ∃ r, p.replayOnce codecs dir (.newReplayResult c) =
        (r, if e = .eof then none else some (current.desc, e)) ∧
          Recovered codecs current v c r := by
  obtain ⟨q, u, hqshows, hu, hclear, hreplay⟩ := h.replayOnce_eq hc
  obtain ⟨q', hparse, hend⟩ := parse_segment_error hqshows (h.sound current (by simp)) hu htail
  rw [hclear] at hend
  exact ⟨q'.result, hreplay q' e hparse, hend.recovered⟩

theorem replay_eof
    (hstop : StopsAt codecs p.memPool p.startSnapshotIndex (crcAfter codecs 0 current.records) tail
      .eof)
    (repair : Bool) :
    ∃ r, p.replay codecs dir (.newReplayResult c) repair = (dir, r, none) ∧
      Recovered codecs current v c r := by
  obtain ⟨r, hr, -, -, hrecovered⟩ := h.replayOnce hc hstop
  exact ⟨r, by rw [Player.replay, hr]; rfl, hrecovered rfl⟩

theorem replay_error
    (hstop : StopsAt codecs p.memPool p.startSnapshotIndex (crcAfter codecs 0 current.records) tail
      e)
    (he : e ≠ .eof) : ∃ r, p.replay codecs dir (.newReplayResult c) false = (dir, r, some e) := by
  obtain ⟨r, hr, -⟩ := h.replayOnce hc hstop
  exact ⟨r, by rw [Player.replay, hr, if_neg he]; rfl⟩

end

end

end Playable

/-! ## Repair -/

/-- The directory after the current file has been copied and cut off behind its records. -/
def repaired (codecs : RaftCodecs) (dir : Directory) (current : Segment) (tail : Bytes) :
    Directory :=
  (dir.insert ⟨.broken, current.id, current.startLogIndex⟩
    (contents codecs current.records ++ tail)).insert current.name
    (contents codecs current.records)

section Repair

variable {p : Player} {pre closed : List Segment}

theorem lookup_repaired_ne {name : FileName} (hkind : name.kind ≠ .broken)
    (hne : name ≠ current.name) :
    (repaired codecs dir current tail).lookup name = dir.lookup name := by
  rw [repaired, AList.lookup_insert_ne hne, AList.lookup_insert_ne]
  rintro rfl
  exact hkind rfl

theorem SegmentsAt.name_ne (h : SegmentsAt codecs dir closed current tail) (hs : s ∈ closed) :
    s.name ≠ current.name := by
  obtain ⟨base, hids⟩ := h.ids
  obtain ⟨hclosed, hcurrent⟩ := consecutive_append.mp hids
  exact Segment.name_ne_of_consecutive hclosed hs (consecutive_cons.mp hcurrent).1

theorem SegmentsAt.repaired (h : SegmentsAt codecs dir closed current tail) :
    SegmentsAt codecs (repaired codecs dir current tail) closed current [] where
  ids := h.ids
  mem_dir := by
    intro name hname hkind
    rcases (AList.mem_insert _).mp hname with rfl | hname
    · exact ⟨current, by simp, rfl⟩
    rcases (AList.mem_insert _).mp hname with rfl | hname
    · exact absurd rfl hkind
    · exact h.mem_dir name hname hkind
  lookup_closed := by
    intro s hs
    rw [lookup_repaired_ne (by simp [Segment.name, LogFileDesc.getLogFileName]) (h.name_ne hs)]
    exact h.lookup_closed s hs
  lookup_current := by rw [Babuzawal.repaired, AList.lookup_insert, append_nil]

theorem Playable.repaired (h : Playable codecs p dir pre current tail v)
    (hne : ∀ s ∈ pre, s.name ≠ current.name) :
    Playable codecs p (repaired codecs dir current tail) pre current [] v where
  logFiles_eq := h.logFiles_eq
  lookup_pre := by
    intro s hs
    rw [lookup_repaired_ne (by simp [Segment.name, LogFileDesc.getLogFileName]) (hne s hs)]
    exact h.lookup_pre s hs
  lookup_current := by rw [Babuzawal.repaired, AList.lookup_insert, append_nil]
  sound := h.sound
  view := h.view

theorem repairLogFile_repaired
    (h : dir.lookup current.name = some (contents codecs current.records ++ tail)) :
    repairLogFile dir current.desc (contents codecs current.records).length =
      .ok (repaired codecs dir current tail) := by
  have hopen : openLogFileHandle (contents codecs current.records ++ tail) = .ok () := by
    rw [contents, append_assoc]
    exact openLogFileHandle_header _
  have hle := (prefix_append (contents codecs current.records) tail).length_le
  rw [repairLogFile, show dir.lookup current.desc.getLogFileName = _ from h]
  simp only [hopen, ok_bind, zeroExtend, Nat.sub_eq_zero_of_le hle, zeros_zero, append_nil,
    take_left]
  rfl

theorem Playable.replay_repair (h : Playable codecs p dir pre current tail v) (hc : c.IsEmpty)
    (hne : ∀ s ∈ pre, s.name ≠ current.name)
    (hstop : StopsAt codecs p.memPool p.startSnapshotIndex (crcAfter codecs 0 current.records) tail
      e)
    (hrepairable : Player.repairable e = true) :
    ∃ r, p.replay codecs dir (.newReplayResult c) true =
        (Babuzawal.repaired codecs dir current tail, r, none) ∧ Recovered codecs current v c r := by
  have he : e ≠ .eof := by
    rintro rfl
    cases hrepairable
  obtain ⟨r, hr, hoffset, hclear, -⟩ := h.replayOnce hc hstop
  have hlast : p.logFiles.getLast? = some current.desc := by
    rw [h.logFiles_eq, map_append, map_singleton]
    simp
  obtain ⟨r', hr', -, -, hrecovered⟩ := (h.repaired hne).replayOnce hc
    (.of_decode (decode_nil _))
  refine ⟨r', ?_, hrecovered rfl⟩
  rw [Player.replay, hr, if_neg he]
  simp only [hrepairable, and_self, if_true, hlast, ne_eq, not_true_eq_false, if_false, hoffset,
    repairLogFile_repaired h.lookup_current, ReplayResult.reset, hclear, hr']
  rfl

end Repair

end Babuza.Babuzawal
