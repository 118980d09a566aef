import Babuza.Babuzawal.Indexed
import Babuza.Babuzawal.Restart
import Mathlib.Data.List.Forall2

/-!
# The entry index

The index of an entry says in which file its data lies and where. `saveEntry` takes the place from
the position of the page writer; `IndexedEntryStore` adds up the sizes of the records it has
decoded. Both are compared here with the place of the record in its segment: the bytes of the
records in front of it (`indexAt`).
-/

namespace Babuza.Babuzawal

open Lib Allocator Walbase List

variable {codecs : RaftCodecs}

/-! ## Places of entries -/

/-- The index of `e`, whose record stands behind the records `before` of the file `id`. -/
def indexAt (codecs : RaftCodecs) (id : Nat) (before : List Record) (e : Entry) :
    EntryIndex EntryIndexMetadata where
  term := e.term
  index := e.index
  type := e.type
  metadata :=
    { fileId := id
      offset := (contents codecs before).length + headerSize
      dataLen := e.data.length
      dataCapacity := e.data.length + (8 - e.data.length % 8) % 8 }

variable {before rs : List Record} {id : Nat} {segs : List Segment}

namespace LogView

variable (codecs : RaftCodecs) (snapshotIndex : Nat)

def indexStep (id : Nat) (before : List Record) (v : LogView)
    (xs : List (EntryIndex EntryIndexMetadata)) :
    Record → Option (List (EntryIndex EntryIndexMetadata))
  | .entry type data => decodeInto snapshotIndex v.nextEntry.nextIndex
      (indexAt codecs id before (v.nextOf type data)) xs
  | _ => some xs

def indexAll (id : Nat) : (before : List Record) → LogView →
    List (EntryIndex EntryIndexMetadata) → List Record →
    Option (LogView × List (EntryIndex EntryIndexMetadata))
  | _, v, xs, [] => some (v, xs)
  | before, v, xs, r :: rs => do
    let v' ← v.apply snapshotIndex r
    let xs' ← v.indexStep codecs snapshotIndex id before xs r
    indexAll id (before ++ [r]) v' xs' rs

def indexSegments : LogView → List (EntryIndex EntryIndexMetadata) → List Segment →
    Option (LogView × List (EntryIndex EntryIndexMetadata))
  | v, xs, [] => some (v, xs)
  | v, xs, s :: segs => do
    let (v', xs') ← indexAll codecs snapshotIndex s.id [] v.startFile xs s.records
    indexSegments v' xs' segs

variable {codecs snapshotIndex} {v v' : LogView} {xs xs' : List (EntryIndex EntryIndexMetadata)}

theorem indexAll_append (before rs rs' : List Record) :
    indexAll codecs snapshotIndex id before v xs (rs ++ rs') =
      (indexAll codecs snapshotIndex id before v xs rs).bind fun (v, xs) =>
        indexAll codecs snapshotIndex id (before ++ rs) v xs rs' := by
  induction rs generalizing before v xs with
  | nil =>
    rw [append_nil]
    rfl
  | cons r rs ih =>
    simp only [cons_append, indexAll, Option.bind_eq_bind]
    cases v.apply snapshotIndex r with
    | none => rfl
    | some u =>
      cases v.indexStep codecs snapshotIndex id before xs r with
      | none => rfl
      | some ys => rw [Option.bind_some, Option.bind_some, ih, append_assoc]; rfl

theorem indexSegments_append (segs segs' : List Segment) :
    indexSegments codecs snapshotIndex v xs (segs ++ segs') =
      (indexSegments codecs snapshotIndex v xs segs).bind fun (v, xs) =>
        indexSegments codecs snapshotIndex v xs segs' := by
  induction segs generalizing v xs with
  | nil => rfl
  | cons s segs ih =>
    simp only [cons_append, indexSegments, Option.bind_eq_bind]
    cases indexAll codecs snapshotIndex s.id [] v.startFile xs s.records with
    | none => rfl
    | some u => exact ih

theorem applyAll_of_indexAll
    (h : indexAll codecs snapshotIndex id before v xs rs = some (v', xs')) :
    v.applyAll snapshotIndex rs = some v' := by
  induction rs generalizing before v xs with
  | nil =>
    cases h
    rfl
  | cons r rs ih =>
    rw [indexAll] at h
    obtain ⟨u, hu, h⟩ := Option.bind_eq_some_iff.mp h
    obtain ⟨ys, -, h⟩ := Option.bind_eq_some_iff.mp h
    rw [applyAll_cons, hu]
    exact ih h

theorem applySegments_of_indexSegments
    (h : indexSegments codecs snapshotIndex v xs segs = some (v', xs')) :
    v.applySegments snapshotIndex segs = some v' := by
  induction segs generalizing v xs with
  | nil =>
    cases h
    rfl
  | cons s segs ih =>
    rw [indexSegments] at h
    obtain ⟨⟨u, ys⟩, hu, h⟩ := Option.bind_eq_some_iff.mp h
    rw [applySegments, applyAll_of_indexAll hu]
    exact ih h

theorem indexSegments_concat {s : Segment} {u : LogView} {ys : List (EntryIndex EntryIndexMetadata)}
    (h : indexSegments codecs snapshotIndex v xs segs = some (u, ys)) :
    indexSegments codecs snapshotIndex v xs (segs ++ [s]) =
      indexAll codecs snapshotIndex s.id [] u.startFile ys s.records := by
  simp only [indexSegments_append, h, Option.bind_some, indexSegments, Option.bind_eq_bind]
  cases indexAll codecs snapshotIndex s.id [] u.startFile ys s.records <;> rfl

theorem indexSegments_concat_eq_some {s : Segment}
    (h : indexSegments codecs snapshotIndex v xs (segs ++ [s]) = some (v', xs')) :
    ∃ u ys, indexSegments codecs snapshotIndex v xs segs = some (u, ys) ∧
      indexAll codecs snapshotIndex s.id [] u.startFile ys s.records = some (v', xs') := by
  obtain ⟨⟨u, ys⟩, hu, -⟩ :=
    Option.bind_eq_some_iff.mp ((indexSegments_append segs [s]).symm.trans h)
  exact ⟨u, ys, hu, (indexSegments_concat hu).symm.trans h⟩

end LogView

/-! ## The index that is replayed -/

variable {r : Record} {tail : Bytes} {d : Decoded}

section Replayed

variable {pool : ByteSlicePool} {snapshotIndex : Nat} {p q : Parser} {v v' : LogView}
  {xs xs' : List (EntryIndex EntryIndexMetadata)}

/-- The parser stands behind the records `before` of the file `id` and has collected `xs`. -/
structure Parser.Indexes (codecs : RaftCodecs) (id : Nat) (before : List Record)
    (xs : List (EntryIndex EntryIndexMetadata)) (p : Parser) : Prop where
  id_eq : p.result.lastLogFileDesc.id = id
  offset_eq : p.result.lastValidLogOffset = (contents codecs before).length
  collection_eq : p.result.entryCollection = .indexedEntryStore xs

section

variable (hshows : p.Shows v) (hindexes : p.Indexes codecs id before xs)
  (hsize : d.logSizeWithPadding = headerSize + d.logBuf.length + calcPadding d.logBuf.length)
include hshows hindexes hsize

theorem handleEntry_index {type : EntryType}
    (hstep : v.indexStep codecs snapshotIndex id before xs (.entry type d.logBuf) = some xs')
    (hq : p.handleEntry snapshotIndex type d = .ok q) :
    q.result.entryCollection = .indexedEntryStore xs' := by
  have hnext := hshows.nextEntry (by rw [hindexes.collection_eq]; rfl)
  simp only [Parser.handleEntry, hindexes.collection_eq, EntryCollection.isNop,
    Bool.false_eq_true, if_false] at hq
  split at hq
  · obtain ⟨result, hdecode, heq⟩ := bind_eq_ok.mp hq
    cases heq
    have hcapacity : d.logSizeWithPadding - headerSize =
        d.logBuf.length + (8 - d.logBuf.length % 8) % 8 := by
      rw [hsize, calcPadding, headerSize]
      omega
    simp only [LogView.indexStep, indexAt, LogView.nextOf] at hstep
    simp only [ReplayResult.decodeEntry, hindexes.collection_eq, hnext, hindexes.id_eq,
      hindexes.offset_eq, hcapacity, hstep] at hdecode
    cases hdecode
    rfl
  · cases hq

variable (htype : d.logType = r.logType.code) (hbody : d.logBuf = r.body codecs)
  (hstep : v.indexStep codecs snapshotIndex id before xs r = some xs')
include htype hbody hstep

theorem handleBody_index
    (hq : p.handleBody codecs snapshotIndex d = .ok q) :
    q.result.entryCollection = .indexedEntryStore xs' := by
  rw [Parser.handleBody, htype, LogType.ofCode?_code] at hq
  cases r with
  | entry type data =>
    have hbuf : d.logBuf = data := hbody
    rw [← hbuf] at hstep
    have hentry : p.handleEntry snapshotIndex type d = .ok q := by
      cases type <;> exact hq
    exact handleEntry_index hshows hindexes hsize hstep hentry
  | crc value => cases hq
  | metadata data =>
    cases hstep
    cases hq
    exact hindexes.collection_eq
  | nextEntry e | hardState st | snapshot snap =>
    cases hstep
    simp only [Record.logType] at hq
    split at hq
    · cases hq
    · cases hq
      exact hindexes.collection_eq

theorem logHandler_index
    (hq : p.logHandler codecs snapshotIndex d = (q, none)) :
    q.result.entryCollection = .indexedEntryStore xs' := by
  simp only [Parser.logHandler] at hq
  split at hq
  · rename_i hcrc
    have hkind := LogType.code_injective (htype.symm.trans hcrc)
    have hsame : xs' = xs := by
      cases r with
      | crc value =>
        cases hstep
        rfl
      | entry type data => cases type <;> cases hkind
      | _ => cases hkind
    rw [hsame]
    split at hq
    · cases hq
    · split at hq
      · cases hq
      · cases hq
        exact hindexes.collection_eq
  · split at hq
    · cases hq
    · split at hq
      · cases hq
      · rename_i p' hhandle
        cases hq
        have hindexes' : (p.setCrc (crc32Update p.result.lastValidLogCrc d.logBuf)).Indexes codecs
            id before xs := { hindexes with }
        show p'.result.entryCollection = _
        exact handleBody_index hshows.setCrc hindexes' hsize htype hbody hstep hhandle

end

theorem feed_index {crc : UInt32} (hshows : p.Shows v) (hindexes : p.Indexes codecs id before xs)
    (hcrc : p.result.lastValidLogCrc = crc) (hread : ∀ r ∈ rs, r.Readable)
    (hindex : LogView.indexAll codecs snapshotIndex id before v xs rs = some (v', xs')) :
    (p.feed codecs snapshotIndex crc rs).1.result.entryCollection = .indexedEntryStore xs' := by
  induction rs generalizing p v xs before crc with
  | nil =>
    cases hindex
    exact hindexes.collection_eq
  | cons r rs ih =>
    rw [LogView.indexAll] at hindex
    obtain ⟨u, hu, hindex⟩ := Option.bind_eq_some_iff.mp hindex
    obtain ⟨ys, hys, hindex⟩ := Option.bind_eq_some_iff.mp hindex
    obtain ⟨q, hq, hqshows, hadvance⟩ := Parser.logHandler_shows
      (d := r.decoded codecs crc []) hshows hcrc (hread r (by simp)) hu rfl rfl rfl
    have hcollection := logHandler_index hshows hindexes (frame_length _ _ _) rfl rfl hys hq
    have hoffset : q.result.lastValidLogOffset = (contents codecs (before ++ [r])).length := by
      rw [hadvance.offset_eq, hindexes.offset_eq, LogFile.contents_append_singleton, length_append]
      exact congrArg (_ + ·) ((frame_length ..).trans (frame_length ..).symm)
    simp only [Parser.feed, hq]
    exact ih hqshows ⟨hadvance.desc_eq ▸ hindexes.id_eq, hoffset, hcollection⟩ hadvance.crc_eq
      (fun r' hr' => hread r' (by simp [hr'])) hindex

theorem parse_index {s : Segment} {e : WalError} (hshows : p.Shows v)
    (hcollection : p.result.entryCollection = .indexedEntryStore xs) (hsound : s.Sound codecs pool)
    (hindex : LogView.indexAll codecs snapshotIndex s.id [] v.startFile xs s.records =
      some (v', xs'))
    (htail : decode pool tail = .error e) :
    (p.parse codecs pool snapshotIndex s.desc
        (encodeRecords codecs 0 s.records ++ tail)).1.result.entryCollection =
      .indexedEntryStore xs' := by
  have hindexes : (p.start s.desc).Indexes codecs s.id [] xs := by
    refine ⟨rfl, ?_, hcollection⟩
    rw [contents, encodeRecords_nil, append_nil, logFileHeader_length]
    rfl
  have hfeed := feed_index (hshows.start s.desc) hindexes
    (show _ = p.result.lastValidLogCrc from rfl) hsound.readable hindex
  rw [parse_records hsound]
  generalize (p.start s.desc).feed codecs snapshotIndex _ s.records = x at hfeed ⊢
  obtain ⟨q, _ | e⟩ := x
  · simp only [Parser.parseLoop, htail]
    exact hfeed
  · exact hfeed

theorem replayFiles_index {dir : Directory} (files : List LogFileDesc) (hshows : p.Shows v)
    (hcollection : p.result.entryCollection = .indexedEntryStore xs)
    (hsound : ∀ s ∈ segs, s.Sound codecs pool)
    (hlookup : ∀ s ∈ segs, dir.lookup s.name = some (contents codecs s.records))
    (hindex : LogView.indexSegments codecs snapshotIndex v xs segs = some (v', xs')) :
    ∃ q, Player.replayFiles codecs pool snapshotIndex dir p (segs.map Segment.desc ++ files) =
        Player.replayFiles codecs pool snapshotIndex dir q files ∧ q.Shows v' ∧
      q.result.entryCollection = .indexedEntryStore xs' := by
  induction segs generalizing p v xs with
  | nil =>
    cases hindex
    exact ⟨p, rfl, hshows, hcollection⟩
  | cons s segs ih =>
    rw [LogView.indexSegments] at hindex
    obtain ⟨⟨u, ys⟩, hu, hindex⟩ := Option.bind_eq_some_iff.mp hindex
    have hsegment := hsound s (by simp)
    obtain ⟨q, hq, hend⟩ := parse_segment_error hshows hsegment
      (LogView.applyAll_of_indexAll hu) (decode_nil pool)
    have hys := parse_index hshows hcollection hsegment hu
      (decode_nil pool)
    rw [hq] at hys
    obtain ⟨q', hq', hrest⟩ := ih hend.shows_view hys (fun t ht => hsound t (by simp [ht]))
      (fun t ht => hlookup t (by simp [ht])) hindex
    rw [map_cons, cons_append, replayFiles_segment _ (by simpa using hlookup s (by simp)) hq,
      if_pos rfl]
    exact ⟨q', hq', hrest⟩

end Replayed

variable {xs : List (EntryIndex EntryIndexMetadata)} {v' : LogView}

section

variable {p : Player} {dir : Directory} {pre : List Segment} {current : Segment} {v : LogView}
  (h : Playable codecs p dir pre current tail v)
include h

theorem Playable.replayOnce_index {e : WalError}
    (hindex : LogView.indexSegments codecs p.startSnapshotIndex .empty [] (pre ++ [current]) =
      some (v', xs))
    (htail : decode p.memPool tail = .error e) :
    (p.replayOnce codecs dir (.newReplayResult (.indexedEntryStore []))).1.entryCollection =
      .indexedEntryStore xs := by
  obtain ⟨u, ys, hu, hu'⟩ := LogView.indexSegments_concat_eq_some hindex
  have hempty : (EntryCollection.indexedEntryStore []).IsEmpty := rfl
  obtain ⟨q, hq, hqshows, hqcollection⟩ := replayFiles_index [current.desc] (shows_empty hempty) rfl
    (fun s hs => h.sound s (mem_append_left _ hs)) h.lookup_pre hu
  have hcurrent := parse_index hqshows hqcollection (h.sound current (by simp)) hu' htail
  rcases hparse : q.parse codecs p.memPool p.startSnapshotIndex current.desc
    (encodeRecords codecs 0 current.records ++ tail) with ⟨q', e'⟩
  rw [hparse] at hcurrent
  rw [Player.replayOnce, h.logFiles_eq, map_append, map_singleton, hq,
    replayFiles_segment [] h.lookup_current hparse]
  cases e' <;> exact hcurrent

theorem Playable.replay_index (hne : ∀ s ∈ pre, s.name ≠ current.name)
    (hindex : LogView.indexSegments codecs p.startSnapshotIndex .empty [] (pre ++ [current]) =
      some (v', xs))
    (hblank : Blank p.memPool tail) :
    (p.replay codecs dir (.newReplayResult (.indexedEntryStore [])) true).2.1.entryCollection =
      .indexedEntryStore xs := by
  have hempty : (EntryCollection.indexedEntryStore []).IsEmpty := rfl
  rcases hblank.stops with heof | hshort
  · obtain ⟨r, hr, -⟩ := h.replayOnce_undecodable hempty heof
    have hcollection := h.replayOnce_index hindex heof
    rw [hr] at hcollection
    rw [Player.replay, hr]
    exact hcollection
  · obtain ⟨r, hr, hoffset, hclear, -⟩ := h.replayOnce hempty (.of_decode hshort)
    have hlast : p.logFiles.getLast? = some current.desc := by
      rw [h.logFiles_eq, map_append, map_singleton]
      simp
    rw [Player.replay, hr, if_neg (by decide)]
    simp only [Player.repairable, and_self, if_true, hlast, ne_eq, not_true_eq_false, if_false,
      hoffset, repairLogFile_repaired h.lookup_current, ReplayResult.reset, hclear]
    exact (h.repaired hne).replayOnce_index hindex (decode_nil _)

end

/-! ## The index of a journal -/

def Record.isEntry : Record → Bool
  | .entry _ _ => true
  | _ => false

theorem LogView.apply_of_not_entry (h : r.isEntry = false) (snapshotIndex : Nat) (v : LogView) :
    ∃ v', v.apply snapshotIndex r = some v' := by
  cases r with
  | entry type data => cases h
  | _ => exact ⟨_, rfl⟩

theorem LogView.indexStep_of_not_entry {snapshotIndex : Nat} (h : r.isEntry = false)
    (before : List Record) (v : LogView) (xs : List (EntryIndex EntryIndexMetadata)) :
    v.indexStep codecs snapshotIndex id before xs r = some xs := by
  cases r with
  | entry type data => cases h
  | _ => rfl

theorem LogView.indexAll_of_not_entry (codecs : RaftCodecs) (snapshotIndex id : Nat)
    (h : ∀ r ∈ rs, r.isEntry = false) (before : List Record) (v : LogView)
    (xs : List (EntryIndex EntryIndexMetadata)) :
    ∃ v', indexAll codecs snapshotIndex id before v xs rs = some (v', xs) := by
  induction rs generalizing before v with
  | nil => exact ⟨v, rfl⟩
  | cons r rs ih =>
    obtain ⟨u, hu⟩ := v.apply_of_not_entry (h r (by simp)) snapshotIndex
    obtain ⟨v', hv'⟩ := ih (fun r' hr' => h r' (by simp [hr'])) (before ++ [r]) u
    refine ⟨v', ?_⟩
    rw [indexAll, hu, Option.bind_eq_bind, Option.bind_some,
      indexStep_of_not_entry (h r (by simp)), Option.bind_eq_bind, Option.bind_some, hv']

variable {entries : List Entry} {first : Nat} {x : EntryIndex EntryIndexMetadata} {e : Entry}

namespace Journal

variable {J J' : Journal} {log : List Entry}

/-- The record of `e` stands where `x` says. -/
def Places (codecs : RaftCodecs) (J : Journal) (x : EntryIndex EntryIndexMetadata) (e : Entry) :
    Prop :=
  ∃ s ∈ J.segments, ∃ before after, s.records = before ++ .entry e.type e.data :: after ∧
    x = indexAt codecs s.id before e

/-- The files have the index `xs`, and its entries are those of the log. -/
structure Indexed (codecs : RaftCodecs) (J : Journal) (log : List Entry)
    (xs : List (EntryIndex EntryIndexMetadata)) : Prop where
  read : ∃ v, LogView.indexSegments codecs 0 .empty [] J.segments = some (v, xs)
  places : List.Forall₂ (J.Places codecs) xs log

theorem Places.of_grows (h : J.Places codecs x e) (hgrows : Grows codecs J J') :
    J'.Places codecs x e := by
  obtain ⟨s, hs, before, after, hrecords, hx⟩ := h
  rcases List.mem_append.mp hs with hs | hs
  · refine ⟨s, mem_append_left _ ?_, before, after, hrecords, hx⟩
    rw [hgrows.closed_eq]
    exact hs
  · rw [mem_singleton.mp hs] at hrecords hx
    obtain ⟨rs, hrs⟩ := hgrows.records_eq
    refine ⟨J'.current, by simp [segments], before, after ++ rs, ?_, ?_⟩
    · rw [hrs, hrecords, append_assoc, cons_append]
    · rw [hx, hgrows.id_eq]

theorem Places.rotate (h : J.Places codecs x e) (chunkSize : Nat) :
    (J.rotate codecs chunkSize).Places codecs x e := by
  obtain ⟨s, hs, hrest⟩ := h
  exact ⟨s, mem_append_left _ hs, hrest⟩

theorem Indexed.map_index (h : J.Indexed codecs log xs) :
    log.map Entry.index = xs.map EntryIndex.index := by
  have hplaces := h.places
  clear h
  induction hplaces with
  | nil => rfl
  | cons hplace _ ih =>
    obtain ⟨s, -, before, after, -, rfl⟩ := hplace
    rw [map_cons, map_cons, ih]
    rfl

theorem Indexed.consecutive (h : J.Indexed codecs log xs)
    (hxs : Consecutive EntryIndex.index first xs) : Consecutive Entry.index first log := by
  rw [Consecutive, h.map_index, ← h.places.length_eq]
  exact hxs

theorem indexSegments_append_record {v : LogView} (r : Record) (state : WalState)
    (h : LogView.indexSegments codecs 0 .empty [] J.segments = some (v, xs)) :
    LogView.indexSegments codecs 0 .empty [] ((J.append codecs r).setState state).segments =
      (v.apply 0 r).bind fun v' =>
        (v.indexStep codecs 0 J.current.id J.current.records xs r).map fun xs' => (v', xs') := by
  obtain ⟨u, ys, hu, hcurrent⟩ := LogView.indexSegments_concat_eq_some h
  have hsegments : ((J.append codecs r).setState state).segments =
      J.closed ++ [⟨J.current.id, J.current.startLogIndex, J.current.records ++ [r]⟩] := rfl
  rw [hsegments, LogView.indexSegments_concat hu, LogView.indexAll_append, hcurrent,
    Option.bind_some, nil_append]
  simp only [LogView.indexAll, Option.bind_eq_bind]
  cases v.apply 0 r with
  | none => rfl
  | some v' => cases v.indexStep codecs 0 J.current.id J.current.records xs r <;> rfl

section

variable (h : J.Indexed codecs log xs)
include h

theorem Indexed.append_other (hr : r.isEntry = false) (state : WalState)
    (hstate : state.metadata = J.state.metadata) :
    ((J.append codecs r).setState state).Indexed codecs log xs := by
  obtain ⟨v, hv⟩ := h.read
  obtain ⟨v', hv'⟩ := v.apply_of_not_entry hr 0
  refine ⟨⟨v', ?_⟩, h.places.imp fun x e hx => hx.of_grows (.append r state hstate)⟩
  rw [indexSegments_append_record r state hv, hv', Option.bind_some,
    LogView.indexStep_of_not_entry hr]
  rfl

theorem Indexed.saveNextEntry (e : Entry) : (J.saveNextEntry codecs e).Indexed codecs log xs := by
  rw [Journal.saveNextEntry]
  split
  · exact h.append_other rfl _ rfl
  · exact h

theorem Indexed.saveHardState (st : HardState) :
    (J.saveHardState codecs st).Indexed codecs log xs := by
  rw [Journal.saveHardState]
  split
  · exact h
  · exact h.append_other rfl _ rfl

theorem Indexed.saveSnapshot (snapshot : Snapshot) :
    (J.saveSnapshot codecs snapshot).Indexed codecs log xs :=
  h.append_other rfl _ rfl

end

theorem rotateRecords_isEntry (codecs : RaftCodecs) (J : Journal) :
    ∀ r ∈ J.rotateRecords codecs, r.isEntry = false := by
  rw [rotateRecords]
  split <;> simp [Record.isEntry]

theorem Indexed.rotate (h : J.Indexed codecs log xs) (chunkSize : Nat) :
    (J.rotate codecs chunkSize).Indexed codecs log xs := by
  obtain ⟨v, hv⟩ := h.read
  obtain ⟨v', hv'⟩ := LogView.indexAll_of_not_entry codecs 0 (J.current.id + 1)
    (rotateRecords_isEntry codecs J) [] v.startFile xs
  refine ⟨⟨v', ?_⟩, h.places.imp fun x e hx => hx.rotate chunkSize⟩
  exact (LogView.indexSegments_concat hv).trans hv'

def nextIndexAt (codecs : RaftCodecs) (J : Journal) (e : Entry) : EntryIndex EntryIndexMetadata :=
  indexAt codecs (J.saveNextEntry codecs e).current.id (J.saveNextEntry codecs e).current.records e

theorem Indexed.saveOne (h : J.Indexed codecs log xs) (hreads : ReadsFrom 0 J.closed J log)
    (hpos : 0 < e.index) (hle : e.index ≤ log.length + 1) :
    (J.saveOne codecs e).Indexed codecs (truncAppend Entry.index 0 log [e])
      (truncAppend EntryIndex.index 0 xs [J.nextIndexAt codecs e]) := by
  have hgrows : Grows codecs J (J.saveNextEntry codecs e) := .saveNextEntry e
  have h₁ := h.saveNextEntry e
  obtain ⟨v, hv⟩ := h₁.read
  -- the reader that collects the index sees what the reader of the entries sees
  obtain ⟨v₁, entries, hv₁, -, -, hnextEntry, happly, -⟩ := hreads.apply_entry codecs hpos hle
  have hview := LogView.applySegments_of_indexSegments hv
  rw [segments, hgrows.closed_eq, hv₁, Option.some.injEq] at hview
  subst hview
  have hlength : xs.length = log.length := h.places.length_eq
  have hstep : v₁.indexStep codecs 0 (J.saveNextEntry codecs e).current.id
      (J.saveNextEntry codecs e).current.records xs (.entry e.type e.data) =
      some (xs.take (e.index - 0 - 1) ++ [J.nextIndexAt codecs e]) := by
    rw [LogView.indexStep, LogView.nextOf, hnextEntry, decodeInto, if_pos hpos]
    dsimp only
    rw [if_neg (by omega)]
    rfl
  refine ⟨⟨_, (indexSegments_append_record _ _ hv).trans (by
    rw [happly, Option.bind_some, hstep]
    rfl)⟩, ?_⟩
  have hplaces := h.places.imp fun x e' hx => hx.of_grows (.saveOne e)
  refine rel_append (List.forall₂_take _ hplaces) (.cons ?_ .nil)
  refine ⟨(J.saveOne codecs e).current, by simp [segments],
    (J.saveNextEntry codecs e).current.records, [], ?_, rfl⟩
  rfl

def batchIndex (codecs : RaftCodecs) : Journal → List Entry → List (EntryIndex EntryIndexMetadata)
  | _, [] => []
  | J, e :: entries => J.nextIndexAt codecs e :: batchIndex codecs (J.saveOne codecs e) entries

theorem batchIndex_consecutive (h : Consecutive Entry.index first entries) :
    Consecutive EntryIndex.index first (J.batchIndex codecs entries) := by
  induction entries generalizing J first with
  | nil => exact consecutive_nil
  | cons e entries ih =>
    obtain ⟨he, hentries⟩ := consecutive_cons.mp h
    exact consecutive_cons.mpr ⟨he, ih hentries⟩

theorem Indexed.saveEntries (h : J.Indexed codecs log xs) (hreads : ReadsFrom 0 J.closed J log)
    (hvalid : ValidBatch log.length entries) :
    (J.saveEntries codecs entries).Indexed codecs (truncAppend Entry.index 0 log entries)
      (truncAppend EntryIndex.index 0 xs (J.batchIndex codecs entries)) := by
  obtain ⟨first, hconsecutive, hpos, hfirst⟩ := hvalid.consecutive
  have hindex := hvalid.index_lt
  rw [← foldl_truncAppend_singleton hconsecutive hpos log (by omega),
    ← foldl_truncAppend_singleton (batchIndex_consecutive hconsecutive) hpos xs
      (by rw [h.places.length_eq]; omega)]
  clear hvalid
  induction entries generalizing J log xs first with
  | nil => exact h
  | cons e rest ih =>
    obtain ⟨he, hrest⟩ := consecutive_cons.mp hconsecutive
    have hlt := hindex e (by simp)
    have hread := hreads.saveOne codecs hlt (by omega) (by omega)
    have hgrows : Grows codecs J (J.saveOne codecs e) := .saveOne e
    rw [← hgrows.closed_eq] at hread
    refine ih (h.saveOne hreads (by omega) (by omega)) hread (first + 1) hrest (by omega) ?_
      (fun e' he' => hindex e' (by simp [he']))
    show first + 1 ≤ (log.take (e.index - 0 - 1) ++ [e]).length + 1
    rw [length_append, length_take, length_singleton]
    omega

end Journal

/-! ## The index that is kept -/

section Live

variable {cfg : ManagerConfig} {pool : ByteSlicePool} {w w' : Wal} {dir dir' : Directory}
  {J : Journal} {metadata : Bytes} {S : LogState}

section

variable (h : Represents codecs cfg pool w dir J)
include h

theorem Represents.entryIndexFor_eq (e : Entry) :
    w.entryIndexFor e = .ok (indexAt codecs J.current.id J.current.records e) := by
  rw [Wal.entryIndexFor, h.tailLogFileDesc, ok_bind, LogFile.offset, h.holds.offset_eq]
  rfl

theorem Represents.saveOne_index (hsome : w.entryIndexStorage.isSome)
    (hsave : w.saveOne codecs dir e = .ok (w', dir', xs)) :
    xs = [J.nextIndexAt codecs e] ∧ w'.entryIndexStorage = w.entryIndexStorage := by
  obtain ⟨⟨w₁, dir₁⟩, hnext, hsave⟩ := bind_eq_ok.mp hsave
  obtain ⟨idx, hidx, hsave⟩ := bind_eq_ok.mp hsave
  obtain ⟨⟨l, d⟩, -, hpure⟩ := bind_eq_ok.mp hsave
  cases hpure
  have hkeep := Wal.saveNextEntry_storage hnext
  rw [hkeep, if_pos hsome, (h.saveNextEntry hnext).entryIndexFor_eq] at hidx
  cases hidx
  exact ⟨rfl, hkeep⟩

theorem Represents.saveEntries_index (hsome : w.entryIndexStorage.isSome)
    (hsave : w.saveEntries codecs dir entries = .ok (w', dir', xs)) :
    xs = J.batchIndex codecs entries ∧ w'.entryIndexStorage = w.entryIndexStorage := by
  induction entries generalizing w dir J xs with
  | nil =>
    cases hsave
    exact ⟨rfl, rfl⟩
  | cons e entries ih =>
    obtain ⟨⟨w₁, dir₁, x⟩, hone, hsave⟩ := bind_eq_ok.mp hsave
    obtain ⟨⟨w₂, dir₂, xs'⟩, hrest, hpure⟩ := bind_eq_ok.mp hsave
    cases hpure
    obtain ⟨rfl, hkeep⟩ := h.saveOne_index hsome hone
    obtain ⟨rfl, hkeep'⟩ := ih (h.saveOne hone) (by rwa [hkeep]) hrest
    exact ⟨rfl, hkeep'.trans hkeep⟩

end

/-- The storage has the part of the index `xs` behind its dummy, or at least the front of it. -/
structure Live (exact : Bool) (es : EntryStorage EntryIndexMetadata)
    (xs : List (EntryIndex EntryIndexMetadata)) : Prop where
  consecutive : Consecutive EntryIndex.index 1 xs
  dummy_le : es.dummy.index ≤ xs.length
  front : es.ents <+: xs.drop es.dummy.index
  exact_eq : exact = true → es.ents = xs.drop es.dummy.index

section Storage

variable {exact : Bool} {es es' : EntryStorage EntryIndexMetadata}
  {batch : List (EntryIndex EntryIndexMetadata)}

section

variable (h : Live exact es xs)
include h

theorem Live.append (hne : batch ≠ []) (hbatch : Consecutive EntryIndex.index first batch)
    (hlo : es.dummy.index < first) (happend : es.appendEntryIndex batch = .ok es') :
    Live exact es' (truncAppend EntryIndex.index 0 xs batch) := by
  rw [EntryStorage.appendEntryIndex_above hne hbatch hlo] at happend
  by_cases hgap : first ≤ es.lastIndex + 1
  · rw [if_pos hgap] at happend
    cases happend
    obtain ⟨behind, hbehind⟩ := h.front
    have hlen := congrArg List.length hbehind
    rw [length_append, length_drop] at hlen
    rw [EntryStorage.lastIndex] at hgap
    have hdummy := h.dummy_le
    have hents : truncAppend EntryIndex.index es.dummy.index es.ents batch =
        (truncAppend EntryIndex.index 0 xs batch).drop es.dummy.index := by
      rw [truncAppend_drop hbatch (by omega) (by omega), Nat.zero_add, ← hbehind,
        truncAppend_of_consecutive hne hbatch, truncAppend_of_consecutive hne hbatch,
        take_append_of_le_length (by omega)]
    refine ⟨truncAppend_consecutive h.consecutive hbatch (by omega) (by omega), ?_, ?_,
      fun _ => hents⟩
    · have hlength := truncAppend_length hne hbatch (by omega : 0 < first)
        (by omega : first ≤ 0 + xs.length + 1)
      dsimp only
      omega
    · rw [hents]
  · rw [if_neg hgap] at happend
    cases happend

theorem Live.save {st : HardState} (hbatch : Consecutive EntryIndex.index first batch)
    (hlo : entries ≠ [] → es.dummy.index < first) (hnil : batch = [] ↔ entries = [])
    (hsave : es.save st entries batch = .ok es') :
    Live exact es' (truncAppend EntryIndex.index 0 xs batch) := by
  obtain ⟨es₁, happend, hdummy, hents⟩ := EntryStorage.save_append hsave
  have h₁ : Live exact es₁ (truncAppend EntryIndex.index 0 xs batch) := by
    by_cases hentries : entries = []
    · rw [if_pos hentries] at happend
      cases happend
      rw [hnil.mpr hentries]
      exact h
    · rw [if_neg hentries] at happend
      exact h.append (mt hnil.mp hentries) hbatch (hlo hentries) happend
  obtain ⟨hxs, hle, hfront, hexact⟩ := h₁
  rw [← hdummy] at hle hfront hexact
  rw [← hents] at hfront hexact
  exact ⟨hxs, hle, hfront, hexact⟩

theorem Live.compact {i : Nat} (hcompact : es.compact i = .ok es') : Live exact es' xs := by
  unfold EntryStorage.compact at hcompact
  split at hcompact
  · cases hcompact
  · cases hget : es.ents[i - es.dummy.index - 1]? with
    | none =>
      rw [hget] at hcompact
      cases hcompact
    | some x =>
      rw [hget] at hcompact
      cases hcompact
      obtain ⟨hlt, hx⟩ := List.getElem?_eq_some_iff.mp hget
      obtain ⟨behind, hbehind⟩ := h.front
      have hindex : x.index = i := by
        have hdrop := h.consecutive.drop es.dummy.index
        rw [← hbehind, consecutive_append] at hdrop
        have := hdrop.1.getElem hlt
        rw [get_eq_getElem, hx] at this
        omega
      have hlen := congrArg List.length hbehind
      rw [length_append, length_drop] at hlen
      have hdrop : xs.drop i = (xs.drop es.dummy.index).drop (i - es.dummy.index) := by
        rw [drop_drop]
        congr 1
        omega
      refine ⟨h.consecutive, ?_, ?_, fun hexact => ?_⟩
      · dsimp only [EntryStorage.marker]
        omega
      · dsimp only [EntryStorage.marker]
        rw [hindex, hdrop]
        exact h.front.drop _
      · dsimp only [EntryStorage.marker]
        rw [hindex, hdrop, h.exact_eq hexact]

theorem Live.applySnapshot {snap : Snapshot} (hle : snap.metadata.index ≤ xs.length)
    (happly : es.applySnapshot snap = .ok es') : Live false es' xs := by
  unfold EntryStorage.applySnapshot at happly
  split at happly
  · cases happly
  · cases happly
    exact ⟨h.consecutive, hle, List.nil_prefix, fun h => by cases h⟩

end

end Storage

structure Wal.KeepsIndex (codecs : RaftCodecs) (exact : Bool) (w : Wal) (J : Journal)
    (log : List Entry) (xs : List (EntryIndex EntryIndexMetadata)) : Prop where
  live : ∃ es, w.entryIndexStorage = some es ∧ Live exact es xs
  indexed : J.Indexed codecs log xs

section Steps

variable {exact : Bool} {log : List Entry}

theorem batchIndex_eq_nil : J.batchIndex codecs entries = [] ↔ entries = [] := by
  cases entries with
  | nil | cons e entries => simp [Journal.batchIndex]

theorem Journal.Indexed.save (h : J.Indexed codecs log xs) (hreads : ReadsFrom 0 J.closed J log)
    (hvalid : ValidBatch log.length entries) (chunkSize : Nat) (st : HardState) :
    (J.save codecs chunkSize st entries).Indexed codecs (truncAppend Entry.index 0 log entries)
      (truncAppend EntryIndex.index 0 xs (J.batchIndex codecs entries)) := by
  have h₁ := (h.saveEntries hreads hvalid).saveHardState st
  rw [Journal.save]
  split
  · exact h₁.rotate chunkSize
  · exact h₁

theorem Wal.KeepsIndex.save {st : HardState} (h : w.KeepsIndex codecs exact J S.entries xs)
    (hrep : Represents codecs cfg pool w dir J) (hstores : J.Stores metadata S)
    (hvalid : ValidBatch S.entries.length entries)
    (habove : ∀ es ∈ w.entryIndexStorage, ∀ e ∈ entries, es.dummy.index < e.index)
    (hsave : w.save codecs dir st entries = .ok (w', dir')) :
    ∃ xs', w'.KeepsIndex codecs exact (J.save codecs cfg.logFileChunkSize st entries)
      (S.save st entries).entries xs' := by
  obtain ⟨es, hes, hlive⟩ := h.live
  obtain ⟨w₀, dir₀, index, es', hindex, hstorage, hes'⟩ := Wal.save_storage_index hsave hes
  obtain ⟨rfl, -⟩ := hrep.saveEntries_index (by rw [hes]; rfl) hindex
  obtain ⟨first, hconsecutive, -, -⟩ := hvalid.consecutive
  refine ⟨_, ⟨es', hes', hlive.save (J.batchIndex_consecutive hconsecutive) ?_ batchIndex_eq_nil
    hstorage⟩, h.indexed.save hstores.reads hvalid _ st⟩
  intro hne
  cases entries with
  | nil => exact absurd rfl hne
  | cons e entries =>
    rw [← (consecutive_cons.mp hconsecutive).1]
    exact habove es hes e (by simp)

theorem Wal.KeepsIndex.saveSnapshot {snapshot : Snapshot} (h : w.KeepsIndex codecs exact J log xs)
    (hsave : w.saveSnapshot codecs dir snapshot = .ok (w', dir')) :
    w'.KeepsIndex codecs exact (J.saveSnapshot codecs snapshot) log xs := by
  obtain ⟨es, hes, hlive⟩ := h.live
  exact ⟨⟨es, (Wal.saveSnapshot_storage hsave).trans hes, hlive⟩, h.indexed.saveSnapshot snapshot⟩

end Steps

end Live

end Babuza.Babuzawal
