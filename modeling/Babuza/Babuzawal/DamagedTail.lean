import Babuza.Babuzawal.Restart
import Babuza.Babuzawal.TornTail

/-!
# Logs with a damaged end

The last file of a log ends with bytes in which the parser finds no record (`TailStops`). `Replay`
with repair reads such a log exactly if its records can be read and the error at the end is one that
is repaired (`replay_ok_iff`). `FindSnapshot` reads it without repair and returns an error for a
wrong checksum (`findSnapshotInternal_eq`). From a snapshot the records can be read exactly if the
entries above it come without a gap (`applySegments_isSome_iff`).
-/

namespace Babuza.Babuzawal

open Lib Allocator Walbase List

variable {codecs : RaftCodecs} {pool : ByteSlicePool} {snapshotIndex : Nat}

/-- Behind the last record, where the running checksum is `crc`, the parser stops with the error. -/
inductive TailStops (pool : ByteSlicePool) (crc : UInt32) (tail : Bytes) : WalError → Prop
  | undecodable {e : WalError} (h : decode pool tail = .error e) : TailStops pool crc tail e
  | mismatch {d : Decoded} (hdecode : decode pool tail = .ok d)
      (htype : d.logType ≠ LogType.crc.code) (hcrc : crc32Update crc d.logBuf ≠ d.logCrc) :
      TailStops pool crc tail .crcMismatchForOthersMessage

variable {crc : UInt32}

variable {tail : Bytes} {e : WalError}

theorem TailStops.stopsAt (h : TailStops pool crc tail e) :
    StopsAt codecs pool snapshotIndex crc tail e := by
  cases h with
  | undecodable h => exact .of_decode h
  | mismatch hdecode htype hcrc => exact .of_mismatch hdecode htype hcrc

theorem decode_error {stream : Bytes} (h : decode pool stream = .error e) :
    e = .eof ∨ e = .unexpectedEOF ∨ e = .panic := by
  unfold decode at h
  dsimp only at h
  split at h
  · rename_i err _
    cases h
    cases err <;> simp [WalError.ofRead]
  · split at h
    · cases h
      exact .inl rfl
    · split at h
      · cases h
      · split at h
        · cases h
          exact .inr (.inr rfl)
        · split at h
          · cases h
            exact .inr (.inl rfl)
          · cases h

/-! ## Records that cannot be read -/

/-- The errors of the parser at an entry that has no place in the log. -/
def Misplaced (e : WalError) : Prop := e = .entryOutOfRange ∨ e = .notFoundNextEntry

variable {current : Segment} {rs : List Record} {dir : Directory} {c c' : EntryCollection}
  {pre : List Segment}

section Fails

variable {p : Parser} {v v' : LogView} {r : Record}

theorem decodeInto_eq_none {α : Type} {index : Nat} {x : α} {xs : List α} :
    decodeInto snapshotIndex index x xs = none ↔
      snapshotIndex < index ∧ xs.length < index - snapshotIndex - 1 := by
  unfold decodeInto
  split
  · dsimp only
    split <;> simp_all
  · simp_all

theorem LogView.apply_eq_none (h : v.apply snapshotIndex r = none) :
    ∃ type data, r = .entry type data ∧ (v.found = false ∨
      decodeInto snapshotIndex v.nextEntry.nextIndex (v.nextOf type data) v.entries = none) := by
  cases r with
  | entry type data =>
    refine ⟨type, data, rfl, ?_⟩
    rw [apply] at h
    split at h
    · exact .inr (Option.map_eq_none_iff.mp h)
    · exact .inl (by simpa using ‹¬ v.found = true›)
  | crc | metadata | hardState | snapshot | nextEntry => cases h

theorem isNop_eq_of_clear (h : c.clearEntries = c'.clearEntries) (hnop : c'.isNop = false) :
    c.isNop = false := by
  cases c with
  | entryStore | indexedEntryStore => rfl
  | nopEntryStore =>
    cases c' with
    | entryStore | indexedEntryStore => cases h
    | nopEntryStore => cases hnop

section

variable (hshows : p.Shows v) (hnop : p.result.entryCollection.isNop = false)
include hshows hnop

theorem handleEntry_fails {type : EntryType} {d : Decoded}
    (hfails : v.found = false ∨ decodeInto snapshotIndex v.nextEntry.nextIndex
      (v.nextOf type d.logBuf) v.entries = none) :
    ∃ e, p.handleEntry snapshotIndex type d = .error e ∧ Misplaced e := by
  unfold Parser.handleEntry
  rw [hnop, hshows.found]
  cases hfound : v.found with
  | false => exact ⟨.notFoundNextEntry, rfl, .inr rfl⟩
  | true =>
    have hnone := decodeInto_eq_none.mp (hfails.resolve_left (by rw [hfound]; decide))
    have hnext := hshows.nextEntry hnop
    have hentries := hshows.entries
    refine ⟨.entryOutOfRange, ?_, .inl rfl⟩
    cases hc : p.result.entryCollection with
    | nopEntryStore =>
      rw [hc] at hnop
      cases hnop
    | entryStore es =>
      rw [hc] at hentries
      obtain rfl : es = v.entries := hentries
      simp only [Bool.false_eq_true, if_false, if_true, ReplayResult.decodeEntry, hc, hnext,
        decodeInto_eq_none.mpr hnone]
      rfl
    | indexedEntryStore xs =>
      rw [hc] at hentries
      have hlen : xs.length = v.entries.length := by simpa using congrArg List.length hentries
      rw [← hlen] at hnone
      simp only [Bool.false_eq_true, if_false, if_true, ReplayResult.decodeEntry, hc, hnext,
        decodeInto_eq_none.mpr hnone]
      rfl

theorem logHandler_fails (codecs : RaftCodecs) (hcrc : p.result.lastValidLogCrc = crc)
    (hfails : v.apply snapshotIndex r = none) :
    ∃ q e, p.logHandler codecs snapshotIndex (r.decoded codecs crc []) = (q, some e) ∧
      Misplaced e := by
  obtain ⟨type, data, rfl, hmisplaced⟩ := LogView.apply_eq_none hfails
  let d : Decoded := (Record.entry type data).decoded codecs crc []
  have hsame : p.setCrc (crc32Update p.result.lastValidLogCrc d.logBuf) =
      p.setCrc (crc32Update crc data) := by rw [hcrc]; rfl
  obtain ⟨e, he, hmisplaced⟩ := handleEntry_fails (p := p.setCrc (crc32Update crc data)) (d := d)
    hshows.setCrc hnop hmisplaced
  have hbody : (p.setCrc (crc32Update crc data)).handleBody codecs snapshotIndex d = .error e := by
    rw [← he]
    cases type <;> rfl
  have hcode : d.logType ≠ LogType.crc.code := by cases type <;> exact nofun
  refine ⟨p.setCrc (crc32Update crc data), e, ?_, hmisplaced⟩
  show p.logHandler codecs snapshotIndex d = _
  simp only [Parser.logHandler, if_neg hcode, hsame, hbody]
  exact if_neg (fun hne => hne rfl)

theorem feed_fails (codecs : RaftCodecs) (hcrc : p.result.lastValidLogCrc = crc)
    (hread : ∀ r ∈ rs, r.Readable) (hfails : v.applyAll snapshotIndex rs = none) :
    ∃ q e, p.feed codecs snapshotIndex crc rs = (q, some e) ∧ Misplaced e := by
  induction rs generalizing p v crc with
  | nil => cases hfails
  | cons r rs ih =>
    rw [LogView.applyAll_cons] at hfails
    cases hr : v.apply snapshotIndex r with
    | none =>
      obtain ⟨q, e, hq, hmisplaced⟩ := logHandler_fails hshows hnop codecs hcrc hr
      exact ⟨q, e, by simp only [Parser.feed, hq], hmisplaced⟩
    | some u =>
      rw [hr, Option.bind_some] at hfails
      obtain ⟨q, hq, hqshows, hadvance⟩ := Parser.logHandler_shows
        (d := r.decoded codecs crc []) hshows hcrc (hread r (by simp)) hr rfl rfl rfl
      simp only [Parser.feed, hq]
      exact ih hqshows (isNop_eq_of_clear hadvance.clear_eq hnop) hadvance.crc_eq
        (fun r' hr' => hread r' (by simp [hr'])) hfails

theorem parse_segment_fails {s : Segment} (tail : Bytes) (hsound : s.Sound codecs pool)
    (hfails : v.startFile.applyAll snapshotIndex s.records = none) :
    ∃ q e, p.parse codecs pool snapshotIndex s.desc (encodeRecords codecs 0 s.records ++ tail) =
      (q, e) ∧ Misplaced e := by
  obtain ⟨q, e, hq, hmisplaced⟩ := feed_fails (hshows.start s.desc) hnop codecs
    (show _ = p.result.lastValidLogCrc from rfl) hsound.readable hfails
  exact ⟨q, e, by rw [parse_records hsound, hq], hmisplaced⟩

theorem replayFiles_fails
    (hsound : ∀ s ∈ pre ++ [current], s.Sound codecs pool)
    (hlookup : ∀ s ∈ pre, dir.lookup s.name = some (contents codecs s.records))
    (hcurrent : dir.lookup current.name = some (contents codecs current.records ++ tail))
    (hfails : v.applySegments snapshotIndex (pre ++ [current]) = none) :
    ∃ q desc e, Player.replayFiles codecs pool snapshotIndex dir p
      ((pre ++ [current]).map Segment.desc) = (q, some (desc, e)) ∧ Misplaced e := by
  -- a file that cannot be read is the last one that is tried
  have hstop : ∀ {p : Parser} {s : Segment} {tail : Bytes} {q : Parser} {e : WalError}
      (files : List LogFileDesc),
      dir.lookup s.name = some (contents codecs s.records ++ tail) → Misplaced e →
      p.parse codecs pool snapshotIndex s.desc (encodeRecords codecs 0 s.records ++ tail) = (q, e) →
      Player.replayFiles codecs pool snapshotIndex dir p (s.desc :: files) =
        (q, some (s.desc, e)) := by
    intro p s tail q e files hfile hmisplaced hparse
    rw [replayFiles_segment files hfile hparse]
    rcases hmisplaced with rfl | rfl <;> rfl
  induction pre generalizing p v with
  | nil =>
    rw [nil_append, LogView.applySegments] at hfails
    have hrecords : v.startFile.applyAll snapshotIndex current.records = none := by
      simpa [LogView.applySegments] using hfails
    obtain ⟨q, e, hparse, hmisplaced⟩ := parse_segment_fails hshows hnop tail
      (hsound current (by simp)) hrecords
    exact ⟨q, current.desc, e, hstop [] hcurrent hmisplaced hparse, hmisplaced⟩
  | cons s pre ih =>
    rw [cons_append, LogView.applySegments] at hfails
    have hs : dir.lookup s.name = some (contents codecs s.records ++ []) := by
      simpa using hlookup s (by simp)
    cases h : v.startFile.applyAll snapshotIndex s.records with
    | none =>
      obtain ⟨q, e, hparse, hmisplaced⟩ := parse_segment_fails hshows hnop [] (hsound s (by simp)) h
      exact ⟨q, s.desc, e, hstop _ hs hmisplaced hparse, hmisplaced⟩
    | some u =>
      rw [h, Option.bind_some] at hfails
      obtain ⟨q, hq, hend⟩ := parse_segment_error hshows (hsound s (by simp)) h
        (decode_nil pool)
      obtain ⟨q', desc, e, hq', hmisplaced⟩ := ih hend.shows_view
        (isNop_eq_of_clear hend.clear_eq hnop) (fun t ht => hsound t (by simp [ht]))
        (fun t ht => hlookup t (by simp [ht])) hfails
      refine ⟨q', desc, e, ?_, hmisplaced⟩
      rw [cons_append, map_cons, replayFiles_segment _ hs hq, if_pos rfl, hq']

end

end Fails

/-! ## Replay with repair -/

/-- The files of a player: sound segments, the last of them with `tail` behind it. -/
structure Listed (codecs : RaftCodecs) (p : Player) (dir : Directory) (pre : List Segment)
    (current : Segment) (tail : Bytes) : Prop where
  logFiles_eq : p.logFiles = (pre ++ [current]).map Segment.desc
  lookup_pre : ∀ s ∈ pre, dir.lookup s.name = some (contents codecs s.records)
  lookup_current : dir.lookup current.name = some (contents codecs current.records ++ tail)
  sound : ∀ s ∈ pre ++ [current], s.Sound codecs p.memPool
  name_ne : ∀ s ∈ pre, s.name ≠ current.name

section Replay

variable {p : Player} {v : LogView}

/-- What is left of the directory by `Replay` with repair. -/
def afterReplay (codecs : RaftCodecs) (dir : Directory) (current : Segment) (tail : Bytes)
    (e : WalError) : Directory :=
  if e = .eof then dir else repaired codecs dir current tail

theorem Misplaced.not_repairable (h : Misplaced e) : Player.repairable e = false := by
  rcases h with rfl | rfl <;> rfl

section

variable (h : Listed codecs p dir pre current tail)
include h

theorem Listed.playable
    (hview : LogView.empty.applySegments p.startSnapshotIndex (pre ++ [current]) = some v) :
    Playable codecs p dir pre current tail v :=
  { h with view := hview }

theorem Listed.replay_misplaced (hc : c.IsEmpty) (hnop : c.isNop = false)
    (hview : LogView.empty.applySegments p.startSnapshotIndex (pre ++ [current]) = none)
    (repair : Bool) :
    ∃ r e', p.replay codecs dir (.newReplayResult c) repair = (dir, r, some e') ∧ Misplaced e' := by
  obtain ⟨q, desc, e', hfiles, hmisplaced⟩ := replayFiles_fails (shows_empty hc) hnop h.sound
    h.lookup_pre h.lookup_current hview
  rw [← h.logFiles_eq] at hfiles
  refine ⟨q.result, e', ?_, hmisplaced⟩
  simp only [Player.replay, Player.replayOnce, hfiles, hmisplaced.not_repairable,
    Bool.false_eq_true, and_false, if_false]

variable (htail : TailStops p.memPool (crcAfter codecs 0 current.records) tail e)
include htail

theorem Listed.replay_ok (hc : c.IsEmpty)
    (he : e = .eof ∨ Player.repairable e = true)
    (hview : LogView.empty.applySegments p.startSnapshotIndex (pre ++ [current]) = some v) :
    ∃ r, p.replay codecs dir (.newReplayResult c) true =
        (afterReplay codecs dir current tail e, r, none) ∧ Recovered codecs current v c r := by
  rw [afterReplay]
  split
  · next heof =>
    subst heof
    exact (h.playable hview).replay_eof hc htail.stopsAt true
  · next heof =>
    exact (h.playable hview).replay_repair hc h.name_ne htail.stopsAt (he.resolve_left heof)

/-- The directory after a replay: the last file may have been repaired. The error is that of a
record that cannot be read, or the one at the end, unless this is repaired. -/
theorem Listed.replay_cases (hc : c.IsEmpty)
    (hnop : c.isNop = true → LogView.empty.applySegments p.startSnapshotIndex (pre ++ [current]) ≠
      none) (repair : Bool) :
    ∃ dir' r err, p.replay codecs dir (.newReplayResult c) repair = (dir', r, err) ∧
      (dir' = dir ∨ dir' = repaired codecs dir current tail) ∧
      (err ≠ none ↔ LogView.empty.applySegments p.startSnapshotIndex (pre ++ [current]) = none ∨
        ¬ (e = .eof ∨ repair = true ∧ Player.repairable e = true)) := by
  cases hview : LogView.empty.applySegments p.startSnapshotIndex (pre ++ [current]) with
  | none =>
    have hnop : c.isNop = false := Bool.eq_false_iff.mpr fun htrue => hnop htrue hview
    obtain ⟨r, e', hfails, -⟩ := h.replay_misplaced hc hnop hview repair
    exact ⟨dir, r, some e', hfails, .inl rfl, iff_of_true nofun (.inl rfl)⟩
  | some v =>
    obtain ⟨r, hr, -⟩ := (h.playable hview).replayOnce hc htail.stopsAt
    by_cases heof : e = .eof
    · rw [if_pos heof] at hr
      refine ⟨dir, r, none, ?_, .inl rfl, iff_of_false (fun hne => hne rfl) (by simp [heof])⟩
      rw [Player.replay, hr]
    by_cases hrepair : repair = true ∧ Player.repairable e = true
    · obtain ⟨rfl, hrepairable⟩ := hrepair
      obtain ⟨r', hr', -⟩ := h.replay_ok htail hc (.inr hrepairable) hview
      rw [afterReplay, if_neg heof] at hr'
      exact ⟨_, r', none, hr', .inr rfl, iff_of_false (fun hne => hne rfl) (by simp [hrepairable])⟩
    · rw [if_neg heof] at hr
      refine ⟨dir, r, some e, ?_, .inl rfl,
        iff_of_true nofun (.inr fun hnot => hnot.elim heof hrepair)⟩
      rw [Player.replay, hr]
      exact if_neg hrepair

theorem Listed.replay_ok_iff (hc : c.IsEmpty) (hnop : c.isNop = false) :
    (∃ dir' r, p.replay codecs dir (.newReplayResult c) true = (dir', r, none)) ↔
      (∃ v, LogView.empty.applySegments p.startSnapshotIndex (pre ++ [current]) = some v) ∧
        (e = .eof ∨ Player.repairable e = true) := by
  obtain ⟨dir', r, err, hreplay, -, herror⟩ := h.replay_cases htail hc
    (fun htrue => absurd (htrue.symm.trans hnop) (by decide)) true
  rw [hreplay]
  cases err with
  | none =>
    refine iff_of_true ⟨dir', r, rfl⟩ ?_
    have hnot := mt herror.mpr (fun hne => hne rfl)
    rw [not_or, ← ne_eq, Option.ne_none_iff_exists', not_not] at hnot
    exact ⟨hnot.1, hnot.2.imp_right And.right⟩
  | some e' =>
    refine iff_of_false (by simp) ?_
    rintro ⟨⟨v, hview⟩, he⟩
    rcases herror.mp nofun with hnone | hnot
    · rw [hview] at hnone
      cases hnone
    · exact hnot (he.imp_right fun hrepairable => ⟨rfl, hrepairable⟩)

theorem findSnapshotInternal_eq (hcreate : Player.create dir 0 pool = .ok p)
    (he : e = .eof ∨ Player.repairable e = true)
    (hview : LogView.empty.applySegments p.startSnapshotIndex (pre ++ [current]) = some v) :
    findSnapshotInternal codecs dir pool =
      if e = .crcMismatchForOthersMessage then .error e
      else .ok (v.snapshots.filter fun s => s.index ≤ v.hardState.commit) := by
  have hplay := h.playable hview
  have hnop : EntryCollection.nopEntryStore.IsEmpty := rfl
  simp only [findSnapshotInternal, hcreate, ok_bind]
  cases htail with
  | undecodable hdecode =>
    obtain ⟨r, hr, hrecovered⟩ := hplay.replayOnce_undecodable hnop hdecode
    rw [← hrecovered.snapshots, ← hrecovered.hardState, Player.replay, hr]
    rcases decode_error hdecode with rfl | rfl | rfl
    · rfl
    · rfl
    · rcases he with he | he <;> cases he
  | mismatch hdecode htype hcrc =>
    obtain ⟨r, hr⟩ := hplay.replay_error hnop (.of_mismatch hdecode htype hcrc) (by simp)
    rw [if_pos rfl, hr]
    rfl

end

end Replay

/-! ## Entries without a gap -/

/-- The indices of the entries among the records; `next` is the index that was announced. -/
def entryIndices : (next : Option Nat) → List Record → List Nat
  | _, [] => []
  | _, .nextEntry e :: rs => entryIndices (some e.nextIndex) rs
  | some n, .entry _ _ :: rs => n :: entryIndices (some ((n + 1) % 2 ^ 64)) rs
  | next, _ :: rs => entryIndices next rs

section Indices

variable (next : Option Nat) (rs : List Record)

@[simp] theorem entryIndices_crc (crc : UInt32) :
    entryIndices next (.crc crc :: rs) = entryIndices next rs := by
  cases next <;> rfl

@[simp] theorem entryIndices_metadata (data : Bytes) :
    entryIndices next (.metadata data :: rs) = entryIndices next rs := by
  cases next <;> rfl

@[simp] theorem entryIndices_hardState (st : HardState) :
    entryIndices next (.hardState st :: rs) = entryIndices next rs := by
  cases next <;> rfl

@[simp] theorem entryIndices_snapshot (snap : WalSnapshot) :
    entryIndices next (.snapshot snap :: rs) = entryIndices next rs := by
  cases next <;> rfl

end Indices

def segmentIndices (segs : List Segment) : List Nat :=
  segs.flatMap fun s => entryIndices none s.records

/-- Every entry comes behind a record that announces its index. -/
def Announced : (found : Bool) → List Record → Prop
  | _, [] => True
  | _, .nextEntry _ :: rs => Announced true rs
  | found, .entry _ _ :: rs => found = true ∧ Announced found rs
  | found, _ :: rs => Announced found rs

/-- The indices above the snapshot come without a gap, when `last` is the last one so far: each is
at most one above the one before. -/
def Gapless (snapshotIndex : Nat) : (last : Nat) → List Nat → Prop
  | _, [] => True
  | last, i :: is =>
    (snapshotIndex < i → i ≤ last + 1) ∧
      Gapless snapshotIndex (if snapshotIndex < i then i else last) is

def lastAbove (snapshotIndex last : Nat) (is : List Nat) : Nat :=
  is.foldl (fun last i => if snapshotIndex < i then i else last) last

instance decidableGapless : (last : Nat) → (is : List Nat) →
    Decidable (Gapless snapshotIndex last is)
  | _, [] => .isTrue trivial
  | last, i :: is =>
    have := decidableGapless (if snapshotIndex < i then i else last) is
    inferInstanceAs (Decidable ((snapshotIndex < i → i ≤ last + 1) ∧ _))

theorem gapless_append {last : Nat} {is js : List Nat} :
    Gapless snapshotIndex last (is ++ js) ↔ Gapless snapshotIndex last is ∧
      Gapless snapshotIndex (lastAbove snapshotIndex last is) js := by
  induction is generalizing last with
  | nil => simp [Gapless, lastAbove]
  | cons i is ih =>
    rw [cons_append, Gapless, Gapless, ih, and_assoc]
    rfl

variable {segs : List Segment}

namespace LogView

variable {v v' : LogView}

def next? (v : LogView) : Option Nat := if v.found then some v.nextEntry.nextIndex else none

theorem announced_of_applyAll (h : v.applyAll snapshotIndex rs = some v') :
    Announced v.found rs := by
  induction rs generalizing v with
  | nil => trivial
  | cons r rs ih =>
    rw [applyAll_cons, Option.bind_eq_some_iff] at h
    obtain ⟨u, hu, h⟩ := h
    have hrest := ih h
    cases r with
    | entry type data =>
      rw [apply] at hu
      split at hu
      · next hfound =>
        obtain ⟨entries, -, rfl⟩ := Option.map_eq_some_iff.mp hu
        exact ⟨hfound, hrest⟩
      · cases hu
    | crc | metadata | hardState | snapshot | nextEntry =>
      cases hu
      exact hrest

variable (snapshotIndex) in
theorem apply_entry (hfound : v.found = true) (type : EntryType) (data : Bytes) :
    let i := v.nextEntry.nextIndex
    let last := snapshotIndex + v.entries.length
    (¬ (snapshotIndex < i → i ≤ last + 1) ∧ v.apply snapshotIndex (.entry type data) = none) ∨
      ((snapshotIndex < i → i ≤ last + 1) ∧
        ∃ v', v.apply snapshotIndex (.entry type data) = some v' ∧ v'.found = true ∧
          v'.nextEntry.nextIndex = (i + 1) % 2 ^ 64 ∧
          snapshotIndex + v'.entries.length = if snapshotIndex < i then i else last) := by
  intro i last
  simp only [apply, if_pos hfound, decodeInto]
  by_cases habove : snapshotIndex < i
  · rw [if_pos habove, if_pos habove]
    by_cases hgap : v.entries.length < i - snapshotIndex - 1
    · refine .inl ⟨?_, by rw [if_pos hgap]; rfl⟩
      intro hle
      have := hle habove
      omega
    · rw [if_neg hgap]
      refine .inr ⟨fun _ => by omega, _, rfl, hfound, rfl, ?_⟩
      rw [length_append, length_take, length_singleton]
      omega
  · rw [if_neg habove, if_neg habove]
    exact .inr ⟨fun h => absurd h habove, _, rfl, hfound, rfl, rfl⟩

variable (snapshotIndex) in
theorem applyAll_iff (hannounced : Announced v.found rs) :
    let is := entryIndices v.next? rs
    let last := snapshotIndex + v.entries.length
    (¬ Gapless snapshotIndex last is ∧ v.applyAll snapshotIndex rs = none) ∨
      (Gapless snapshotIndex last is ∧ ∃ v', v.applyAll snapshotIndex rs = some v' ∧
        snapshotIndex + v'.entries.length = lastAbove snapshotIndex last is) := by
  induction rs generalizing v with
  | nil => exact .inr ⟨trivial, v, rfl, rfl⟩
  | cons r rs ih =>
    cases r with
    | nextEntry e => exact ih (v := { v with nextEntry := e, found := true }) hannounced
    | entry type data =>
      obtain ⟨hfound, hannounced⟩ := hannounced
      have hnext : v.next? = some v.nextEntry.nextIndex := if_pos hfound
      simp only [hnext, entryIndices, Gapless, applyAll_cons]
      rcases apply_entry snapshotIndex hfound type data with
        ⟨hgap, hnone⟩ | ⟨hplace, u, hu, hufound, hunext, hlast⟩
      · rw [hnone]
        exact .inl ⟨fun h => hgap h.1, rfl⟩
      · have hunext? : u.next? = some ((v.nextEntry.nextIndex + 1) % 2 ^ 64) := by
          rw [next?, if_pos hufound, hunext]
        have hrest := ih (v := u) (by rw [hufound, ← hfound]; exact hannounced)
        simp only [hunext?, hlast] at hrest
        rw [hu, Option.bind_some]
        rcases hrest with ⟨hgap, hnone⟩ | ⟨hgapless, v', hv', hlength⟩
        · exact .inl ⟨fun h => hgap h.2, hnone⟩
        · exact .inr ⟨⟨hplace, hgapless⟩, v', hv', hlength⟩
    | crc value =>
      exact ih (v := v) hannounced
    | metadata data =>
      exact ih (v := { v with metadata := data }) hannounced
    | hardState st =>
      exact ih (v := { v with hardState := st }) hannounced
    | snapshot snap =>
      exact ih (v := { v with snapshots := v.snapshots ++ [snap] }) hannounced

theorem applySegments_isSome_iff (hannounced : ∀ s ∈ segs, Announced false s.records) :
    (∃ v', v.applySegments snapshotIndex segs = some v') ↔
      Gapless snapshotIndex (snapshotIndex + v.entries.length) (segmentIndices segs) := by
  induction segs generalizing v with
  | nil => exact iff_of_true ⟨v, rfl⟩ trivial
  | cons s segs ih =>
    obtain ⟨hs, hsegs⟩ := forall_mem_cons.mp hannounced
    have hfile := applyAll_iff snapshotIndex (v := v.startFile) hs
    rw [segmentIndices, flatMap_cons, gapless_append, applySegments]
    rcases hfile with ⟨hgap, hnone⟩ | ⟨hgapless, u, hu, hlast⟩
    · refine iff_of_false ?_ fun h => hgap h.1
      simp [hnone]
    · rw [hu, Option.bind_some, ih hsegs, hlast]
      exact (and_iff_right hgapless).symm

theorem announced_of_applySegments (h : v.applySegments snapshotIndex segs = some v') :
    ∀ s ∈ segs, Announced false s.records := by
  induction segs generalizing v with
  | nil => exact nofun
  | cons s segs ih =>
    rw [applySegments, Option.bind_eq_some_iff] at h
    obtain ⟨u, hu, h⟩ := h
    exact forall_mem_cons.mpr ⟨announced_of_applyAll hu, ih h⟩

end LogView

/-! ## Opening the log -/

/-- The files from the last one on that starts at or below the snapshot, by its name. -/
def filesFrom (snapshotIndex : Nat) : List Segment → List Segment
  | [] => []
  | s :: segs =>
    if segs.any (·.startLogIndex ≤ snapshotIndex) then filesFrom snapshotIndex segs else s :: segs

theorem Suffix.read_eq {skipped read : List Segment} (h : Suffix snapshotIndex segs skipped read) :
    read = filesFrom snapshotIndex segs := by
  obtain ⟨rfl, hstart, htail⟩ := h
  induction skipped with
  | nil =>
    cases read with
    | nil => rfl
    | cons s read =>
      have hnone : read.any (·.startLogIndex ≤ snapshotIndex) = false := by
        simpa using htail
      rw [nil_append, filesFrom, hnone]
      rfl
  | cons t skipped ih =>
    obtain ⟨s, rest, rfl, hle⟩ := hstart.resolve_left (by simp)
    have hsome : (skipped ++ s :: rest).any (·.startLogIndex ≤ snapshotIndex) = true := by
      rw [any_eq_true]
      exact ⟨s, by simp, by simpa using hle⟩
    rw [cons_append, filesFrom, if_pos hsome]
    exact ih (.inr ⟨s, rest, rfl, hle⟩)

theorem mem_of_mem_filesFrom {t : Segment} (h : t ∈ filesFrom snapshotIndex segs) : t ∈ segs := by
  induction segs with
  | nil => exact h
  | cons s segs ih =>
    rw [filesFrom] at h
    split at h
    · exact mem_cons_of_mem _ (ih h)
    · exact h

theorem mem_filesFrom_of_le {i j : Nat} {t : Segment} (hle : i ≤ j) (h : t ∈ filesFrom j segs) :
    t ∈ filesFrom i segs := by
  induction segs with
  | nil => exact h
  | cons s segs ih =>
    rw [filesFrom]
    split
    · next hany =>
      obtain ⟨u, hu, hstart⟩ := any_eq_true.mp hany
      have hlater : segs.any (·.startLogIndex ≤ j) = true := by
        refine any_eq_true.mpr ⟨u, hu, ?_⟩
        have := of_decide_eq_true hstart
        exact decide_eq_true (by omega)
      rw [filesFrom, if_pos hlater] at h
      exact ih h
    · exact mem_of_mem_filesFrom h

section Open

variable {closed : List Segment}

section

variable (h : SegmentsAt codecs dir closed current tail)
include h

theorem SegmentsAt.create_eq (pool : ByteSlicePool) (snapshotIndex : Nat) :
    ∃ pre, Player.create dir snapshotIndex pool =
        .ok ⟨(pre ++ [current]).map Segment.desc, snapshotIndex, pool⟩ ∧
      filesFrom snapshotIndex (closed ++ [current]) = pre ++ [current] ∧ ∀ s ∈ pre, s ∈ closed := by
  obtain ⟨skipped, read, hsuffix, hread⟩ := h.readValidLogFiles_eq snapshotIndex
  have hfiles := hsuffix.read_eq
  obtain ⟨-, rfl⟩ := hsuffix.drop_eq
  refine ⟨closed.drop skipped.length, ?_, hfiles.symm, fun s hs => mem_of_mem_drop hs⟩
  rw [Player.create, hread]
  rfl

theorem SegmentsAt.listed (hsound : ∀ s ∈ closed ++ [current], s.Sound codecs pool)
    (snapshotIndex : Nat) :
    ∃ p pre, Player.create dir snapshotIndex pool = .ok p ∧ p.memPool = pool ∧
      p.startSnapshotIndex = snapshotIndex ∧
      filesFrom snapshotIndex (closed ++ [current]) = pre ++ [current] ∧
      Listed codecs p dir pre current tail := by
  obtain ⟨pre, hp, hfiles, hmem⟩ := h.create_eq pool snapshotIndex
  refine ⟨_, pre, hp, rfl, rfl, hfiles, rfl, fun s hs => h.lookup_closed s (hmem s hs),
    h.lookup_current, ?_, fun s hs => h.name_ne (hmem s hs)⟩
  intro s hs
  rcases List.mem_append.mp hs with hs | hs
  · exact hsound s (mem_append_left _ (hmem s hs))
  · exact hsound s (mem_append_right _ hs)

theorem SegmentsAt.reopenWal_ok_iff (hsound : ∀ s ∈ closed ++ [current], s.Sound codecs pool)
    (htail : TailStops pool (crcAfter codecs 0 current.records) tail e)
    (he : e = .eof ∨ Player.repairable e = true) (options : Options) (snapshot : Option Snapshot) :
    (∃ r, reopenWal codecs options pool dir snapshot = .ok r) ↔
      ∃ v, LogView.empty.applySegments (startIndex snapshot)
        (filesFrom (startIndex snapshot) (closed ++ [current])) = some v := by
  obtain ⟨p, pre, hp, rfl, hstart, hfiles, hlisted⟩ := h.listed hsound (startIndex snapshot)
  have hempty := newCollection_isEmpty options
  have hnop := newCollection_isNop options
  rw [hfiles]
  rw [← hstart]
  constructor
  · rintro ⟨r, hr⟩
    cases hview : LogView.empty.applySegments p.startSnapshotIndex (pre ++ [current]) with
    | some v => exact ⟨v, rfl⟩
    | none =>
      obtain ⟨result, e', hreplay, hmisplaced⟩ := hlisted.replay_misplaced hempty hnop hview true
      rw [startIndex] at hp
      simp only [reopenWal, replayWal, hp, ok_bind, hreplay] at hr
      rcases hmisplaced with rfl | rfl <;> cases hr
  · rintro ⟨v, hview⟩
    obtain ⟨result, hreplay, hrecovered⟩ := hlisted.replay_ok htail hempty he hview
    have hat' : ∃ tail', SegmentsAt codecs (afterReplay codecs dir current tail e) closed current
        tail' := by
      rw [afterReplay]
      split
      · exact ⟨tail, h⟩
      · exact ⟨[], h.repaired⟩
    obtain ⟨tail', hat'⟩ := hat'
    obtain ⟨filesDesc, hscan, -, hopen⟩ := openWal_eq options.managerConfig p.memPool hat'
      hrecovered (startIndex snapshot)
    have hwal : ∃ w, replayWal codecs dir snapshot options p.memPool =
        .ok (result, w, afterReplay codecs dir current tail e) := by
      rw [startIndex] at hp hscan
      simp only [replayWal, hp, ok_bind, hreplay, hscan, hopen]
      exact ⟨_, rfl⟩
    obtain ⟨w, hwal⟩ := hwal
    by_cases hdisabled : options.disableEntryIndex = true
    · simp only [reopenWal, hwal, ok_bind, hdisabled, if_true]
      exact ⟨_, rfl⟩
    · rw [Options.newCollection, if_neg hdisabled] at hrecovered
      have haligned : v.Aligned (startIndex snapshot) := by
        rw [← hstart]
        exact (show LogView.empty.Aligned _ from consecutive_nil).applySegments hview
      obtain ⟨es, hes⟩ := replayEntryStorage_eq hrecovered haligned
      simp only [reopenWal, hwal, ok_bind, hdisabled, hes]
      exact ⟨_, rfl⟩

end

end Open

end Babuza.Babuzawal
