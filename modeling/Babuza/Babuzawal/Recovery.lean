import Babuza.Babuzawal.Journal
import Babuza.Walbase.LogState

/-!
# Recovery after a clean shutdown

What the player reads from a log that was created, saved to any number of times and closed. An entry
record carries neither term nor index; `Journal.ReadsFrom` ties the announced next entry of the
writer to that of the reader, across overwrites and rotations. Only where the preallocated space
ends with one to seven bytes after the last record the player does not stop cleanly: it reads a
partial header.
-/

namespace Babuza.Babuzawal

open Lib Allocator Walbase List

/-- A reader that starts at the snapshot index has collected the log above it. Behind that there
may be entries of an older log which nothing above the snapshot has overwritten yet. -/
structure Covers (snapshotIndex : Nat) (log entries : List Entry) : Prop where
  above : log.drop snapshotIndex <+: entries
  exact : snapshotIndex = 0 → entries = log

variable {entries : List Entry} {e : Entry}

theorem Covers.decodeInto {snapshotIndex : Nat} {log : List Entry}
    (h : Covers snapshotIndex log entries) (hpos : 0 < e.index) (hle : e.index ≤ log.length + 1) :
    ∃ entries', Babuzawal.decodeInto snapshotIndex e.index e entries = some entries' ∧
      Covers snapshotIndex (truncAppend Entry.index 0 log [e]) entries' := by
  have hlog : truncAppend Entry.index 0 log [e] = log.take (e.index - 1) ++ [e] := rfl
  have hlen : (log.take (e.index - 1)).length = e.index - 1 := length_take_of_le (by omega)
  rw [Babuzawal.decodeInto, hlog]
  by_cases habove : snapshotIndex < e.index
  · have hprefix := h.above.length_le
    rw [length_drop] at hprefix
    have hroom : ¬ entries.length < e.index - snapshotIndex - 1 := by omega
    have htake : entries.take (e.index - snapshotIndex - 1) =
        (log.take (e.index - 1)).drop snapshotIndex := by
      have heq := h.above.take (e.index - snapshotIndex - 1)
      have hfull : ((log.drop snapshotIndex).take (e.index - snapshotIndex - 1)).length =
          (entries.take (e.index - snapshotIndex - 1)).length := by
        simp only [length_take, length_drop]
        omega
      rw [← heq.eq_of_length hfull, drop_take]
      congr 1
      omega
    have hdrop : (log.take (e.index - 1) ++ [e]).drop snapshotIndex =
        (log.take (e.index - 1)).drop snapshotIndex ++ [e] :=
      drop_append_of_le_length (by omega)
    refine ⟨(log.take (e.index - 1)).drop snapshotIndex ++ [e], ?_, ?_, ?_⟩
    · simp only [habove, if_true, hroom, if_false, htake]
    · rw [hdrop]
    · rintro rfl
      rw [drop_zero]
  · refine ⟨entries, by rw [if_neg habove], ?_, by omega⟩
    rw [drop_eq_nil_of_le (by rw [length_append, hlen, length_singleton]; omega)]
    exact List.nil_prefix

/-! ## The meaning of a journal -/

variable {chunkSize : Nat} {saves : List SaveArgs} {J' : Journal}

namespace Journal

variable {J : Journal} {v : LogView} {snapshotIndex : Nat} {pre : List Segment} {log : List Entry}

/-- The records of the journal can be read back, apart from their visibility. -/
structure WellFormed (J : Journal) : Prop where
  crc_first : ∀ s ∈ J.segments, ∃ crc rest, s.records = .crc crc :: rest ∧
    ∀ r ∈ rest, r.logType ≠ .crc
  readable : ∀ s ∈ J.segments, ∀ r ∈ s.records, r.Readable
  next_fits : J.state.nextEntry.Fits

theorem WellFormed.append (codecs : RaftCodecs) (h : J.WellFormed) {r : Record}
    (htype : r.logType ≠ .crc) (hr : r.Readable) (state : WalState) (hnext : state.nextEntry.Fits) :
    ((J.append codecs r).setState state).WellFormed := by
  obtain ⟨hclosed, crc, rest, hrecords, hrest⟩ := forall_mem_concat.mp h.crc_first
  obtain ⟨hbefore, hcurrent⟩ := forall_mem_concat.mp h.readable
  refine ⟨forall_mem_concat.mpr ⟨hclosed, crc, rest ++ [r], congrArg (· ++ [r]) hrecords, ?_⟩,
    forall_mem_concat.mpr ⟨hbefore, ?_⟩, hnext⟩
  · exact forall_mem_concat.mpr ⟨hrest, htype⟩
  · exact forall_mem_concat.mpr ⟨hcurrent, hr⟩

theorem WellFormed.rotate (codecs : RaftCodecs) (h : J.WellFormed) (chunkSize : Nat) :
    (J.rotate codecs chunkSize).WellFormed := by
  refine ⟨forall_mem_concat.mpr ⟨h.crc_first, _, _, rfl, ?_⟩,
    forall_mem_concat.mpr ⟨h.readable, ?_⟩, h.next_fits⟩
  · split <;> simp [Record.logType]
  · simp only [Journal.rotate, rotateRecords]
    split <;> simp [Record.Readable, h.next_fits]

/-- A reader of the segments `pre` and of the current one has read `v`, which is the state of the
journal and its log above the snapshot. -/
structure Shown (snapshotIndex : Nat) (J : Journal) (log : List Entry) (v : LogView) : Prop where
  metadata : v.metadata = J.state.metadata
  hardState : v.hardState = J.state.hardState
  nextEntry : v.nextEntry = J.state.nextEntry
  found : J.state.nextEntry = ⟨0, 0⟩ ∨ v.found = true
  entries : Covers snapshotIndex log v.entries

def ReadsFrom (snapshotIndex : Nat) (pre : List Segment) (J : Journal) (log : List Entry) : Prop :=
  ∃ v, LogView.empty.applySegments snapshotIndex (pre ++ [J.current]) = some v ∧
    J.Shown snapshotIndex log v

section

variable (codecs : RaftCodecs)
include codecs

theorem applySegments_append
    (h : LogView.empty.applySegments snapshotIndex (pre ++ [J.current]) = some v) (r : Record)
    (state : WalState) :
    LogView.empty.applySegments snapshotIndex
        (pre ++ [((J.append codecs r).setState state).current]) = v.apply snapshotIndex r := by
  obtain ⟨u, hu, hv⟩ := LogView.applySegments_concat_eq_some h
  rw [LogView.applySegments_concat hu]
  refine (LogView.applyAll_append ..).trans ?_
  simp [hv, LogView.applyAll_cons]

theorem ReadsFrom.saveNextEntry (e : Entry) (h : ReadsFrom snapshotIndex pre J log) :
    ReadsFrom snapshotIndex pre (J.saveNextEntry codecs e) log := by
  rw [Journal.saveNextEntry]
  by_cases hnext : J.state.nextEntry = ⟨e.term, e.index⟩
  · rwa [if_neg (not_not.mpr hnext)]
  · rw [if_pos hnext]
    obtain ⟨v, hv, hshown⟩ := h
    exact ⟨_, applySegments_append codecs hv _ _,
      { hshown with nextEntry := rfl, found := .inr rfl }⟩

theorem saveNextEntry_nextEntry (J : Journal) (e : Entry) :
    (J.saveNextEntry codecs e).state.nextEntry = ⟨e.term, e.index⟩ := by
  rw [saveNextEntry]
  by_cases hnext : J.state.nextEntry = ⟨e.term, e.index⟩
  · rw [if_neg (not_not.mpr hnext), hnext]
  · rw [if_pos hnext]
    rfl

theorem WellFormed.saveNextEntry (h : J.WellFormed) (hterm : e.term < 2 ^ 64)
    (hindex : e.index + 1 < 2 ^ 64) : (J.saveNextEntry codecs e).WellFormed := by
  rw [Journal.saveNextEntry]
  split
  · have hfits : WalNextEntry.Fits ⟨e.term, e.index⟩ := ⟨hterm, Nat.lt_of_succ_lt hindex⟩
    exact h.append codecs (r := .nextEntry _) (by simp [Record.logType]) hfits _ hfits
  · exact h

theorem WellFormed.saveOne (h : J.WellFormed) (hterm : e.term < 2 ^ 64)
    (hindex : e.index + 1 < 2 ^ 64) : (J.saveOne codecs e).WellFormed := by
  refine (h.saveNextEntry codecs hterm hindex).append codecs (r := .entry _ _) ?_ trivial _ ?_
  · cases e.type <;> nofun
  rw [saveNextEntry_nextEntry]
  exact ⟨hterm, hindex⟩

/-- What the reader does with the entry that is saved next. -/
theorem ReadsFrom.apply_entry (h : ReadsFrom snapshotIndex pre J log) (hpos : 0 < e.index)
    (hle : e.index ≤ log.length + 1) :
    ∃ v entries, LogView.empty.applySegments snapshotIndex
        (pre ++ [(J.saveNextEntry codecs e).current]) = some v ∧
      (J.saveNextEntry codecs e).Shown snapshotIndex log v ∧ v.found = true ∧
      v.nextEntry = ⟨e.term, e.index⟩ ∧ v.apply snapshotIndex (.entry e.type e.data) = some
        { v with entries := entries, nextEntry := ⟨e.term, (e.index + 1) % 2 ^ 64⟩ } ∧
      Covers snapshotIndex (truncAppend Entry.index 0 log [e]) entries := by
  obtain ⟨v, hv, hshown⟩ := h.saveNextEntry codecs e
  have hnext := saveNextEntry_nextEntry codecs J e
  have hnextEntry := hshown.nextEntry.trans hnext
  have hfound : v.found = true := hshown.found.resolve_left (fun heq => by
    rw [hnext] at heq
    have hzero : e.index = 0 := congrArg WalNextEntry.nextIndex heq
    omega)
  obtain ⟨entries, hdecode, hcovers⟩ := hshown.entries.decodeInto hpos hle
  refine ⟨v, entries, hv, hshown, hfound, hnextEntry, ?_, hcovers⟩
  rw [LogView.apply, if_pos hfound, LogView.nextOf, hnextEntry]
  simp only [hdecode, Option.map_some]

theorem ReadsFrom.saveOne (h : ReadsFrom snapshotIndex pre J log) (hindex : e.index + 1 < 2 ^ 64)
    (hpos : 0 < e.index) (hle : e.index ≤ log.length + 1) :
    ReadsFrom snapshotIndex pre (J.saveOne codecs e) (truncAppend Entry.index 0 log [e]) := by
  obtain ⟨v, entries, hv, hshown, hfound, -, hread, hcovers⟩ := h.apply_entry codecs hpos hle
  refine ⟨_, (applySegments_append codecs hv _ _).trans hread, hshown.metadata, hshown.hardState,
    ?_, .inr hfound, hcovers⟩
  simp only [Journal.saveOne, setState, saveNextEntry_nextEntry, Nat.mod_eq_of_lt hindex]

theorem saveEntries_induction {P : List Entry → Journal → List Entry → Prop}
    (hstep : ∀ {done : List Entry} {J : Journal} {log : List Entry} {e : Entry}, P done J log →
      e.term < 2 ^ 64 → e.index + 1 < 2 ^ 64 → 0 < e.index → e.index ≤ log.length + 1 →
      P (done ++ [e]) (J.saveOne codecs e) (truncAppend Entry.index 0 log [e]))
    (done : List Entry) (hJ : P done J log) (hvalid : ValidBatch log.length entries) :
    P (done ++ entries) (J.saveEntries codecs entries)
      (truncAppend Entry.index 0 log entries) := by
  obtain ⟨first, hconsecutive, hpos, hfirst⟩ := hvalid.consecutive
  have hterm := hvalid.term_lt
  have hindex := hvalid.index_lt
  rw [← foldl_truncAppend_singleton hconsecutive hpos log (by omega)]
  clear hvalid
  induction entries generalizing done J log first with
  | nil =>
    rw [append_nil]
    exact hJ
  | cons e rest ih =>
    obtain ⟨he, hrest⟩ := consecutive_cons.mp hconsecutive
    rw [← singleton_append, ← append_assoc]
    refine ih (done ++ [e]) (hstep hJ (hterm e (by simp)) (hindex e (by simp)) (by omega)
      (by omega)) (first + 1) hrest (by omega) ?_ (fun e' he' => hterm e' (by simp [he']))
      (fun e' he' => hindex e' (by simp [he']))
    show first + 1 ≤ (log.take (e.index - 0 - 1) ++ [e]).length + 1
    rw [length_append, length_take, length_singleton]
    omega

theorem WellFormed.saveEntries (h : J.WellFormed) (hvalid : ValidBatch log.length entries) :
    (J.saveEntries codecs entries).WellFormed :=
  saveEntries_induction codecs (P := fun _ J _ => J.WellFormed)
    (fun hJ hterm hindex _ _ => hJ.saveOne codecs hterm hindex) [] h hvalid

theorem ReadsFrom.saveEntries (h : ReadsFrom snapshotIndex pre J log)
    (hvalid : ValidBatch log.length entries) :
    ReadsFrom snapshotIndex pre (J.saveEntries codecs entries)
      (truncAppend Entry.index 0 log entries) :=
  saveEntries_induction codecs (P := fun _ => ReadsFrom snapshotIndex pre)
    (fun hJ _ hindex hpos hle => hJ.saveOne codecs hindex hpos hle) [] h hvalid

theorem WellFormed.saveHardState (h : J.WellFormed) (st : HardState) :
    (J.saveHardState codecs st).WellFormed := by
  rw [Journal.saveHardState]
  split
  · exact h
  · exact h.append codecs (r := .hardState st) (by simp [Record.logType]) trivial _ h.next_fits

theorem ReadsFrom.saveHardState (h : ReadsFrom snapshotIndex pre J log) (st : HardState) :
    ReadsFrom snapshotIndex pre (J.saveHardState codecs st) log := by
  rw [Journal.saveHardState]
  split
  · exact h
  · obtain ⟨v, hv, hshown⟩ := h
    exact ⟨_, applySegments_append codecs hv _ _, { hshown with hardState := rfl }⟩

theorem ReadsFrom.saveSnapshot (h : ReadsFrom snapshotIndex pre J log) (snapshot : Snapshot) :
    ReadsFrom snapshotIndex pre (J.saveSnapshot codecs snapshot) log := by
  obtain ⟨v, hv, hshown⟩ := h
  exact ⟨_, applySegments_append codecs hv _ _, { hshown with }⟩

theorem WellFormed.saveSnapshot (h : J.WellFormed) (snapshot : Snapshot) :
    (J.saveSnapshot codecs snapshot).WellFormed :=
  h.append codecs (r := .snapshot _) nofun trivial _ h.next_fits

end

theorem applyAll_rotateRecords (codecs : RaftCodecs) (J : Journal) (snapshotIndex : Nat)
    {v : LogView} (hempty : J.state.nextEntry = ⟨0, 0⟩ → v.nextEntry = ⟨0, 0⟩)
    (hcovers : Covers snapshotIndex log v.entries) :
    ∃ v', v.startFile.applyAll snapshotIndex (J.rotateRecords codecs) = some v' ∧
      J.Shown snapshotIndex log v' := by
  rw [rotateRecords]
  by_cases hnext : J.state.emptyNextEntry
  · have hzero : J.state.nextEntry = ⟨0, 0⟩ := by
      cases hentry : J.state.nextEntry
      simpa [WalState.emptyNextEntry, hentry] using hnext
    rw [if_pos hnext]
    exact ⟨_, rfl, rfl, rfl, (hempty hzero).trans hzero.symm, .inl hzero, hcovers⟩
  · rw [if_neg hnext]
    exact ⟨_, rfl, rfl, rfl, rfl, .inr rfl, hcovers⟩

theorem ReadsFrom.rotate (codecs : RaftCodecs) (h : ReadsFrom snapshotIndex pre J log)
    (chunkSize : Nat) :
    ReadsFrom snapshotIndex (pre ++ [J.current]) (J.rotate codecs chunkSize) log := by
  obtain ⟨v, hv, hshown⟩ := h
  obtain ⟨v', hv', hshown'⟩ := applyAll_rotateRecords codecs J snapshotIndex
    (fun hzero => hshown.nextEntry.trans hzero) hshown.entries
  exact ⟨v', (LogView.applySegments_concat hv).trans hv', { hshown' with }⟩

theorem ReadsFrom.rotate_fresh (codecs : RaftCodecs) (J : Journal) (chunkSize : Nat)
    (hpos : 0 < snapshotIndex) (hle : log.length ≤ snapshotIndex) :
    ReadsFrom snapshotIndex [] (J.rotate codecs chunkSize) log := by
  have hcovers : Covers snapshotIndex log [] := by
    refine ⟨?_, by omega⟩
    rw [drop_eq_nil_of_le hle]
  obtain ⟨v', hv', hshown'⟩ := applyAll_rotateRecords codecs J snapshotIndex
    (v := LogView.empty) (fun _ => rfl) hcovers
  have hnil : LogView.empty.applySegments snapshotIndex [] = some .empty := rfl
  exact ⟨v', (LogView.applySegments_concat hnil).trans hv', { hshown' with }⟩

/-! ## What a save leaves alone -/

structure Grows (codecs : RaftCodecs) (J J' : Journal) : Prop where
  closed_eq : J'.closed = J.closed
  id_eq : J'.current.id = J.current.id
  start_eq : J'.current.startLogIndex = J.current.startLogIndex
  created_eq : J'.created = J.created
  metadata_eq : J'.state.metadata = J.state.metadata
  records_eq : ∃ rs, J'.current.records = J.current.records ++ rs
  tail_eq : J'.tail = J.tail.drop (J'.offset codecs - J.offset codecs)

namespace Grows

variable {codecs : RaftCodecs} {J₁ J₂ J₃ : Journal}

theorem offset_le (h : Grows codecs J₁ J₂) : J₁.offset codecs ≤ J₂.offset codecs := by
  obtain ⟨rs, hrs⟩ := h.records_eq
  rw [offset, offset, hrs, contents, contents, encodeRecords_append]
  simp only [length_append]
  omega

theorem refl : Grows codecs J J := by
  refine ⟨rfl, rfl, rfl, rfl, rfl, ⟨[], (append_nil _).symm⟩, ?_⟩
  rw [Nat.sub_self, drop_zero]

theorem trans (h : Grows codecs J₁ J₂) (h' : Grows codecs J₂ J₃) : Grows codecs J₁ J₃ := by
  have hle := h.offset_le
  have hle' := h'.offset_le
  obtain ⟨rs, hrs⟩ := h.records_eq
  obtain ⟨rs', hrs'⟩ := h'.records_eq
  refine ⟨h'.closed_eq.trans h.closed_eq, h'.id_eq.trans h.id_eq, h'.start_eq.trans h.start_eq,
    h'.created_eq.trans h.created_eq, h'.metadata_eq.trans h.metadata_eq, ⟨rs ++ rs', ?_⟩, ?_⟩
  · rw [hrs', hrs, append_assoc]
  · rw [h'.tail_eq, h.tail_eq, drop_drop]
    congr 1
    omega

theorem append (r : Record) (state : WalState) (hstate : state.metadata = J.state.metadata) :
    Grows codecs J ((J.append codecs r).setState state) := by
  refine ⟨rfl, rfl, rfl, rfl, hstate, ⟨[r], rfl⟩, ?_⟩
  simp only [offset, setState, Journal.append, LogFile.contents_append_singleton,
    length_append]
  congr 1
  omega

theorem saveNextEntry (e : Entry) : Grows codecs J (J.saveNextEntry codecs e) := by
  rw [Journal.saveNextEntry]
  split
  · exact append _ _ rfl
  · exact refl

theorem saveOne (e : Entry) : Grows codecs J (J.saveOne codecs e) :=
  (saveNextEntry e).trans (append _ _ rfl)

theorem saveEntries (entries : List Entry) : Grows codecs J (J.saveEntries codecs entries) := by
  induction entries generalizing J with
  | nil => exact refl
  | cons e entries ih => exact (saveOne e).trans ih

theorem saveHardState (st : HardState) : Grows codecs J (J.saveHardState codecs st) := by
  rw [Journal.saveHardState]
  split
  · exact refl
  · exact append _ _ rfl

theorem saveSnapshot (snapshot : Snapshot) : Grows codecs J (J.saveSnapshot codecs snapshot) :=
  append _ _ rfl

end Grows

def starts (J : Journal) : List Nat := J.segments.map Segment.startLogIndex

theorem Grows.starts_eq {codecs : RaftCodecs} (h : Grows codecs J J') : J'.starts = J.starts := by
  simp only [starts, segments, map_append, map_singleton, h.closed_eq, h.start_eq]

theorem starts_rotate (codecs : RaftCodecs) (chunkSize : Nat) (J : Journal) :
    (J.rotate codecs chunkSize).starts = J.starts ++ [J.state.lastEntryIndex + 1] := by
  simp only [starts, segments, Journal.rotate, map_append, map_singleton]

@[simp] theorem hardState_saveEntries (codecs : RaftCodecs) (J : Journal) (entries : List Entry) :
    (J.saveEntries codecs entries).state.hardState = J.state.hardState := by
  induction entries generalizing J with
  | nil => rfl
  | cons e entries ih =>
    rw [show J.saveEntries codecs (e :: entries) = (J.saveOne codecs e).saveEntries codecs entries
      from rfl, ih, saveOne, saveNextEntry]
    split <;> rfl

theorem hardState_saveHardState (codecs : RaftCodecs) (J : Journal) (st : HardState) :
    (J.saveHardState codecs st).state.hardState =
      if isEmptyHardState st then J.state.hardState else st := by
  rw [saveHardState]
  split <;> rfl

def snapshots (J : Journal) : List WalSnapshot :=
  J.segments.flatMap fun s => s.records.filterMap Record.snapshot?

section

variable (codecs : RaftCodecs)
include codecs

theorem snapshots_append (J : Journal) (r : Record) (state : WalState) :
    ((J.append codecs r).setState state).snapshots = J.snapshots ++ r.snapshot?.toList := by
  simp only [snapshots, segments, Journal.append, setState, flatMap_append,
    flatMap_singleton, filterMap_append, ← append_assoc]
  congr 1

theorem snapshots_rotate (chunkSize : Nat) (J : Journal) :
    (J.rotate codecs chunkSize).snapshots = J.snapshots := by
  simp only [snapshots, segments, Journal.rotate, rotateRecords, flatMap_append,
    flatMap_singleton]
  split <;> simp [Record.snapshot?]

theorem snapshots_saveNextEntry (J : Journal) (e : Entry) :
    (J.saveNextEntry codecs e).snapshots = J.snapshots := by
  rw [saveNextEntry]
  split
  · rw [snapshots_append]
    exact append_nil _
  · rfl

theorem snapshots_saveOne (J : Journal) (e : Entry) :
    (J.saveOne codecs e).snapshots = J.snapshots := by
  rw [saveOne, snapshots_append, snapshots_saveNextEntry]
  exact append_nil _

theorem snapshots_saveEntries (J : Journal) (entries : List Entry) :
    (J.saveEntries codecs entries).snapshots = J.snapshots := by
  induction entries generalizing J with
  | nil => rfl
  | cons e entries ih => exact (ih _).trans (snapshots_saveOne codecs J e)

theorem snapshots_saveHardState (J : Journal) (st : HardState) :
    (J.saveHardState codecs st).snapshots = J.snapshots := by
  rw [saveHardState]
  split
  · rfl
  · rw [snapshots_append]
    exact append_nil _

end

/-! ## Journals of a run -/

/-- A reader of all files finds the metadata and the state in the journal. -/
structure Stores (metadata : Bytes) (S : LogState) (J : Journal) : Prop where
  wellFormed : J.WellFormed
  metadata_eq : J.state.metadata = metadata
  hardState_eq : J.state.hardState = S.hardState
  snapshots_eq : J.snapshots = S.snapshots
  reads : ReadsFrom 0 J.closed J S.entries
  start_pos : ∀ start ∈ J.starts.tail, 0 < start

section Stores

variable {codecs : RaftCodecs} {metadata : Bytes} {S : LogState}

theorem stores_create (codecs : RaftCodecs) (chunkSize : Nat) (metadata : Bytes) :
    Stores metadata .initial (create codecs chunkSize metadata) := by
  refine ⟨⟨?_, ?_, Nat.two_pow_pos 64, Nat.two_pow_pos 64⟩, rfl, rfl, rfl, ?_, ?_⟩
  · exact forall_mem_singleton.mpr ⟨_, _, rfl, by simp [Record.logType]⟩
  · refine forall_mem_singleton.mpr ?_
    simp [create, Record.Readable]
  · exact ⟨_, rfl, rfl, rfl, rfl, .inl rfl, List.nil_prefix, fun _ => rfl⟩
  · simp [starts, segments, create]

section

variable (h : Stores metadata S J)
include h

theorem Stores.rotate (codecs : RaftCodecs) (chunkSize : Nat) :
    Stores metadata S (J.rotate codecs chunkSize) := by
  refine ⟨h.wellFormed.rotate codecs chunkSize, h.metadata_eq, h.hardState_eq,
    (snapshots_rotate codecs chunkSize J).trans h.snapshots_eq, h.reads.rotate codecs chunkSize, ?_⟩
  rw [starts_rotate, tail_append_of_ne_nil (by simp [starts, segments])]
  exact forall_mem_concat.mpr ⟨h.start_pos, Nat.succ_pos _⟩

theorem Stores.of_grows {S' : LogState} (hgrows : Grows codecs J J') (hwf : J'.WellFormed)
    (hst : J'.state.hardState = S'.hardState) (hsnapshots : J'.snapshots = S'.snapshots)
    (hreads : ReadsFrom 0 J.closed J' S'.entries) : Stores metadata S' J' := by
  refine ⟨hwf, hgrows.metadata_eq.trans h.metadata_eq, hst, hsnapshots, ?_, ?_⟩
  · rwa [hgrows.closed_eq]
  · rw [hgrows.starts_eq]
    exact h.start_pos

theorem Stores.saveNextEntry (codecs : RaftCodecs) (hterm : e.term < 2 ^ 64)
    (hindex : e.index + 1 < 2 ^ 64) : Stores metadata S (J.saveNextEntry codecs e) := by
  refine h.of_grows (.saveNextEntry e) (h.wellFormed.saveNextEntry codecs hterm hindex) ?_
    ((snapshots_saveNextEntry codecs J e).trans h.snapshots_eq) (h.reads.saveNextEntry codecs e)
  rw [Journal.saveNextEntry]
  split
  all_goals exact h.hardState_eq

theorem Stores.saveEntries (codecs : RaftCodecs) (hvalid : ValidBatch S.entries.length entries) :
    Stores metadata { S with entries := truncAppend Entry.index 0 S.entries entries }
      (J.saveEntries codecs entries) :=
  h.of_grows (.saveEntries entries) (h.wellFormed.saveEntries codecs hvalid)
    ((hardState_saveEntries codecs J entries).trans h.hardState_eq)
    ((snapshots_saveEntries codecs J entries).trans h.snapshots_eq)
    (h.reads.saveEntries codecs hvalid)

theorem Stores.saveHardState (codecs : RaftCodecs) (st : HardState) :
    Stores metadata { S with hardState := if isEmptyHardState st then S.hardState else st }
      (J.saveHardState codecs st) := by
  refine h.of_grows (.saveHardState st) (h.wellFormed.saveHardState codecs st) ?_
    ((snapshots_saveHardState codecs J st).trans h.snapshots_eq) (h.reads.saveHardState codecs st)
  rw [hardState_saveHardState, h.hardState_eq]

theorem Stores.saveSnapshot (codecs : RaftCodecs) (snapshot : Snapshot) :
    Stores metadata (S.saveSnapshot snapshot) (J.saveSnapshot codecs snapshot) := by
  refine h.of_grows (.saveSnapshot snapshot) (h.wellFormed.saveSnapshot codecs snapshot)
    h.hardState_eq ?_ (h.reads.saveSnapshot codecs snapshot)
  rw [Journal.saveSnapshot, snapshots_append, h.snapshots_eq]
  rfl

theorem Stores.save (codecs : RaftCodecs) (chunkSize : Nat) {st : HardState}
    (hvalid : ValidBatch S.entries.length entries) :
    Stores metadata (S.save st entries) (J.save codecs chunkSize st entries) := by
  have hsaved := (h.saveEntries codecs hvalid).saveHardState codecs st
  rw [Journal.save]
  split
  · exact hsaved.rotate codecs chunkSize
  · exact hsaved

end

def saveAll (codecs : RaftCodecs) (chunkSize : Nat) (J : Journal) (saves : List SaveArgs) :
    Journal :=
  saves.foldl (fun J save => J.save codecs chunkSize save.1 save.2) J

theorem Stores.saveAll (codecs : RaftCodecs) (chunkSize : Nat) (h : Stores metadata S J)
    (hvalid : ValidSaves S.entries saves) :
    Stores metadata (S.saveAll saves) (J.saveAll codecs chunkSize saves) := by
  induction saves generalizing J S with
  | nil => exact h
  | cons save saves ih => exact ih (h.save codecs chunkSize hvalid.1) hvalid.2

/-- The space behind the records of the current file is what was preallocated for it. -/
def Fresh (codecs : RaftCodecs) (chunkSize : Nat) (J : Journal) : Prop :=
  J.tail = freshTail codecs chunkSize J.current.records

theorem Fresh.of_grows (h : J.Fresh codecs chunkSize) (hgrows : Grows codecs J J') :
    J'.Fresh codecs chunkSize := by
  have hle := hgrows.offset_le
  rw [Fresh, hgrows.tail_eq, h, freshTail, freshTail, zeros_drop]
  rw [offset, offset] at *
  congr 1
  omega

theorem Fresh.save (h : J.Fresh codecs chunkSize) (st : HardState) (entries : List Entry) :
    (J.save codecs chunkSize st entries).Fresh codecs chunkSize := by
  have hgrows : Grows codecs J ((J.saveEntries codecs entries).saveHardState codecs st) :=
    (Grows.saveEntries entries).trans (.saveHardState st)
  rw [Journal.save]
  split
  · rfl
  · exact h.of_grows hgrows

theorem Fresh.saveAll (h : J.Fresh codecs chunkSize) :
    (J.saveAll codecs chunkSize saves).Fresh codecs chunkSize := by
  induction saves generalizing J with
  | nil => exact h
  | cons save saves ih => exact ih (h.save save.1 save.2)

end Stores

end Journal

/-! ## Replaying a closed log -/

section Replay

variable {codecs : RaftCodecs} {cfg : ManagerConfig} {pool : ByteSlicePool} {J : Journal}
  {metadata : Bytes} {S : LogState} {dir : Directory} {tail : Bytes}

def saveAll (codecs : RaftCodecs) : Wal × Directory → List SaveArgs →
    Except WalError (Wal × Directory) :=
  run fun s save => s.1.save codecs s.2 save.1 save.2

theorem saveAll_represents {w w' : Wal} {dir' : Directory} (h : Represents codecs cfg pool w dir J)
    (hsaves : saveAll codecs (w, dir) saves = .ok (w', dir')) :
    Represents codecs cfg pool w' dir' (J.saveAll codecs cfg.logFileChunkSize saves) := by
  induction saves generalizing w dir J with
  | nil =>
    cases hsaves
    exact h
  | cons save saves ih =>
    obtain ⟨⟨w₁, dir₁⟩, hsave, hsaves⟩ := run_cons_eq_ok.mp hsaves
    exact ih (save_represents h hsave) hsaves

theorem SegmentsAt.readValidLogFiles_zero {closed : List Segment} {current : Segment}
    (h : SegmentsAt codecs dir closed current tail)
    (hpos : ∀ start ∈ ((closed ++ [current]).map Segment.startLogIndex).tail, 0 < start) :
    readValidLogFiles dir 0 = .ok ((closed ++ [current]).map Segment.desc) := by
  obtain ⟨skipped, read, hsuffix, hread⟩ := h.readValidLogFiles_eq 0
  have hnil : skipped = [] := by
    rcases hsuffix.start_le with hnil | ⟨s, rest, rfl, hle⟩
    · exact hnil
    · cases skipped with
      | nil => rfl
      | cons t skipped =>
        have hlt := hpos s.startLogIndex (by rw [hsuffix.eq_append]; simp)
        omega
  rw [hread, hsuffix.eq_append, hnil, nil_append]

theorem Journal.Stores.playable (h : J.Stores metadata S)
    (hat : SegmentsAt codecs dir J.closed J.current tail)
    (hfits : ∀ s ∈ J.segments, ∀ r ∈ s.records, r.Fits codecs pool)
    (hvisible : ∀ s ∈ J.segments, AllVisible codecs 0 s.records) :
    ∃ p v, Player.create dir 0 pool = .ok p ∧ p.memPool = pool ∧
      Playable codecs p dir J.closed J.current tail v ∧
      LogView.empty.applySegments 0 (J.closed ++ [J.current]) = some v ∧
      J.Shown 0 S.entries v := by
  obtain ⟨v, hv, hshown⟩ := h.reads
  refine ⟨⟨J.segments.map Segment.desc, 0, pool⟩, v, ?_, rfl, ?_, hv, hshown⟩
  · rw [Player.create, hat.readValidLogFiles_zero h.start_pos]
    rfl
  · refine ⟨rfl, hat.lookup_closed, hat.lookup_current, fun s hs => ?_, hv⟩
    obtain ⟨crc, rest, hrecords, -⟩ := h.wellFormed.crc_first s hs
    exact ⟨⟨crc, rest, hrecords⟩, h.wellFormed.readable s hs, hfits s hs, hvisible s hs⟩

/-- A result that holds exactly the given metadata and state. -/
structure Yields (metadata : Bytes) (S : LogState) (r : ReplayResult) : Prop where
  metadata_eq : r.metadata = metadata
  hardState_eq : r.hardState = S.hardState
  snapshots_eq : r.walSnapshots = S.snapshots
  entries_eq : r.entryCollection = .entryStore S.entries

theorem Recovered.yields {v : LogView} {r : ReplayResult}
    (h : Recovered codecs J.current v (.entryStore []) r) (hstores : J.Stores metadata S)
    (hshown : J.Shown 0 S.entries v)
    (hview : LogView.empty.applySegments 0 (J.closed ++ [J.current]) = some v) :
    Yields metadata S r := by
  refine ⟨h.metadata.trans (hshown.metadata.trans hstores.metadata_eq),
    h.hardState.trans (hshown.hardState.trans hstores.hardState_eq), ?_, ?_⟩
  · rw [h.snapshots, LogView.applySegments_snapshots hview, ← hstores.snapshots_eq]
    rfl
  have hentries := h.entries
  have hclear := h.clear_eq
  cases hc : r.entryCollection with
  | entryStore es =>
    rw [hc] at hentries
    rw [← hshown.entries.exact rfl]
    exact congrArg EntryCollection.entryStore hentries
  | indexedEntryStore xs | nopEntryStore =>
    rw [hc] at hclear
    cases hclear

/-- One to seven bytes of preallocated space are left behind the last record: not enough for a
header, which the decoder takes for a torn record. -/
def ShortTail (chunkSize offset : Nat) : Prop :=
  offset < chunkSize ∧ chunkSize < offset + headerSize

instance (chunkSize offset : Nat) : Decidable (ShortTail chunkSize offset) :=
  inferInstanceAs (Decidable (_ ∧ _))

theorem Journal.Fresh.decode_tail (h : J.Fresh codecs chunkSize) (pool : ByteSlicePool) :
    decode pool J.tail = .error (if ShortTail chunkSize (J.offset codecs) then .unexpectedEOF
      else .eof) := by
  have hiff : 0 < chunkSize - (contents codecs J.current.records).length ∧
      chunkSize - (contents codecs J.current.records).length < headerSize ↔
      ShortTail chunkSize (J.offset codecs) := by
    rw [ShortTail, Journal.offset, headerSize]
    omega
  rw [h, Journal.freshTail, decode_zeros]
  simp only [hiff]

/-- The player finds the metadata and the state in the directory. -/
def ReplayYields (codecs : RaftCodecs) (pool : ByteSlicePool) (dir : Directory) (repair : Bool)
    (metadata : Bytes) (S : LogState) : Prop :=
  ∃ p dir' r, Player.create dir 0 pool = .ok p ∧
    p.replay codecs dir (.newReplayResult (.entryStore [])) repair = (dir', r, none) ∧
    Yields metadata S r

theorem Journal.Stores.replayYields_iff (h : J.Stores metadata S)
    (hfresh : J.Fresh codecs chunkSize) (hat : SegmentsAt codecs dir J.closed J.current J.tail)
    (hfits : ∀ s ∈ J.segments, ∀ r ∈ s.records, r.Fits codecs pool)
    (hvisible : ∀ s ∈ J.segments, AllVisible codecs 0 s.records) (repair : Bool) :
    ReplayYields codecs pool dir repair metadata S ↔
      repair = true ∨ ¬ ShortTail chunkSize (J.offset codecs) := by
  obtain ⟨p, v, hp, rfl, hplay, hview, hshown⟩ := h.playable hat hfits hvisible
  have hempty : (EntryCollection.entryStore []).IsEmpty := rfl
  have htail := hfresh.decode_tail p.memPool
  by_cases hshort : ShortTail chunkSize (J.offset codecs)
  · rw [if_pos hshort] at htail
    cases repair with
    | false =>
      obtain ⟨r, hr⟩ := hplay.replay_error hempty (.of_decode htail) (by decide)
      simp only [hshort, not_true_eq_false, or_false, iff_false, reduceCtorEq]
      rintro ⟨q, dir', r', hq, hr', -⟩
      cases hp.symm.trans hq
      cases hr.symm.trans hr'
    | true =>
      obtain ⟨r, hr, hrecovered⟩ := hplay.replay_repair hempty (fun s hs => hat.name_ne hs)
        (.of_decode htail) rfl
      simp only [true_or, iff_true]
      exact ⟨p, _, r, hp, hr, hrecovered.yields h hshown hview⟩
  · rw [if_neg hshort] at htail
    obtain ⟨r, hr, hrecovered⟩ := hplay.replay_eof hempty (.of_decode htail) repair
    simp only [hshort, not_false_eq_true, or_true, iff_true]
    exact ⟨p, _, r, hp, hr, hrecovered.yields h hshown hview⟩

/-- A replay of a closed log yields exactly what was saved, unless it must not repair and the
preallocated space ends in the middle of a header. -/
theorem replay_yields_saves_iff {w₀ w : Wal} {dir₀ dir dir' : Directory} {saves : List SaveArgs}
    (repair : Bool)
    (hcreate : createWal codecs metadata (.newManager cfg pool) ∅ = .ok (w₀, dir₀))
    (hsaves : saveAll codecs (w₀, dir₀) saves = .ok (w, dir)) (hclose : w.close dir = .ok dir')
    (hvalid : ValidSaves [] saves)
    (hvisible : ∀ s ∈ ((Journal.create codecs cfg.logFileChunkSize metadata).saveAll codecs
      cfg.logFileChunkSize saves).segments, AllVisible codecs 0 s.records) :
    ReplayYields codecs pool dir' repair metadata (LogState.initial.saveAll saves) ↔
      repair = true ∨ ¬ ShortTail cfg.logFileChunkSize w.currentLogFile.offset := by
  have hrep := saveAll_represents (createWal_represents hcreate).1 hsaves
  have hstores := (Journal.stores_create codecs cfg.logFileChunkSize metadata).saveAll codecs
    cfg.logFileChunkSize hvalid
  have hcreated : (Journal.create codecs cfg.logFileChunkSize metadata).Fresh codecs
    cfg.logFileChunkSize := rfl
  rw [LogFile.offset, hrep.holds.offset_eq]
  exact hstores.replayYields_iff hcreated.saveAll (close_segmentsAt hrep hclose) hrep.fits
    hvisible repair

def smallConfig (chunkSize : Nat) : ManagerConfig := ⟨chunkSize, 16, 32⟩

def smallPool : ByteSlicePool := ⟨[64]⟩

def replayErrorAfter (chunkSize : Nat) (saves : List SaveArgs) (repair : Bool) :
    Except WalError (Option WalError) := do
  let s ← createWal .unary [1, 2, 3, 4] (.newManager (smallConfig chunkSize) smallPool) ∅
  let s ← saveAll .unary s saves
  let dir ← s.1.close s.2
  let p ← Player.create dir 0 smallPool
  return (p.replay .unary dir (.newReplayResult (.entryStore [])) repair).2.2

theorem replay_short_tail_fails :
    ∃ w₀ dir₀ w dir dir',
      createWal .unary [1, 2, 3, 4] (.newManager (smallConfig 168) smallPool) ∅ =
        .ok (w₀, dir₀) ∧
      saveAll .unary (w₀, dir₀) [(⟨1, 1, 1⟩, [⟨1, 1, .normal, [7]⟩])] = .ok (w, dir) ∧
      w.close dir = .ok dir' ∧ ValidSaves [] [(⟨1, 1, 1⟩, [⟨1, 1, .normal, [7]⟩])] ∧
      ¬ ReplayYields .unary smallPool dir' false [1, 2, 3, 4]
        ⟨⟨1, 1, 1⟩, [.empty], [⟨1, 1, .normal, [7]⟩]⟩ := by
  have h : replayErrorAfter 168 [(⟨1, 1, 1⟩, [⟨1, 1, .normal, [7]⟩])] false =
      .ok (some .unexpectedEOF) := by decide +kernel
  obtain ⟨⟨w₀, dir₀⟩, hcreate, h⟩ := bind_eq_ok.mp h
  obtain ⟨⟨w, dir⟩, hsaves, h⟩ := bind_eq_ok.mp h
  obtain ⟨dir', hclose, h⟩ := bind_eq_ok.mp h
  obtain ⟨p, hp, h⟩ := bind_eq_ok.mp h
  refine ⟨w₀, dir₀, w, dir, dir', hcreate, hsaves, hclose,
    ⟨⟨⟨1, by decide, by decide, by decide⟩, by decide, by decide⟩, trivial⟩, ?_⟩
  rintro ⟨q, dir'', r, hq, hr, -⟩
  cases hp.symm.trans hq
  rw [hr] at h
  cases h

theorem replay_yields_saves_overwrite :
    ∃ w₀ dir₀ w dir dir',
      createWal .unary [1, 2, 3, 4] (.newManager (smallConfig 168) smallPool) ∅ =
        .ok (w₀, dir₀) ∧
      saveAll .unary (w₀, dir₀) [(⟨1, 1, 0⟩, [⟨1, 1, .normal, [7]⟩, ⟨1, 2, .normal, []⟩]),
        (⟨2, 1, 1⟩, [⟨2, 2, .confChange, [8]⟩])] = .ok (w, dir) ∧
      w.close dir = .ok dir' ∧
      (ReplayYields .unary smallPool dir' false [1, 2, 3, 4]
          ⟨⟨2, 1, 1⟩, [.empty], [⟨1, 1, .normal, [7]⟩, ⟨2, 2, .confChange, [8]⟩]⟩ ↔
        false = true ∨ ¬ ShortTail 168 w.currentLogFile.offset) := by
  have h : replayErrorAfter 168 [(⟨1, 1, 0⟩, [⟨1, 1, .normal, [7]⟩, ⟨1, 2, .normal, []⟩]),
      (⟨2, 1, 1⟩, [⟨2, 2, .confChange, [8]⟩])] false = .ok none := by decide +kernel
  obtain ⟨⟨w₀, dir₀⟩, hcreate, h⟩ := bind_eq_ok.mp h
  obtain ⟨⟨w, dir⟩, hsaves, h⟩ := bind_eq_ok.mp h
  obtain ⟨dir', hclose, -⟩ := bind_eq_ok.mp h
  refine ⟨w₀, dir₀, w, dir, dir', hcreate, hsaves, hclose,
    replay_yields_saves_iff false hcreate hsaves hclose ?_ (by decide +kernel)⟩
  exact ⟨⟨⟨1, by decide, by decide, by decide⟩, by decide, by decide⟩,
    ⟨⟨2, by decide, by decide, by decide⟩, by decide, by decide⟩, trivial⟩

end Replay

end Babuza.Babuzawal
