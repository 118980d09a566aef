import Babuza.Babuzawal.Reopen
import Mathlib.Data.List.Infix

/-!
# Runs with restarts

A node closes its log, finds it again with `ReplayWal` from a snapshot and goes on. `ReplayWal`
reads the files from the last one on that starts at or below the snapshot, so it depends on the
start index in the name of a file, which `cycle` takes from the index of the last entry that the
log has seen. `OpenWal` does not restore that index. `RunOp.restored` says when it is known again,
and a run brings every entry back exactly as long as no file is created before.
-/

namespace Babuza.Babuzawal

open Lib Allocator Walbase List

/-- `ReplayWal`: the result of the player and the opened log, with its entry storage unless the
entry index is disabled. -/
def reopenWal (codecs : RaftCodecs) (options : Options) (memPool : ByteSlicePool) (dir : Directory)
    (snapshot : Option Snapshot) : Except WalError (ReplayResult × Wal × Directory) := do
  let (result, wal, dir) ← replayWal codecs dir snapshot options memPool
  if options.disableEntryIndex then
    return (result, wal, dir)
  else
    let (result, es) ← replayEntryStorage snapshot false result
    return (result, wal.setEntryIndexStorage es, dir)

inductive RunOp
  | write (op : WalOp)
  | restart (snapshot : Option Snapshot)

/-- The journal of a log that is closed and opened again; a torn tail is cut off. -/
def Journal.restart (pool : ByteSlicePool) (J : Journal) : Journal :=
  J.reopen (match decode pool J.tail with
    | .error .eof => J.tail
    | _ => [])

namespace RunOp

variable (codecs : RaftCodecs) (options : Options) (pool : ByteSlicePool)

def exec (s : Wal × Directory) : RunOp → Except WalError (Wal × Directory)
  | write op => op.exec codecs s
  | restart snapshot => do
    let dir ← s.1.close s.2
    let (_, wal, dir) ← reopenWal codecs options pool dir snapshot
    return (wal, dir)

def journal (J : Journal) : RunOp → Journal
  | write op => op.journal codecs options.walLogFileChunkSize J
  | restart _ => J.restart pool

def state (S : LogState) : RunOp → LogState
  | write op => op.state S
  | restart _ => S

/-- A snapshot is not above the last entry. -/
def Valid (S : LogState) : RunOp → Prop
  | write (.save st entries) => (WalOp.save st entries).Valid S
  | write (.saveSnapshot snapshot) => snapshot.metadata.index ≤ S.entries.length
  | restart _ => True

def AllValid : LogState → List RunOp → Prop
  | _, [] => True
  | S, op :: ops => op.Valid S ∧ AllValid (op.state S) ops

/-- Whether the log knows the index of its last entry: a restart forgets it, until entries are
saved or a snapshot at that index. -/
def restored (S : LogState) (known : Bool) : RunOp → Bool
  | write (.save _ entries) => known || !entries.isEmpty
  | write (.saveSnapshot snapshot) => known || snapshot.metadata.index == S.entries.length
  | restart _ => S.entries.isEmpty

def Rotates (J : Journal) : RunOp → Prop
  | write (.save st entries) => options.walLogFileChunkSize <
      Journal.offset codecs ((J.saveEntries codecs entries).saveHardState codecs st)
  | _ => False

/-- No file is created while the index of the last entry is not known. -/
def RotatesRestored : Journal → LogState → Bool → List RunOp → Prop
  | _, _, _, [] => True
  | J, S, known, op :: ops =>
    (op.Rotates codecs options J → op.restored S known = true) ∧
      RotatesRestored (op.journal codecs options pool J) (op.state S) (op.restored S known) ops

/-- Every file that is created starts behind the last entry logged before it. -/
def FilesStartRight : Wal × Directory → LogState → List RunOp → Prop
  | _, _, [] => True
  | s, S, op :: ops => ∀ s', op.exec codecs options pool s = .ok s' →
    (s'.1.currentLogFile.name ≠ s.1.currentLogFile.name →
      s'.1.currentLogFile.name.startLogIndex = (op.state S).entries.length + 1) ∧
    FilesStartRight s' (op.state S) ops

end RunOp

/-! ## The index of the last entry -/

variable {snapshotIndex : Nat} {entries : List Entry} {pre : List Segment}

namespace Journal

variable {J : Journal} {log : List Entry}

theorem lastEntryIndex_saveEntries (codecs : RaftCodecs) (hne : entries ≠ [])
    (hvalid : ValidBatch log.length entries) :
    (J.saveEntries codecs entries).state.lastEntryIndex =
      (truncAppend Entry.index 0 log entries).length := by
  have h := saveEntries_induction codecs (J := J)
    (P := fun done J log => done ≠ [] → J.state.lastEntryIndex = log.length)
    (fun {done J log e} _ _ _ hpos hle _ => by
      show e.index = (log.take (e.index - 0 - 1) ++ [e]).length
      rw [length_append, length_take, length_singleton]
      omega)
    [] (fun h => absurd rfl h) hvalid
  exact h hne

theorem lastEntryIndex_saveHardState (codecs : RaftCodecs) (J : Journal) (st : HardState) :
    (J.saveHardState codecs st).state.lastEntryIndex = J.state.lastEntryIndex := by
  rw [saveHardState]
  split <;> rfl

theorem ReadsFrom.reopen (h : ReadsFrom snapshotIndex pre J log) (tail : Bytes) :
    ReadsFrom snapshotIndex pre (J.reopen tail) log := by
  obtain ⟨v, hv, hshown⟩ := h
  exact ⟨v, hv, { hshown with }⟩

/-- A reader from the snapshot index may start at the file with number `k`. -/
def ReadableFrom (J : Journal) (k snapshotIndex : Nat) : Prop :=
  k = 0 ∨ ∃ start, J.starts[k]? = some start ∧ start ≤ snapshotIndex

/-- Readers from every snapshot find the log, and the index of the last entry is right when it is
known and too small when it is not. -/
structure Tracks (pool : ByteSlicePool) (S : LogState) (known : Bool) (J : Journal) : Prop where
  wellFormed : J.WellFormed
  reads : ∀ k snapshotIndex, k ≤ J.closed.length → J.ReadableFrom k snapshotIndex →
    ReadsFrom snapshotIndex (J.closed.drop k) J S.entries
  last_eq : known = true → J.state.lastEntryIndex = S.entries.length
  last_lt : known = false → J.state.lastEntryIndex < S.entries.length
  blank : Blank pool J.tail

section Tracks

variable {codecs : RaftCodecs} {pool : ByteSlicePool} {S : LogState} {known : Bool}

theorem tracks_create (codecs : RaftCodecs) (pool : ByteSlicePool) (chunkSize : Nat)
    (metadata : Bytes) : Tracks pool .initial true (create codecs chunkSize metadata) := by
  refine ⟨(stores_create codecs chunkSize metadata).wellFormed, ?_, fun _ => rfl, nofun,
    blank_zeros pool _⟩
  intro k snapshotIndex hk _
  rw [Nat.le_zero.mp hk]
  exact ⟨_, rfl, rfl, rfl, rfl, .inl rfl, by simp [LogState.initial], fun _ => rfl⟩

theorem Tracks.of_grows {J' : Journal} {S' : LogState} {known' : Bool} (h : Tracks pool S known J)
    (hgrows : Grows codecs J J') (hwf : J'.WellFormed)
    (hreads : ∀ snapshotIndex pre, ReadsFrom snapshotIndex pre J S.entries →
      ReadsFrom snapshotIndex pre J' S'.entries)
    (hlast : known' = true → J'.state.lastEntryIndex = S'.entries.length)
    (hlt : known' = false → J'.state.lastEntryIndex < S'.entries.length) :
    Tracks pool S' known' J' := by
  refine ⟨hwf, ?_, hlast, hlt, hgrows.blank h.blank⟩
  intro k snapshotIndex hk hfrom
  rw [hgrows.closed_eq] at hk ⊢
  rw [ReadableFrom, hgrows.starts_eq] at hfrom
  exact hreads _ _ (h.reads k snapshotIndex hk hfrom)

theorem Tracks.saveEntries (h : Tracks pool S known J) (codecs : RaftCodecs)
    (hvalid : ValidBatch S.entries.length entries) :
    Tracks pool { S with entries := truncAppend Entry.index 0 S.entries entries }
      (known || !entries.isEmpty) (J.saveEntries codecs entries) := by
  cases entries with
  | nil =>
    rwa [isEmpty_nil, Bool.not_true, Bool.or_false]
  | cons e entries =>
    refine h.of_grows (.saveEntries _) (h.wellFormed.saveEntries codecs hvalid)
      (fun _ _ hreads => hreads.saveEntries codecs hvalid)
      (fun _ => lastEntryIndex_saveEntries codecs (cons_ne_nil e entries) hvalid) ?_
    simp

theorem Tracks.saveHardState (h : Tracks pool S known J) (codecs : RaftCodecs) (st : HardState)
    {S' : LogState} (hS' : S'.entries = S.entries) :
    Tracks pool S' known (J.saveHardState codecs st) := by
  refine h.of_grows (.saveHardState st) (h.wellFormed.saveHardState codecs st) ?_ ?_ ?_
  · intro _ _ hreads
    rw [hS']
    exact hreads.saveHardState codecs st
  · rw [lastEntryIndex_saveHardState, hS']
    exact h.last_eq
  · rw [lastEntryIndex_saveHardState, hS']
    exact h.last_lt

theorem Tracks.rotate (h : Tracks pool S true J) (codecs : RaftCodecs) (chunkSize : Nat) :
    Tracks pool S true (J.rotate codecs chunkSize) := by
  refine ⟨h.wellFormed.rotate codecs chunkSize, ?_, h.last_eq, nofun, blank_zeros pool _⟩
  intro k snapshotIndex hk hfrom
  have hk' : k ≤ (J.closed ++ [J.current]).length := hk
  rw [length_append, length_singleton] at hk'
  show ReadsFrom snapshotIndex ((J.closed ++ [J.current]).drop k) _ _
  rcases Nat.lt_or_ge J.closed.length k with hnew | hold
  · obtain rfl : k = J.closed.length + 1 := by omega
    rw [drop_eq_nil_of_le (by rw [length_append, length_singleton])]
    rcases hfrom with hzero | ⟨start, hstart, hle⟩
    · omega
    · have hlen : J.starts.length = J.closed.length + 1 := by simp [starts, segments]
      rw [starts_rotate, ← hlen, getElem?_concat_length, Option.some.injEq] at hstart
      have hlast := h.last_eq rfl
      exact ReadsFrom.rotate_fresh codecs J chunkSize (by omega) (by omega)
  · rw [drop_append_of_le_length hold]
    rw [ReadableFrom, starts_rotate, getElem?_append_left
      (by simpa [starts, segments] using by omega)] at hfrom
    exact (h.reads k snapshotIndex hold hfrom).rotate codecs chunkSize

theorem Tracks.saveSnapshot (h : Tracks pool S known J) (codecs : RaftCodecs) {snapshot : Snapshot}
    (hle : snapshot.metadata.index ≤ S.entries.length) :
    Tracks pool (S.saveSnapshot snapshot)
      (known || snapshot.metadata.index == S.entries.length)
      (J.saveSnapshot codecs snapshot) := by
  have hmax : (J.saveSnapshot codecs snapshot).state.lastEntryIndex =
      max J.state.lastEntryIndex snapshot.metadata.index := rfl
  have hbound : J.state.lastEntryIndex ≤ S.entries.length := by
    cases hknown : known with
    | true => exact (h.last_eq hknown).le
    | false => exact (h.last_lt hknown).le
  refine h.of_grows (.saveSnapshot snapshot) (h.wellFormed.saveSnapshot codecs snapshot)
    (fun _ _ hreads => hreads.saveSnapshot codecs snapshot) ?_ ?_
  · intro hknown
    rw [hmax]
    show _ = S.entries.length
    rcases Bool.or_eq_true_iff.mp hknown with hknown | heq
    · rw [h.last_eq hknown]
      omega
    · rw [beq_iff_eq] at heq
      omega
  · intro hknown
    obtain ⟨hknown, hne⟩ := Bool.or_eq_false_iff.mp hknown
    have hlt := h.last_lt hknown
    rw [beq_eq_false_iff_ne] at hne
    rw [hmax]
    show _ < S.entries.length
    omega

theorem blank_restart (hblank : Blank pool J.tail) : Blank pool (J.restart pool).tail := by
  simp only [restart, reopen]
  split
  · exact hblank
  · exact blank_zeros pool 0

theorem Tracks.restart (h : Tracks pool S known J) :
    Tracks pool S S.entries.isEmpty (J.restart pool) := by
  refine ⟨{ h.wellFormed with },
    fun k snapshotIndex hk hfrom => (h.reads k snapshotIndex hk hfrom).reopen _, ?_, ?_,
    blank_restart h.blank⟩
  · intro hempty
    rw [isEmpty_iff.mp hempty]
    rfl
  · intro hne
    show 0 < S.entries.length
    rw [length_pos_iff]
    rintro hnil
    rw [hnil] at hne
    cases hne

end Tracks

end Journal

/-- The index of the entries a reader collects: consecutive, and right above the snapshot. -/
def LogView.Aligned (snapshotIndex : Nat) (v : LogView) : Prop :=
  Consecutive Entry.index (snapshotIndex + 1) v.entries

theorem decodeInto_consecutive {α : Type} {index : α → Nat} {i : Nat} {x : α} {xs xs' : List α}
    (h : Consecutive index (snapshotIndex + 1) xs)
    (hdecode : decodeInto snapshotIndex i x xs = some xs') (hx : index x = i) :
    Consecutive index (snapshotIndex + 1) xs' := by
  rw [decodeInto] at hdecode
  split at hdecode
  · dsimp only at hdecode
    split at hdecode <;> cases hdecode
    refine consecutive_append.mpr ⟨h.take _, consecutive_cons.mpr ⟨?_, consecutive_nil⟩⟩
    rw [length_take]
    omega
  · cases hdecode
    exact h

variable {v v' : LogView}

theorem LogView.Aligned.apply {r : Record} (h : v.Aligned snapshotIndex)
    (happly : v.apply snapshotIndex r = some v') : v'.Aligned snapshotIndex := by
  cases r with
  | entry type data =>
    rw [LogView.apply] at happly
    split at happly
    · obtain ⟨entries, hdecode, rfl⟩ := Option.map_eq_some_iff.mp happly
      exact decodeInto_consecutive h hdecode rfl
    · cases happly
  | crc | metadata | hardState | snapshot | nextEntry =>
    cases happly
    exact h

theorem LogView.Aligned.applyAll {rs : List Record} (h : v.Aligned snapshotIndex)
    (happly : v.applyAll snapshotIndex rs = some v') : v'.Aligned snapshotIndex := by
  induction rs generalizing v with
  | nil =>
    cases happly
    exact h
  | cons r rs ih =>
    obtain ⟨u, hu, happly⟩ := Option.bind_eq_some_iff.mp happly
    exact ih (h.apply hu) happly

theorem LogView.Aligned.applySegments {segs : List Segment} (h : v.Aligned snapshotIndex)
    (happly : v.applySegments snapshotIndex segs = some v') : v'.Aligned snapshotIndex := by
  induction segs generalizing v with
  | nil =>
    cases happly
    exact h
  | cons s segs ih =>
    obtain ⟨u, hu, happly⟩ := Option.bind_eq_some_iff.mp happly
    have hstart : v.startFile.Aligned snapshotIndex := h
    exact ih (hstart.applyAll hu) happly

/-! ## `ReplayWal` from a snapshot -/

def startIndex (snapshot : Option Snapshot) : Nat :=
  ((snapshot.map Snapshot.toWal).getD .empty).index

section Replay

variable {codecs : RaftCodecs} {pool : ByteSlicePool} {dir : Directory} {J : Journal}
  {S : LogState} {known : Bool}

theorem Suffix.drop_eq {snapIndex : Nat} {closed : List Segment} {current : Segment}
    {skipped read : List Segment} (h : Suffix snapIndex (closed ++ [current]) skipped read) :
    skipped.length ≤ closed.length ∧ read = closed.drop skipped.length ++ [current] := by
  have hne : read ≠ [] := by
    rintro rfl
    rcases h.start_le with rfl | ⟨s, rest, hcons, -⟩
    · have hlen := congrArg List.length h.eq_append
      simp at hlen
    · cases hcons
  have hlen := congrArg List.length h.eq_append
  rw [length_append, length_append, length_singleton] at hlen
  have hpos := length_pos_iff.mpr hne
  have hle : skipped.length ≤ closed.length := by omega
  refine ⟨hle, ?_⟩
  rw [← drop_append_of_le_length hle, h.eq_append, drop_left]

theorem newCollection_isEmpty (options : Options) : options.newCollection.IsEmpty := by
  rw [Options.newCollection]
  split <;> rfl

theorem newCollection_isNop (options : Options) : options.newCollection.isNop = false := by
  rw [Options.newCollection]
  split <;> rfl

variable {snapshot : Option Snapshot}

theorem Playable.replayWal_eq {p : Player} {log : List Entry}
    (hplay : Playable codecs p dir pre J.current J.tail v)
    (hp : Player.create dir (startIndex snapshot) pool = .ok p) (hpool : p.memPool = pool)
    (hpre : ∀ s ∈ pre, s ∈ J.closed) (hshown : J.Shown (startIndex snapshot) log v)
    (hblank : Blank pool J.tail) (hat : SegmentsAt codecs dir J.closed J.current J.tail)
    (hfits : ∀ s ∈ J.segments, ∀ r ∈ s.records, r.Fits codecs pool) (options : Options) :
    ∃ result w dir', replayWal codecs dir snapshot options pool = .ok (result, w, dir') ∧
      p.replay codecs dir (.newReplayResult options.newCollection) true = (dir', result, none) ∧
      Represents codecs options.managerConfig pool w dir' (J.restart pool) ∧
      Recovered codecs J.current v options.newCollection result := by
  subst hpool
  have hempty := newCollection_isEmpty options
  have hnop := newCollection_isNop options
  have hreplay : ∃ dir' r, p.replay codecs dir (.newReplayResult options.newCollection) true =
        (dir', r, none) ∧ Recovered codecs J.current v options.newCollection r ∧
      SegmentsAt codecs dir' J.closed J.current (J.restart p.memPool).tail := by
    rcases hblank.stops with heof | hshort
    · obtain ⟨r, hr, hrecovered⟩ := hplay.replay_eof hempty (.of_decode heof) true
      refine ⟨dir, r, hr, hrecovered, ?_⟩
      simp only [Journal.restart, Journal.reopen, heof]
      exact hat
    · obtain ⟨r, hr, hrecovered⟩ := hplay.replay_repair hempty
        (fun s hs => hat.name_ne (hpre s hs)) (.of_decode hshort) rfl
      refine ⟨_, r, hr, hrecovered, ?_⟩
      simp only [Journal.restart, Journal.reopen, hshort]
      exact hat.repaired
  obtain ⟨dir', r, hr, hrecovered, hat'⟩ := hreplay
  obtain ⟨m, w, hscan, hopen, hrep⟩ := openWal_represents options.managerConfig hat' hfits
    hrecovered hnop hshown (startIndex snapshot)
  refine ⟨r, w, dir', ?_, hr, hrep, hrecovered⟩
  rw [startIndex] at hp hscan
  simp only [replayWal, hp, ok_bind, hr, hscan, hopen]
  rfl

theorem startIndex_eq (snapshot : Option Snapshot) :
    startIndex snapshot = (snapshot.map (·.metadata.index)).getD 0 := by
  cases snapshot <;> rfl

theorem replayEntryStorage_eq {current : Segment} {r : ReplayResult}
    (hrecovered : Recovered codecs current v (.indexedEntryStore []) r)
    (haligned : v.Aligned (startIndex snapshot)) :
    ∃ es, replayEntryStorage snapshot false r = .ok (r, es) := by
  have hentries := hrecovered.entries
  have hconsecutive : Consecutive EntryIndex.index (startIndex snapshot + 1)
      r.entryCollection.entriesIndex := by
    have hclear := hrecovered.clear_eq
    cases hc : r.entryCollection with
    | entryStore es | nopEntryStore =>
      rw [hc] at hclear
      cases hclear
    | indexedEntryStore xs =>
      rw [hc] at hentries
      have hlen : xs.length = v.entries.length := by simpa using congrArg List.length hentries
      have hindex := congrArg (List.map fun head : Nat × Nat × EntryType => head.2.1) hentries
      rw [map_map, map_map] at hindex
      have heq : xs.map EntryIndex.index = v.entries.map Entry.index := hindex
      rwa [EntryCollection.entriesIndex, Consecutive, heq, hlen]
  obtain ⟨es, happend, -⟩ :=
    EntryStorage.ofSnapshot_appendEntryIndex snapshot r.hardState (startIndex_eq _ ▸ hconsecutive)
  refine ⟨es, ?_⟩
  simp only [replayEntryStorage, Bool.false_eq_true, if_false, ok_bind, happend]
  rfl

/-- `ReplayWal` from any snapshot returns the entries above it. -/
def ReplayReturns (codecs : RaftCodecs) (options : Options) (pool : ByteSlicePool)
    (dir : Directory) (snapshot : Option Snapshot) (log : List Entry) : Prop :=
  ∃ result w dir' entries, reopenWal codecs options pool dir snapshot = .ok (result, w, dir') ∧
    result.entryCollection.Agrees entries ∧ log.drop (startIndex snapshot) <+: entries

section

variable (h : J.Tracks pool S known) (hat : SegmentsAt codecs dir J.closed J.current J.tail)
  (hfits : ∀ s ∈ J.segments, ∀ r ∈ s.records, r.Fits codecs pool)
  (hvisible : ∀ s ∈ J.segments, AllVisible codecs 0 s.records)
include h hat hfits hvisible

theorem Journal.Tracks.playable (snapIndex : Nat) :
    ∃ p pre v, Player.create dir snapIndex pool = .ok p ∧ p.memPool = pool ∧
      (∀ s ∈ pre, s ∈ J.closed) ∧ Playable codecs p dir pre J.current J.tail v ∧
      J.Shown snapIndex S.entries v ∧ v.Aligned snapIndex := by
  obtain ⟨skipped, read, hsuffix, hread⟩ := hat.readValidLogFiles_eq snapIndex
  obtain ⟨hle, rfl⟩ := hsuffix.drop_eq
  have hfrom : J.ReadableFrom skipped.length snapIndex := by
    rcases hsuffix.start_le with hnil | ⟨s, rest, hcons, hstart⟩
    · exact .inl (by rw [hnil, length_nil])
    · refine .inr ⟨s.startLogIndex, ?_, hstart⟩
      rw [Journal.starts, Journal.segments, hsuffix.eq_append, hcons, getElem?_map]
      simp
  obtain ⟨v, hv, hshown⟩ := h.reads skipped.length snapIndex hle hfrom
  refine ⟨⟨(J.closed.drop skipped.length ++ [J.current]).map Segment.desc, snapIndex, pool⟩,
    J.closed.drop skipped.length, v, ?_, rfl, fun s hs => mem_of_mem_drop hs, ?_, hshown,
    (show LogView.empty.Aligned snapIndex from consecutive_nil).applySegments hv⟩
  · rw [Player.create, hread]
    rfl
  · refine ⟨rfl, fun s hs => hat.lookup_closed s (mem_of_mem_drop hs), hat.lookup_current,
      fun s hs => ?_, hv⟩
    have hmem : s ∈ J.segments := by
      rcases List.mem_append.mp hs with hs | hs
      · exact mem_append_left _ (mem_of_mem_drop hs)
      · exact mem_append_right _ hs
    obtain ⟨crc, rest, hrecords, -⟩ := h.wellFormed.crc_first s hmem
    exact ⟨⟨crc, rest, hrecords⟩, h.wellFormed.readable s hmem, hfits s hmem, hvisible s hmem⟩

theorem Journal.Tracks.replayWal_eq (options : Options) (snapshot : Option Snapshot) :
    ∃ result w dir' v, replayWal codecs dir snapshot options pool = .ok (result, w, dir') ∧
      Represents codecs options.managerConfig pool w dir' (J.restart pool) ∧
      Recovered codecs J.current v options.newCollection result ∧
      J.Shown (startIndex snapshot) S.entries v ∧ v.Aligned (startIndex snapshot) := by
  obtain ⟨p, pre, v, hp, hpool, hpre, hplay, hshown, haligned⟩ := h.playable hat hfits hvisible
    (startIndex snapshot)
  obtain ⟨result, w, dir', hreplay, -, hrep, hrecovered⟩ := hplay.replayWal_eq hp hpool hpre hshown
    h.blank hat hfits options
  exact ⟨result, w, dir', v, hreplay, hrep, hrecovered, hshown, haligned⟩

theorem Journal.Tracks.reopenWal_eq (options : Options) (snapshot : Option Snapshot) :
    ∃ result w dir' entries, reopenWal codecs options pool dir snapshot = .ok (result, w, dir') ∧
      Represents codecs options.managerConfig pool w dir' (J.restart pool) ∧
      result.entryCollection.Agrees entries ∧
      S.entries.drop (startIndex snapshot) <+: entries := by
  obtain ⟨result, w, dir', v, hreplay, hrep, hrecovered, hshown, haligned⟩ :=
    h.replayWal_eq hat hfits hvisible options snapshot
  by_cases hdisabled : options.disableEntryIndex = true
  · refine ⟨result, w, dir', v.entries, ?_, hrep, hrecovered.entries, hshown.entries.above⟩
    simp only [reopenWal, hreplay, ok_bind, hdisabled, if_true]
    rfl
  · rw [Options.newCollection, if_neg hdisabled] at hrecovered
    obtain ⟨es, hes⟩ := replayEntryStorage_eq hrecovered haligned
    refine ⟨result, w.setEntryIndexStorage es, dir', v.entries, ?_, hrep.setEntryIndexStorage _,
      hrecovered.entries, hshown.entries.above⟩
    simp only [reopenWal, hreplay, ok_bind, hdisabled, hes]
    rfl

end

end Replay

/-! ## Runs -/

section Run

variable {codecs : RaftCodecs} {options : Options} {pool : ByteSlicePool} {w w' : Wal}
  {dir dir' : Directory} {J : Journal} {S : LogState} {known : Bool} {op : RunOp}
  {ops : List RunOp}

theorem Journal.Tracks.saved (h : J.Tracks pool S known) (codecs : RaftCodecs) (st : HardState)
    (hvalid : ValidBatch S.entries.length entries) :
    ((J.saveEntries codecs entries).saveHardState codecs st).Tracks pool (S.save st entries)
      (known || !entries.isEmpty) :=
  (h.saveEntries codecs hvalid).saveHardState codecs st rfl

theorem Journal.Tracks.step (h : J.Tracks pool S known) (hvalid : op.Valid S)
    (hrestored : op.Rotates codecs options J → op.restored S known = true) :
    (op.journal codecs options pool J).Tracks pool (op.state S) (op.restored S known) := by
  cases op with
  | restart snapshot => exact h.restart
  | write op =>
    cases op with
    | saveSnapshot snapshot => exact h.saveSnapshot codecs hvalid
    | save st entries =>
      have hsaved := h.saved codecs st hvalid
      simp only [RunOp.journal, WalOp.journal, Journal.save]
      split
      · rename_i hrotates
        have hknown := hrestored hrotates
        rw [hknown]
        rw [RunOp.restored] at hknown
        rw [hknown] at hsaved
        exact hsaved.rotate codecs options.walLogFileChunkSize
      · exact hsaved

section

variable (hrep : Represents codecs options.managerConfig pool w dir J)
include hrep

theorem runOp_represents (h : J.Tracks pool S known)
    (hvisible : ∀ s ∈ J.segments, AllVisible codecs 0 s.records)
    (hexec : op.exec codecs options pool (w, dir) = .ok (w', dir')) :
    Represents codecs options.managerConfig pool w' dir' (op.journal codecs options pool J) := by
  cases op with
  | write op => exact exec_represents hrep hexec
  | restart snapshot =>
    obtain ⟨dir₁, hclose, hexec⟩ := bind_eq_ok.mp hexec
    obtain ⟨⟨result, w₁, dir₂⟩, hreopen, hpure⟩ := bind_eq_ok.mp hexec
    cases hpure
    obtain ⟨result', w'', dir'', entries, hreopen', hrep', -⟩ := h.reopenWal_eq
      (close_segmentsAt hrep hclose) hrep.fits hvisible options snapshot
    cases hreopen.symm.trans hreopen'
    exact hrep'

theorem start_eq_iff
    (hrep' : Represents codecs options.managerConfig pool w' dir'
      (op.journal codecs options pool J))
    (h : J.Tracks pool S known) (hvalid : op.Valid S) :
    (w'.currentLogFile.name ≠ w.currentLogFile.name →
      w'.currentLogFile.name.startLogIndex = (op.state S).entries.length + 1) ↔
    (op.Rotates codecs options J → op.restored S known = true) := by
  rw [hrep.name_eq, hrep'.name_eq]
  cases op with
  | restart snapshot => exact ⟨fun _ hrotates => hrotates.elim, fun _ hne => absurd rfl hne⟩
  | write op =>
    cases op with
    | saveSnapshot snapshot =>
      exact ⟨fun _ hrotates => hrotates.elim, fun _ hne => absurd rfl hne⟩
    | save st entries =>
      have hsaved := h.saved codecs st hvalid
      have hgrows : Journal.Grows codecs J
          ((J.saveEntries codecs entries).saveHardState codecs st) :=
        (Journal.Grows.saveEntries entries).trans (.saveHardState st)
      simp only [RunOp.journal, WalOp.journal, Journal.save, RunOp.Rotates, RunOp.restored,
        RunOp.state, WalOp.state]
      split
      · rename_i hrotates
        have hname : Segment.name (Journal.rotate codecs options.walLogFileChunkSize
            ((J.saveEntries codecs entries).saveHardState codecs st)).current ≠ J.current.name := by
          intro heq
          have hid := congrArg FileName.id heq
          have hid' : ((J.saveEntries codecs entries).saveHardState codecs st).current.id + 1 =
            J.current.id := hid
          rw [hgrows.id_eq] at hid'
          omega
        rw [forall_prop_of_true hname, forall_prop_of_true hrotates]
        show _ + 1 = _ ↔ _
        cases hknown : known || !entries.isEmpty with
        | true => simpa using hsaved.last_eq hknown
        | false =>
          have hlt := hsaved.last_lt hknown
          simp only [Nat.add_right_cancel_iff, Bool.false_eq_true, iff_false]
          omega
      · rename_i hrotates
        have hname : Segment.name
            ((J.saveEntries codecs entries).saveHardState codecs st).current = J.current.name := by
          simp only [Segment.name, Segment.desc, hgrows.id_eq, hgrows.start_eq]
        exact ⟨fun _ h => absurd h hrotates, fun _ hne => absurd hname hne⟩

theorem run_tracks (h : J.Tracks pool S known) (hvalid : RunOp.AllValid S ops)
    (hvisible : ∀ before, before <+: ops →
      ∀ s ∈ (before.foldl (RunOp.journal codecs options pool) J).segments,
      AllVisible codecs 0 s.records)
    (hrun : run (RunOp.exec codecs options pool) (w, dir) ops = .ok (w', dir')) :
    (RunOp.FilesStartRight codecs options pool (w, dir) S ops ↔
      RunOp.RotatesRestored codecs options pool J S known ops) ∧
    (RunOp.RotatesRestored codecs options pool J S known ops →
      Represents codecs options.managerConfig pool w' dir'
        (ops.foldl (RunOp.journal codecs options pool) J) ∧
      ∃ known', (ops.foldl (RunOp.journal codecs options pool) J).Tracks pool
        (ops.foldl RunOp.state S) known') := by
  induction ops generalizing w dir J S known with
  | nil =>
    cases hrun
    exact ⟨Iff.rfl, fun _ => ⟨hrep, known, h⟩⟩
  | cons op ops ih =>
    obtain ⟨⟨w₁, dir₁⟩, hexec, hrun⟩ := run_cons_eq_ok.mp hrun
    have hrep₁ := runOp_represents hrep h (hvisible [] List.nil_prefix) hexec
    have hstart := start_eq_iff hrep hrep₁ h hvalid.1
    have hstep : RunOp.FilesStartRight codecs options pool (w, dir) S (op :: ops) ↔
        (w₁.currentLogFile.name ≠ w.currentLogFile.name →
          w₁.currentLogFile.name.startLogIndex = (op.state S).entries.length + 1) ∧
        RunOp.FilesStartRight codecs options pool (w₁, dir₁) (op.state S) ops := by
      constructor
      · intro hall
        exact hall _ hexec
      · intro hone s' hs'
        cases hexec.symm.trans hs'
        exact hone
    have hnext := fun hrestored => ih hrep₁ (h.step hvalid.1 hrestored) hvalid.2
      (fun before hbefore => hvisible (op :: before) ((prefix_cons_inj op).mpr hbefore)) hrun
    rw [hstep, hstart, RunOp.RotatesRestored]
    exact ⟨and_congr_right fun hrestored => (hnext hrestored).1,
      fun hrestored => (hnext hrestored.1).2 hrestored.2⟩

end

theorem createWalInternal_represents {metadata : Bytes}
    (h : createWalInternal codecs metadata options pool = .ok (w, dir)) :
    Represents codecs options.managerConfig pool w dir
      (.create codecs options.walLogFileChunkSize metadata) := by
  obtain ⟨⟨w₁, dir₁⟩, hcreate, h⟩ := bind_eq_ok.mp h
  have hrep := (createWal_represents hcreate).1
  simp only at h
  split at h <;> cases h
  · exact hrep
  · exact hrep.setEntryIndexStorage _

/-- Every file starts behind the entries logged before it and every saved snapshot brings back the
entries above it, exactly if no file is created after a restart before the index of the last entry
is known again. -/
theorem replay_across_restarts_iff {w₀ : Wal} {dir₀ dir'' : Directory} {metadata : Bytes}
    (hcreate : createWalInternal codecs metadata options pool = .ok (w₀, dir₀))
    (hrun : run (RunOp.exec codecs options pool) (w₀, dir₀) ops = .ok (w, dir))
    (hclose : w.close dir = .ok dir'') (hvalid : RunOp.AllValid .initial ops)
    (hvisible : ∀ before, before <+: ops → ∀ s ∈ (before.foldl (RunOp.journal codecs options pool)
      (.create codecs options.walLogFileChunkSize metadata)).segments,
        AllVisible codecs 0 s.records) :
    (RunOp.FilesStartRight codecs options pool (w₀, dir₀) .initial ops ∧
      ∀ snapshot : Option Snapshot,
        (∀ snap ∈ snapshot, snap.toWal ∈ (ops.foldl RunOp.state .initial).snapshots) →
        ReplayReturns codecs options pool dir'' snapshot
          (ops.foldl RunOp.state .initial).entries) ↔
    RunOp.RotatesRestored codecs options pool
      (.create codecs options.walLogFileChunkSize metadata) .initial true ops := by
  have hrep := createWalInternal_represents hcreate
  have htracks := Journal.tracks_create codecs pool options.walLogFileChunkSize metadata
  obtain ⟨hstart, htracked⟩ := run_tracks hrep htracks hvalid hvisible hrun
  rw [hstart, and_iff_left_iff_imp]
  intro hrestored snapshot _
  obtain ⟨hrep', known', htracks'⟩ := htracked hrestored
  obtain ⟨result, w', dir', entries, hreopen, -, hagrees, habove⟩ := htracks'.reopenWal_eq
    (close_segmentsAt hrep' hclose) hrep'.fits (hvisible ops (prefix_refl ops)) options
    snapshot
  exact ⟨result, w', dir', entries, hreopen, hagrees, habove⟩

/-! ### Two runs -/

def smallOptions (chunkSize : Nat) : Options := ⟨chunkSize, 16, 32, true⟩

def replayedAfter (chunkSize : Nat) (ops : List RunOp) (snapshot : Option Snapshot) :
    Except WalError EntryCollection := do
  let s ← createWalInternal .unary [1, 2, 3, 4] (smallOptions chunkSize) smallPool
  let s ← run (RunOp.exec .unary (smallOptions chunkSize) smallPool) s ops
  let dir ← s.1.close s.2
  let (result, _, _) ← reopenWal .unary (smallOptions chunkSize) smallPool dir snapshot
  return result.entryCollection

def smallSnapshot (index : Nat) : Snapshot := ⟨[], ⟨.empty, index, 1⟩⟩

/-- Two entries, a snapshot of the first, a restart and a hard state that fills the file. -/
def forgottenOps : List RunOp :=
  [.write (.save ⟨1, 1, 0⟩ [⟨1, 1, .normal, [7]⟩, ⟨1, 2, .normal, [8]⟩]),
    .write (.saveSnapshot (smallSnapshot 1)), .restart none, .write (.save ⟨1, 1, 1⟩ [])]

theorem replay_after_restart_loses_entry :
    ∃ w₀ dir₀ w dir dir',
      createWalInternal .unary [1, 2, 3, 4] (smallOptions 210) smallPool = .ok (w₀, dir₀) ∧
      run (RunOp.exec .unary (smallOptions 210) smallPool) (w₀, dir₀) forgottenOps =
        .ok (w, dir) ∧
      w.close dir = .ok dir' ∧ RunOp.AllValid .initial forgottenOps ∧
      (smallSnapshot 1).toWal ∈ (forgottenOps.foldl RunOp.state .initial).snapshots ∧
      ¬ ReplayReturns .unary (smallOptions 210) smallPool dir' (some (smallSnapshot 1))
        (forgottenOps.foldl RunOp.state .initial).entries := by
  have h : replayedAfter 210 forgottenOps (some (smallSnapshot 1)) = .ok (.entryStore []) := by
    decide +kernel
  obtain ⟨⟨w₀, dir₀⟩, hcreate, h⟩ := bind_eq_ok.mp h
  obtain ⟨⟨w, dir⟩, hrun, h⟩ := bind_eq_ok.mp h
  obtain ⟨dir', hclose, h⟩ := bind_eq_ok.mp h
  obtain ⟨⟨result, w', dir''⟩, hreopen, hpure⟩ := bind_eq_ok.mp h
  refine ⟨w₀, dir₀, w, dir, dir', hcreate, hrun, hclose, ?_, by decide, ?_⟩
  · exact ⟨⟨⟨1, by decide, by decide, by decide⟩, by decide, by decide⟩, (by decide : 1 ≤ 2),
      trivial, ⟨⟨1, by decide, by decide, by decide⟩, by decide, by decide⟩, trivial⟩
  · rintro ⟨result', w'', dir₃, entries, hreopen', hagrees, habove⟩
    cases hreopen.symm.trans hreopen'
    have hempty : result.entryCollection = .entryStore [] := Except.ok.inj hpure
    rw [hempty] at hagrees
    cases hagrees
    exact absurd habove (by decide)

theorem replay_across_restarts_restored :
    ∃ w₀ dir₀ w dir dir',
      createWalInternal .unary [1, 2, 3, 4] (smallOptions 210) smallPool = .ok (w₀, dir₀) ∧
      run (RunOp.exec .unary (smallOptions 210) smallPool) (w₀, dir₀)
        [.write (.save ⟨1, 1, 0⟩ [⟨1, 1, .normal, [7]⟩, ⟨1, 2, .normal, [8]⟩]),
          .write (.saveSnapshot (smallSnapshot 1)), .restart (some (smallSnapshot 1)),
          .write (.save ⟨1, 1, 1⟩ [⟨1, 3, .normal, [9]⟩])] = .ok (w, dir) ∧
      w.close dir = .ok dir' ∧
      ReplayReturns .unary (smallOptions 210) smallPool dir' (some (smallSnapshot 1))
        [⟨1, 1, .normal, [7]⟩, ⟨1, 2, .normal, [8]⟩, ⟨1, 3, .normal, [9]⟩] := by
  let ops : List RunOp :=
    [.write (.save ⟨1, 1, 0⟩ [⟨1, 1, .normal, [7]⟩, ⟨1, 2, .normal, [8]⟩]),
      .write (.saveSnapshot (smallSnapshot 1)), .restart (some (smallSnapshot 1)),
      .write (.save ⟨1, 1, 1⟩ [⟨1, 3, .normal, [9]⟩])]
  have h : replayedAfter 210 ops (some (smallSnapshot 1)) =
      .ok (.entryStore [⟨1, 2, .normal, [8]⟩, ⟨1, 3, .normal, [9]⟩]) := by decide +kernel
  obtain ⟨⟨w₀, dir₀⟩, hcreate, h⟩ := bind_eq_ok.mp h
  obtain ⟨⟨w, dir⟩, hrun, h⟩ := bind_eq_ok.mp h
  obtain ⟨dir', hclose, -⟩ := bind_eq_ok.mp h
  refine ⟨w₀, dir₀, w, dir, dir', hcreate, hrun, hclose, ?_⟩
  have hvalid : RunOp.AllValid .initial ops :=
    ⟨⟨⟨1, by decide, by decide, by decide⟩, by decide, by decide⟩, (by decide : 1 ≤ 2), trivial,
      ⟨⟨3, by decide, by decide, by decide⟩, by decide, by decide⟩, trivial⟩
  have hvisible : ∀ before ∈ ops.inits, ∀ s ∈ (before.foldl (RunOp.journal .unary
      (smallOptions 210) smallPool) (.create .unary 210 [1, 2, 3, 4])).segments,
        AllVisible .unary 0 s.records := by decide +kernel
  have hiff := replay_across_restarts_iff hcreate hrun hclose hvalid
    fun before hbefore => hvisible before ((mem_inits before ops).mpr hbefore)
  refine (hiff.mpr ?_).2 (some (smallSnapshot 1)) (by decide)
  exact ⟨fun _ => rfl, fun _ => rfl, nofun, fun _ => rfl, trivial⟩

end Run

end Babuza.Babuzawal
