import Babuza.Babuzawal.DamagedTail

/-!
# The restart path

`loadWALSnapshot` and `replayWALAndSetup` of `raft/bootstrap.go` on the native log: `FindSnapshot`
lists the snapshot records, `LoadLastValidSnapshot` takes the last installed snapshot among them,
and `ReplayWal` opens the log from there, from a file that it chooses by the index in the name. Only
`Replay` cuts off a record with a wrong checksum; `FindSnapshot` accepts a torn one and nothing
else.
-/

namespace Babuza.Raft

open Lib Allocator Walbase Babuzawal

/-- `LoadLastValidSnapshot`, for the metadata of the installed snapshots in the order of their
indices: the last one with a record of its term and index in the log. -/
def loadLastValidSnapshot (installed : List Snapshot) (walSnaps : List WalSnapshot) :
    Option Snapshot :=
  installed.reverse.find? fun snap =>
    walSnaps.any fun w => snap.metadata.term == w.term && snap.metadata.index == w.index

def loadWALSnapshot (codecs : RaftCodecs) (pool : ByteSlicePool) (dir : Directory)
    (installed : List Snapshot) : Except WalError (Option Snapshot) := do
  let walSnapshots ← findSnapshotInternal codecs dir pool
  return loadLastValidSnapshot installed walSnapshots

/-- `loadWALSnapshot` followed by `replayWALAndSetup` without `discardUncommitted`. -/
def restartNative (codecs : RaftCodecs) (options : Options) (pool : ByteSlicePool)
    (dir : Directory) (installed : List Snapshot) :
    Except WalError (ReplayResult × Wal × Directory) := do
  let snap ← loadWALSnapshot codecs pool dir installed
  reopenWal codecs options pool dir snap

section RestartPath

variable {codecs : RaftCodecs} {pool : ByteSlicePool} {dir dir' : Directory}
  {closed : List Segment} {current : Segment} {tail : Bytes} {e : WalError} {p : Player}
  {result : ReplayResult}

/-- The snapshot records that `Replay` has read, up to the commit index it has read. -/
def validSnapshots (result : ReplayResult) : List WalSnapshot :=
  result.walSnapshots.filter fun s => s.index ≤ result.hardState.commit

/-- The restart path of a log that `Replay` with repair can read finds the snapshot records and
opens the log exactly if the damage at the end is not a wrong checksum, and the files from the one
that is taken for the snapshot on have no gap above the snapshot. -/
theorem restartNative_ok_iff (hat : SegmentsAt codecs dir closed current tail)
    (hsound : ∀ s ∈ closed ++ [current], s.Sound codecs pool)
    (htail : TailStops pool (crcAfter codecs 0 current.records) tail e)
    (hcreate : Player.create dir 0 pool = .ok p)
    (hreplay : p.replay codecs dir (.newReplayResult (.entryStore [])) true = (dir', result, none))
    (options : Options) (installed : List Snapshot) :
    let s := startIndex (loadLastValidSnapshot installed (validSnapshots result))
    (findSnapshotInternal codecs dir pool = .ok (validSnapshots result) ∧
        ∃ r, restartNative codecs options pool dir installed = .ok r) ↔
      e ≠ .crcMismatchForOthersMessage ∧
        Gapless s s (segmentIndices (filesFrom s (closed ++ [current]))) := by
  intro s
  obtain ⟨q, pre, hq, rfl, hstart, hfiles, hlisted⟩ := hat.listed hsound 0
  cases hcreate.symm.trans hq
  have hempty : (EntryCollection.entryStore []).IsEmpty := rfl
  obtain ⟨⟨v, hview⟩, he⟩ := (hlisted.replay_ok_iff htail hempty rfl).mp ⟨_, _, hreplay⟩
  obtain ⟨r, hr, hrecovered⟩ := hlisted.replay_ok htail hempty he hview
  cases hreplay.symm.trans hr
  have hfind := findSnapshotInternal_eq hlisted htail hcreate he hview
  rw [← hrecovered.snapshots, ← hrecovered.hardState] at hfind
  have hannounced : ∀ t ∈ filesFrom s (closed ++ [current]), Announced false t.records := by
    intro t ht
    have ht := mem_filesFrom_of_le (Nat.zero_le s) ht
    rw [hfiles] at ht
    exact LogView.announced_of_applySegments hview t ht
  have hopen := hat.reopenWal_ok_iff hsound htail he options
    (loadLastValidSnapshot installed (validSnapshots result))
  rw [LogView.applySegments_isSome_iff hannounced] at hopen
  by_cases hcrc : e = .crcMismatchForOthersMessage
  · rw [if_pos hcrc] at hfind
    refine iff_of_false ?_ fun h => h.1 hcrc
    rintro ⟨hok, -⟩
    cases hok.symm.trans hfind
  · rw [if_neg hcrc] at hfind
    have hfound : findSnapshotInternal codecs dir p.memPool = .ok (validSnapshots result) := hfind
    have hpath : restartNative codecs options p.memPool dir installed =
        reopenWal codecs options p.memPool dir
          (loadLastValidSnapshot installed (validSnapshots result)) := by
      simp only [restartNative, loadWALSnapshot, hfound, ok_bind]
      rfl
    rw [hpath, hopen, and_iff_right hfound, and_iff_right hcrc]
    exact Iff.rfl

end RestartPath

/-! ### Two damaged logs -/

/-- The directory of a closed log whose last file is replaced by zeros from `offset` on. -/
def damagedAfter (ops : List WalOp) (offset n : Nat) : Except WalError Directory := do
  let s ← createWal .unary [1, 2, 3, 4] (.newManager (smallConfig 400) smallPool) ∅
  let s ← run (WalOp.exec .unary) s ops
  let dir ← s.1.close s.2
  let file := (dir.lookup s.1.currentLogFile.name).getD []
  return dir.insert s.1.currentLogFile.name (damage file offset n)

/-- The error of `Replay` with repair and the answer of `FindSnapshot`. -/
def readBoth (dir : Directory) : Except WalError (Option WalError × Option (List WalSnapshot)) := do
  let p ← Player.create dir 0 smallPool
  return ((p.replay .unary dir (.newReplayResult (.entryStore [])) true).2.2,
    (findSnapshotInternal .unary dir smallPool).toOption)

/-- The second byte of the last entry and all behind it are zeros. `Replay` cuts the entry off;
`FindSnapshot` fails. -/
theorem findSnapshot_fails_on_wrong_checksum :
    ∃ dir p dir' result,
      damagedAfter [.save ⟨1, 1, 0⟩ [⟨1, 1, .normal, [7]⟩, ⟨1, 2, .normal, [8, 9]⟩]] 156 244 =
        .ok dir ∧
      Player.create dir 0 smallPool = .ok p ∧
      p.replay .unary dir (.newReplayResult (.entryStore [])) true = (dir', result, none) ∧
      ∃ e, findSnapshotInternal .unary dir smallPool = .error e ∧
        ∀ installed, restartNative .unary (smallOptions 400) smallPool dir installed =
          .error e := by
  have h : (damagedAfter [.save ⟨1, 1, 0⟩ [⟨1, 1, .normal, [7]⟩, ⟨1, 2, .normal, [8, 9]⟩]] 156 244
      >>= readBoth) = .ok (none, none) := by decide +kernel
  obtain ⟨dir, hdir, h⟩ := bind_eq_ok.mp h
  obtain ⟨p, hp, h⟩ := bind_eq_ok.mp h
  obtain ⟨hreplay, hfind⟩ := Prod.mk.inj (Except.ok.inj h)
  obtain ⟨e, he⟩ : ∃ e, findSnapshotInternal .unary dir smallPool = .error e := by
    cases hfound : findSnapshotInternal .unary dir smallPool with
    | error e => exact ⟨e, rfl⟩
    | ok snaps =>
      rw [hfound] at hfind
      cases hfind
  refine ⟨dir, p, _, _, hdir, hp, Prod.ext rfl (Prod.ext rfl hreplay), e, he, ?_⟩
  intro installed
  simp only [restartNative, loadWALSnapshot, he]
  rfl

def smallSegment : Segment :=
  ⟨1, 0, [.crc 0, .metadata [1], .snapshot .empty, .nextEntry ⟨1, 1⟩, .entry .normal [7],
    .hardState ⟨1, 1, 1⟩, .snapshot ⟨1, 1, none⟩]⟩

def tornDirectory : Directory :=
  (∅ : Directory).insert smallSegment.name (contents .unary smallSegment.records ++ [1, 2, 3])

theorem tornDirectory_segmentsAt :
    SegmentsAt .unary tornDirectory [] smallSegment [1, 2, 3] where
  ids := ⟨1, by decide⟩
  mem_dir := by
    intro name hname _
    rcases (AList.mem_insert _).mp hname with rfl | hname
    · exact ⟨smallSegment, by simp, rfl⟩
    · exact absurd hname (AList.notMem_empty _)
  lookup_closed := nofun
  lookup_current := AList.lookup_insert _

theorem restart_from_torn_header :
    ∃ r, findSnapshotInternal .unary tornDirectory smallPool = .ok [.empty, ⟨1, 1, none⟩] ∧
      restartNative .unary (smallOptions 400) smallPool tornDirectory [smallSnapshot 1] =
        .ok r := by
  have h : ((Player.create tornDirectory 0 smallPool).map fun p =>
      let answer := p.replay .unary tornDirectory (.newReplayResult (.entryStore [])) true
      (answer.2.2, validSnapshots answer.2.1)) = .ok (none, [.empty, ⟨1, 1, none⟩]) := by
    decide +kernel
  obtain ⟨p, hp, h⟩ := map_eq_ok h
  obtain ⟨hreplay, hvalid⟩ := Prod.mk.inj h.symm
  have hsound : ∀ s ∈ [] ++ [smallSegment], s.Sound .unary smallPool := by
    intro s hs
    obtain rfl : s = smallSegment := by simpa using hs
    exact ⟨⟨0, _, rfl⟩, by decide, by decide +kernel, by decide +kernel⟩
  have htail : TailStops smallPool (crcAfter .unary 0 smallSegment.records) [1, 2, 3]
      .unexpectedEOF := .undecodable rfl
  have hiff := restartNative_ok_iff tornDirectory_segmentsAt hsound htail hp
    (Prod.ext rfl (Prod.ext rfl hreplay)) (smallOptions 400) [smallSnapshot 1]
  rw [hvalid] at hiff
  obtain ⟨hfind, r, hr⟩ := hiff.mpr ⟨nofun, by decide +kernel⟩
  exact ⟨r, hfind, hr⟩

end Babuza.Raft
