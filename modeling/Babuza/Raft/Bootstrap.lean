import Babuza.Babuzawal.Purge
import Babuza.Lsmtwal.Purge

/-!
# Starting or restarting a node

`NewBootstrapRaftCluster` asks the log manager whether there is a log already and starts a new node
if there is none. The native manager looks for log files, and there is always one: a purge removes
one file and needs three. The managers of the stores look for entries, so a node that has only
voted, or whose entries have all been purged, is started as a new one.
-/

namespace Babuza.Raft

open Lib Allocator Walbase Babuzawal List

/-- The two ways in which `NewBootstrapRaftCluster` sets up the raft node. -/
inductive NodeStart
  | startNode
  | restartNode
  deriving DecidableEq

def newBootstrapRaftCluster (exist : Bool) : NodeStart :=
  if exist then .restartNode else .startNode

def hasWalFilesInDir (dir : Directory) : Bool := dir.keys.any fun name => name.kind = .log

/-- What happens to the files of a native log. -/
inductive NativeOp
  | log (op : RunOp)
  | purge (order : SortByStart) (snapshotIndex : Nat)

def NativeOp.exec (codecs : RaftCodecs) (options : Options) (pool : ByteSlicePool)
    (maxKeepLogFiles : UInt64) (s : Wal × Directory) : NativeOp → Except WalError (Wal × Directory)
  | log op => op.exec codecs options pool s
  | purge order snapshotIndex => .ok (s.1.purge maxKeepLogFiles order s.2 snapshotIndex)

/-! ## The manager knows a file -/

/-- Every file that the manager knows is there, under its id, and there is one. -/
structure KnowsFile (w : Wal) (dir : Directory) : Prop where
  known : ∀ {k f}, w.logMgr.filesDesc.lookup k = some f → f.id = k ∧ f.getLogFileName ∈ dir
  some_file : ∃ k f, w.logMgr.filesDesc.lookup k = some f

namespace KnowsFile

variable {codecs : RaftCodecs} {options : Options} {pool : ByteSlicePool}
  {maxKeepLogFiles : UInt64} {w w' : Wal} {dir dir' : Directory}

theorem hasWalFilesInDir_eq (h : KnowsFile w dir) : hasWalFilesInDir dir = true := by
  obtain ⟨k, f, hlookup⟩ := h.some_file
  unfold hasWalFilesInDir
  rw [any_eq_true]
  exact ⟨f.getLogFileName, AList.mem_keys.mp (h.known hlookup).2, rfl⟩

theorem of_tidy {files : List LogFileDesc} (h : Tidy w dir files) : KnowsFile w dir where
  known := by
    intro k f hlookup
    have hmem := AList.mem_lookup_iff.mp hlookup
    obtain ⟨g, hg, heq⟩ := mem_map.mp (h.known.mem_iff.mp hmem)
    cases heq
    exact ⟨rfl, (mem_parse_iff.mp ((h.mem f).mpr hg)).1⟩
  some_file := by
    obtain ⟨cur, hlast, -⟩ := h.current
    have hcur := h.known.mem_iff.mpr (mem_map.mpr ⟨cur, mem_of_getLast? hlast, rfl⟩)
    exact ⟨cur.id, cur, AList.mem_lookup_iff.mpr hcur⟩

section

variable (h : KnowsFile w dir)
include h

theorem sameFiles (hsame : SameFiles w dir w' dir') : KnowsFile w' dir' where
  known := by
    intro k f hlookup
    rw [hsame.logMgr_eq] at hlookup
    rw [hsame.mem_iff]
    exact h.known hlookup
  some_file := by
    rw [hsame.logMgr_eq]
    exact h.some_file

theorem cycled (hcycle : Wal.Cycled w dir w' dir') : KnowsFile w' dir' where
  known := by
    intro k f hlookup
    rw [hcycle.filesDesc_eq] at hlookup
    rw [hcycle.mem_iff]
    by_cases hk : k = w.nextDesc.id
    · rw [hk, AList.lookup_insert] at hlookup
      cases hlookup
      exact ⟨hk.symm, .inl rfl⟩
    · rw [AList.lookup_insert_ne hk] at hlookup
      obtain ⟨hid, hmem⟩ := h.known hlookup
      refine ⟨hid, .inr ⟨?_, hmem⟩⟩
      exact fun heq => nomatch congrArg FileName.kind heq
  some_file := by
    rw [hcycle.filesDesc_eq]
    exact ⟨_, _, AList.lookup_insert _⟩

theorem write {op : WalOp} (hexec : op.exec codecs (w, dir) = .ok (w', dir')) :
    KnowsFile w' dir' := by
  rcases WalOp.exec_files hexec with hsame | ⟨w₁, dir₁, hsame, hcycle⟩
  · exact h.sameFiles hsame
  · exact (h.sameFiles hsame).cycled hcycle

theorem mem_files {f : LogFileDesc} :
    f ∈ w.logMgr.files ↔ w.logMgr.filesDesc.lookup f.id = some f := by
  unfold Manager.files
  rw [mem_map]
  constructor
  · rintro ⟨⟨k, g⟩, hmem, rfl⟩
    have hlookup : w.logMgr.filesDesc.lookup k = some g := AList.mem_lookup_iff.mpr hmem
    rw [(h.known hlookup).1]
    exact hlookup
  · intro hlookup
    exact ⟨⟨f.id, f⟩, AList.mem_lookup_iff.mp hlookup, rfl⟩

theorem purge (maxKeepLogFiles : UInt64) (snapshotIndex : Nat) (order : SortByStart) :
    KnowsFile (w.purge maxKeepLogFiles order dir snapshotIndex).1
      (w.purge maxKeepLogFiles order dir snapshotIndex).2 := by
  by_cases hpurges : Purges maxKeepLogFiles snapshotIndex w.logMgr.files
  · obtain ⟨f, -, -, hf, hstart, hpurge⟩ := Wal.purge_of_purges order dir hpurges
    obtain ⟨g, hg, hhigh⟩ := hpurges.2.2
    have hdesc := removeFile_filesDesc w dir f
    rw [hpurge]
    constructor
    · intro k x hlookup
      rw [hdesc] at hlookup
      by_cases hk : k = f.id
      · rw [hk, AList.lookup_erase] at hlookup
        cases hlookup
      · rw [AList.lookup_erase_ne hk] at hlookup
        obtain ⟨hid, hmem⟩ := h.known hlookup
        refine ⟨hid, (removeFile_mem w dir f x).mpr ⟨?_, hmem⟩⟩
        intro heq
        exact hk (hid.symm.trans (congrArg FileName.id heq))
    · refine ⟨g.id, g, ?_⟩
      have hne : g.id ≠ f.id := by
        intro heq
        have hlookup := (h.mem_files.mp hg)
        rw [heq, h.mem_files.mp hf] at hlookup
        cases hlookup
        exact absurd hstart (Nat.not_lt.mpr hhigh)
      rw [hdesc, AList.lookup_erase_ne hne]
      exact h.mem_files.mp hg
  · rw [Wal.purge_of_not_purges order dir hpurges]
    exact h

end

theorem of_scan {cfg : ManagerConfig} {snapIndex : Nat} {m : Manager}
    (hscan : Manager.newManagerWithScan cfg dir snapIndex pool = .ok m) (hm : w.logMgr = m) :
    KnowsFile w dir := by
  obtain ⟨files, hread, hscan⟩ := bind_eq_ok.mp hscan
  have hfiles : ∀ f ∈ files, f.getLogFileName ∈ dir := by
    intro f hf
    have hmem := validLogFiles_subset hread hf
    rw [append_nil, mem_reverse, logFiles, mem_insertionSort] at hmem
    exact (mem_parse_iff.mp hmem).1
  split at hscan
  · cases hscan
  next last hlast =>
    cases hscan
    constructor
    · intro k f hlookup
      rw [hm] at hlookup
      rcases lookup_foldl_insert hlookup with ⟨hid, hmem⟩ | hnone
      · exact ⟨hid, hfiles f hmem⟩
      · cases hnone
    · rw [hm]
      obtain ⟨init, rfl⟩ := getLast?_eq_some_iff.mp hlast
      refine ⟨last.id, last, ?_⟩
      rw [foldl_append]
      exact AList.lookup_insert _

theorem restart {snapshot : Option Snapshot}
    (hexec : (RunOp.restart snapshot).exec codecs options pool (w, dir) = .ok (w', dir')) :
    KnowsFile w' dir' := by
  obtain ⟨dir₁, -, hexec⟩ := bind_eq_ok.mp hexec
  obtain ⟨⟨r, w₁, dir₂⟩, hreopen, hexec⟩ := bind_eq_ok.mp hexec
  cases hexec
  obtain ⟨⟨r₀, w₀, dir₀⟩, hreplay, hreopen⟩ := bind_eq_ok.mp hreopen
  have hknows : KnowsFile w₀ dir₀ := by
    obtain ⟨p, -, hreplay⟩ := bind_eq_ok.mp hreplay
    simp only at hreplay
    split at hreplay
    iterate 2
      obtain ⟨m, hscan, hreplay⟩ := bind_eq_ok.mp hreplay
      obtain ⟨w₂, hopen, hreplay⟩ := bind_eq_ok.mp hreplay
      obtain ⟨l, -, hopen⟩ := bind_eq_ok.mp hopen
      cases hopen
      cases hreplay
      exact of_scan hscan rfl
    · cases hreplay
  simp only at hreopen
  split at hreopen
  · cases hreopen
    exact hknows
  · obtain ⟨⟨r', es⟩, -, hreopen⟩ := bind_eq_ok.mp hreopen
    cases hreopen
    exact ⟨hknows.known, hknows.some_file⟩

theorem exec (h : KnowsFile w dir) {op : NativeOp}
    (hexec : op.exec codecs options pool maxKeepLogFiles (w, dir) = .ok (w', dir')) :
    KnowsFile w' dir' := by
  cases op with
  | log op =>
    cases op with
    | write op => exact h.write hexec
    | restart snapshot => exact restart hexec
  | purge order snapshotIndex =>
    have hpurge := Except.ok.inj hexec
    have hknows := h.purge maxKeepLogFiles snapshotIndex order
    rwa [hpurge] at hknows

end KnowsFile

/-! ## The node is restarted -/

/-- A native log is always found. A log in a store is found exactly if one of the entries saved to
it is covered by no snapshot that was purged since. -/
theorem bootstrap_restarts_iff (codecs : RaftCodecs) (metadata : Bytes) :
    (∀ {options : Options} {pool : ByteSlicePool} {maxKeepLogFiles : UInt64} {ops : List NativeOp}
      {w₀ w : Wal} {dir₀ dir : Directory},
      createWalInternal codecs metadata options pool = .ok (w₀, dir₀) →
      run (NativeOp.exec codecs options pool maxKeepLogFiles) (w₀, dir₀) ops = .ok (w, dir) →
      newBootstrapRaftCluster (hasWalFilesInDir dir) = .restartNode) ∧
    ∀ {type : Lsmtwal.WalManagerType} {ops : List Lsmtwal.StoreOp} {w : Lsmtwal.LsmtWal},
      (∀ op ∈ ops, op.Fits) →
      run (Lsmtwal.StoreOp.exec codecs type) (Lsmtwal.createWal codecs metadata) ops = .ok w →
      (newBootstrapRaftCluster (Lsmtwal.hasExistingWals type w.db) = .restartNode ↔
        ∃ i, Lsmtwal.StoreOp.Remains i ops) := by
  constructor
  · intro options pool maxKeepLogFiles ops w₀ w dir₀ dir hcreate hrun
    have hknows : KnowsFile w dir :=
      run_induction (I := fun s => KnowsFile s.1 s.2) (fun h hexec => h.exec hexec)
        (KnowsFile.of_tidy (createWalInternal_tidy hcreate)) hrun
    rw [hknows.hasWalFilesInDir_eq]
    rfl
  · intro type ops w hfits hrun
    rw [← Lsmtwal.hasExistingWals_run hfits hrun]
    cases Lsmtwal.hasExistingWals type w.db with
    | false => exact iff_of_false (by decide) (by decide)
    | true => exact ⟨fun _ => rfl, fun _ => rfl⟩

/-- The log of a node that has voted and done nothing else. -/
def votedOps : List Lsmtwal.StoreOp := [.save ⟨1, 2, 0⟩ []]

/-- With either store, a node that has voted is started as a new one. -/
theorem voted_node_started_anew :
    ∃ w, run (Lsmtwal.StoreOp.exec .unary .pebble) (Lsmtwal.createWal .unary [1]) votedOps = .ok w ∧
      run (Lsmtwal.StoreOp.exec .unary .badger) (Lsmtwal.createWal .unary [1]) votedOps = .ok w ∧
      Lsmtwal.readHardState .unary w.db = .ok ⟨1, 2, 0⟩ ∧
      newBootstrapRaftCluster (Lsmtwal.hasExistingWals .pebble w.db) = .startNode ∧
      newBootstrapRaftCluster (Lsmtwal.hasExistingWals .badger w.db) = .startNode := by
  refine ⟨_, rfl, rfl, ?_, ?_, ?_⟩
  all_goals decide +kernel

def purgedOps : List Lsmtwal.StoreOp :=
  [.save ⟨1, 2, 1⟩ [⟨1, 1, .normal, [7]⟩, ⟨1, 2, .normal, [8]⟩], .purge (smallSnapshot 1)]

/-- A native log with a vote, and a stored one with an entry above the purged snapshot. -/
theorem purged_node_restarted :
    (∃ w₀ dir₀ w dir, createWalInternal .unary [1, 2, 3, 4] (smallOptions 150) smallPool =
        .ok (w₀, dir₀) ∧
      run (NativeOp.exec .unary (smallOptions 150) smallPool 1) (w₀, dir₀)
        [.log (.write (.save ⟨1, 2, 0⟩ [])), .purge .stable 1] = .ok (w, dir) ∧
      newBootstrapRaftCluster (hasWalFilesInDir dir) = .restartNode) ∧
    ∃ w, run (Lsmtwal.StoreOp.exec .unary .pebble) (Lsmtwal.createWal .unary [1]) purgedOps =
        .ok w ∧
      newBootstrapRaftCluster (Lsmtwal.hasExistingWals .pebble w.db) = .restartNode := by
  constructor
  · obtain ⟨⟨w, dir⟩, h⟩ := exists_eq_ok (x := do
      let s ← createWalInternal .unary [1, 2, 3, 4] (smallOptions 150) smallPool
      run (NativeOp.exec .unary (smallOptions 150) smallPool 1) s
        [.log (.write (.save ⟨1, 2, 0⟩ [])), .purge .stable 1]) (by decide +kernel)
    obtain ⟨⟨w₀, dir₀⟩, hcreate, hrun⟩ := bind_eq_ok.mp h
    exact ⟨w₀, dir₀, w, dir, hcreate, hrun, (bootstrap_restarts_iff _ _).1 hcreate hrun⟩
  · obtain ⟨w, hrun⟩ := exists_eq_ok (x := run (Lsmtwal.StoreOp.exec .unary .pebble)
      (Lsmtwal.createWal .unary [1]) purgedOps) rfl
    have hfits : ∀ op ∈ purgedOps, op.Fits := by
      intro op hop
      rcases mem_pair.mp hop with rfl | rfl
      · intro e he
        rcases mem_pair.mp he with rfl | rfl <;> decide
      · trivial
    refine ⟨w, hrun, ((bootstrap_restarts_iff _ _).2 hfits hrun).mpr ⟨2, .inl ⟨?_, ?_⟩⟩⟩
    · exact ⟨⟨1, 2, .normal, [8]⟩, by decide, rfl⟩
    · intro later hlater
      cases mem_singleton.mp hlater
      rintro ⟨-, hlt⟩
      exact absurd hlt (by decide)

end Babuza.Raft
