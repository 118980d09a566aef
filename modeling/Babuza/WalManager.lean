import Babuza.Babuzawal.Restart
import Babuza.Etcdwal.Manager

/-!
# Dropping uncommitted entries

`ReplayWal` with `deleteUncommitted`, which a node uses to come back alone after a disaster. The
result and the entry storage should then end with the committed entries. All managers look for the
first uncommitted entry by its position and take the position 0 for "not found", so a log without
a committed entry above the snapshot is left as it is. The managers over Pebble and Badger moreover
fill the entry storage with all entries.
-/

namespace Babuza

open Lib Allocator Walbase List

/-! ## Finding the first uncommitted entry -/

variable {snapshot : Option Snapshot} {pool : ByteSlicePool} {codecs : RaftCodecs}

namespace Babuzawal

section Delete

variable {α : Type} {index : α → Nat} {first commit : Nat} {xs : List α}

section

variable (h : Consecutive index first xs)
include h

theorem findIdx?_uncommitted :
    (xs.findIdx? fun x => commit < index x) =
      if commit + 1 - first < xs.length then some (commit + 1 - first) else none := by
  induction xs generalizing first with
  | nil => rfl
  | cons x xs ih =>
    obtain ⟨hx, hxs⟩ := consecutive_cons.mp h
    rw [findIdx?_cons, hx, ih hxs, length_cons]
    by_cases hlt : commit < first
    · simp [hlt, show commit + 1 - first = 0 by omega]
    · have hstep : commit + 1 - first = commit + 1 - (first + 1) + 1 := by omega
      rw [hstep, if_neg (by simp [hlt])]
      simp only [Nat.add_lt_add_iff_right]
      split <;> rfl

theorem committed_eq_take :
    (xs.filter fun x => index x ≤ commit) = xs.take (commit + 1 - first) := by
  have hfilter := h.filter_lt (commit + 1)
  simp only [Nat.lt_succ_iff] at hfilter
  exact hfilter

theorem deleteFrom_eq :
    deleteFrom index commit xs =
      if commit < first then xs else xs.filter fun x => index x ≤ commit := by
  rw [deleteFrom, findIdx?_uncommitted h, committed_eq_take h]
  by_cases hlt : commit < first
  · rw [if_pos hlt, show commit + 1 - first = 0 by omega]
    split <;> rename_i heq
    · rfl
    · rfl
    · split at heq <;> cases heq
  · rw [if_neg hlt]
    obtain ⟨n, hn⟩ : ∃ n, commit + 1 - first = n + 1 := ⟨commit - first, by omega⟩
    rw [hn]
    by_cases hlen : n + 1 < xs.length
    · rw [if_pos hlen]
    · rw [if_neg hlen, take_of_length_le (by omega)]

theorem consecutive_deleteFrom (commit : Nat) :
    Consecutive index first (deleteFrom index commit xs) := by
  rw [deleteFrom]
  split
  · exact h
  · exact h
  · exact h.take _

end

theorem deleteFrom_exact_iff {s : Nat} (h : Consecutive index (s + 1) xs) (hcommit : s ≤ commit) :
    deleteFrom index commit xs = (xs.filter fun x => index x ≤ commit) ↔
      xs = [] ∨ s < commit := by
  rw [deleteFrom_eq h]
  by_cases hlt : commit < s + 1
  · have hnone : (xs.filter fun x => index x ≤ commit) = [] := by
      rw [committed_eq_take h, show commit + 1 - (s + 1) = 0 by omega, take_zero]
    rw [if_pos hlt, hnone]
    constructor
    · exact .inl
    · rintro (hnil | hlt')
      · exact hnil
      · omega
  · rw [if_neg hlt]
    exact iff_of_true rfl (.inr (by omega))

end Delete

/-! ## What the native player collects -/

namespace EntryCollection

def Aligned (snapshotIndex : Nat) : EntryCollection → Prop
  | entryStore entries => Consecutive Entry.index (snapshotIndex + 1) entries
  | indexedEntryStore entries => Consecutive EntryIndex.index (snapshotIndex + 1) entries
  | nopEntryStore => True

end EntryCollection

structure ReplayResult.Collects (c : EntryCollection) (snapshotIndex : Nat) (r : ReplayResult) :
    Prop where
  kind : r.entryCollection.clearEntries = c.clearEntries
  aligned : r.entryCollection.Aligned snapshotIndex

variable {dir dir' : Directory} {result r r' : ReplayResult} {options : Options} {type : EntryType}

section Collects

variable {snapshotIndex : Nat} {c : EntryCollection}

theorem ReplayResult.Collects.decodeEntry {logBuf : Bytes} {capacity : Nat}
    (h : r.Collects c snapshotIndex)
    (hdecode : r.decodeEntry snapshotIndex type logBuf capacity = .ok r') :
    r'.Collects c snapshotIndex := by
  obtain ⟨hkind, haligned⟩ := h
  simp only [ReplayResult.decodeEntry] at hdecode
  split at hdecode
  on_goal 3 => cases hdecode
  all_goals
    rename_i entries hentries
    rw [hentries] at hkind haligned
    split at hdecode <;> cases hdecode
    rename_i entries' hinto
    exact ⟨hkind, decodeInto_consecutive haligned hinto rfl⟩

variable {p p' : Parser} {d : Decoded}

theorem collects_handleEntry (h : p.result.Collects c snapshotIndex)
    (hhandle : p.handleEntry snapshotIndex type d = .ok p') :
    p'.result.Collects c snapshotIndex := by
  simp only [Parser.handleEntry] at hhandle
  split at hhandle
  · cases hhandle
    exact h
  · split at hhandle
    · obtain ⟨result, hdecode, heq⟩ := bind_eq_ok.mp hhandle
      cases heq
      exact h.decodeEntry hdecode
    · cases hhandle

theorem collects_replayFiles (h : p.result.Collects c snapshotIndex) (files : List LogFileDesc) :
    (Player.replayFiles codecs pool snapshotIndex dir p files).1.result.Collects c
      snapshotIndex := by
  have hkept := (Parser.replayFiles_collection codecs pool
    (P := fun es => es.clearEntries = c.clearEntries ∧ es.Aligned snapshotIndex)
    (fun h => ⟨rfl, fun hq => by
      have hnext := collects_handleEntry ⟨h.1, h.2⟩ hq
      exact ⟨hnext.kind, hnext.aligned⟩⟩) dir ⟨h.kind, h.aligned⟩ files).2
  exact ⟨hkept.1, hkept.2⟩

theorem collects_newReplayResult (hc : c.IsEmpty) :
    (ReplayResult.newReplayResult c).Collects c snapshotIndex := by
  refine ⟨rfl, ?_⟩
  rw [EntryCollection.IsEmpty] at hc
  rw [← hc]
  cases c with
  | entryStore | indexedEntryStore => exact consecutive_nil
  | nopEntryStore => trivial

theorem collects_replay {player : Player} (hc : c.IsEmpty) (repair : Bool) :
    (player.replay codecs dir (.newReplayResult c) repair).2.1.Collects c
      player.startSnapshotIndex := by
  have honce : ∀ dir, (player.replayOnce codecs dir (.newReplayResult c)).1.Collects c
      player.startSnapshotIndex :=
    fun dir => collects_replayFiles (p := ⟨_, false⟩) (collects_newReplayResult hc) _
  have hfirst := honce dir
  simp only [Player.replay]
  cases hplay : player.replayOnce codecs dir (.newReplayResult c) with
  | mk r err =>
    rw [hplay] at hfirst
    cases err with
    | none => exact hfirst
    | some stop =>
      have hreset : r.reset = .newReplayResult c :=
        congrArg ReplayResult.newReplayResult (hfirst.kind.trans hc)
      dsimp only
      split
      · split
        · exact hfirst
        · split
          · exact hfirst
          · split
            · exact hfirst
            · rw [hreset]
              exact honce _
      · exact hfirst

theorem collects_replayWal {wal : Wal}
    (h : replayWal codecs dir snapshot options pool = .ok (result, wal, dir')) :
    result.Collects options.newCollection (startIndex snapshot) := by
  obtain ⟨player, hcreate, h⟩ := bind_eq_ok.mp h
  have hstart : player.startSnapshotIndex = startIndex snapshot := by
    obtain ⟨files, -, heq⟩ := bind_eq_ok.mp hcreate
    cases heq
    rfl
  have hcollects : (player.replay codecs dir (.newReplayResult options.newCollection)
      true).2.1.Collects options.newCollection player.startSnapshotIndex :=
    collects_replay (newCollection_isEmpty options) true
  rw [hstart] at hcollects
  generalize hplay : player.replay codecs dir (.newReplayResult options.newCollection) true = out
    at h hcollects
  obtain ⟨dir₁, result₁, err⟩ := out
  have hresult : result = result₁ := by
    dsimp only at h
    split at h
    on_goal 3 => cases h
    all_goals
      obtain ⟨logMgr, -, h⟩ := bind_eq_ok.mp h
      obtain ⟨wal, -, heq⟩ := bind_eq_ok.mp h
      cases heq
      rfl
  rwa [hresult]

end Collects

/-- `replayWalInternal` with the entry index disabled. -/
def replayWalMemory (codecs : RaftCodecs) (ms : MemoryStorage) (dir : Directory)
    (snapshot : Option Snapshot) (deleteUncommitted : Bool) (options : Options)
    (memPool : ByteSlicePool) : Except WalError (ReplayResult × ms.Storage × Wal × Directory) := do
  let (result, wal, dir) ← replayWal codecs dir snapshot options memPool
  let es := ms.setHardState (ms.ofSnapshot snapshot) result.hardState
  let collection ← (if deleteUncommitted then
      result.entryCollection.deleteUncommittedEntry result.hardState.commit
    else .ok result.entryCollection)
  match ms.append es collection.entries with
  | none => throw .panic
  | some es => return ({ result with entryCollection := collection }, es, wal, dir)

section Storages

/-- The entries that are left of a collection. -/
def kept {α : Type} (index : α → Nat) (deleteUncommitted : Bool) (commit : Nat) (xs : List α) :
    List α :=
  if deleteUncommitted then deleteFrom index commit xs else xs

theorem consecutive_kept {α : Type} {index : α → Nat} {first : Nat} {xs : List α}
    (h : Consecutive index first xs) (deleteUncommitted : Bool) (commit : Nat) :
    Consecutive index first (kept index deleteUncommitted commit xs) := by
  rw [kept]
  split
  · exact consecutive_deleteFrom h commit
  · exact h

end Storages

end Babuzawal

/-! ## The managers -/

structure Replayed (E S : Type) where
  hardState : HardState
  entries : List E
  storage : List S

/-- `ReplayWal` of an `ibabuza.WalManager`. The storage keeps the entry `e` as `stored e`. -/
structure WalManager where
  Disk : Type
  Error : Type
  E : Type
  S : Type
  index : E → Nat
  stored : E → S
  replayWal : Disk → Option Snapshot → (deleteUncommitted : Bool) → Except Error (Replayed E S)

inductive ManagerType
  | babuzawal (disableEntryIndex : Bool)
  | etcdwal
  | lsmtwal (type : Lsmtwal.WalManagerType)
  deriving DecidableEq

namespace WalManager

open Babuzawal (EntryIndexMetadata deleteFrom startIndex kept consecutive_kept)

variable (codecs : RaftCodecs) (options : Babuzawal.Options) (pool : ByteSlicePool)
  (ms : MemoryStorage) (lib : Etcdwal.EtcdWal)

def babuzawalIndexed : WalManager where
  Disk := Babuzawal.Directory
  Error := Babuzawal.WalError
  E := EntryIndex EntryIndexMetadata
  S := EntryIndex EntryIndexMetadata
  index := EntryIndex.index
  stored := id
  replayWal dir snapshot deleteUncommitted := do
    let (result, es, _) ← Babuzawal.replayWalInternal codecs dir snapshot deleteUncommitted
      { options with disableEntryIndex := false } pool
    return ⟨result.hardState, result.entryCollection.entriesIndex, es.entryIndex⟩

def babuzawalMemory : WalManager where
  Disk := Babuzawal.Directory
  Error := Babuzawal.WalError
  E := Entry
  S := Entry
  index := Entry.index
  stored := id
  replayWal dir snapshot deleteUncommitted := do
    let (result, es, _) ← Babuzawal.replayWalMemory codecs ms dir snapshot deleteUncommitted
      { options with disableEntryIndex := true } pool
    return ⟨result.hardState, result.entryCollection.entries, ms.entries es⟩

def etcdwal : WalManager where
  Disk := lib.Dir
  Error := Etcdwal.EtcdError
  E := Entry
  S := Entry
  index := Entry.index
  stored := id
  replayWal dir snapshot deleteUncommitted := do
    let (result, es, _) ← Etcdwal.replayWal lib ms dir snapshot deleteUncommitted
    return ⟨result.hardState, result.entries, ms.entries es⟩

def lsmtwal (type : Lsmtwal.WalManagerType) : WalManager where
  Disk := Lsmtwal.Db
  Error := Lsmtwal.LsmtError
  E := Entry
  S := EntryIndex Lsmtwal.EntryMetadata
  index := Entry.index
  stored := Lsmtwal.entryIndexOf
  replayWal db snapshot deleteUncommitted := do
    let (result, w) ← Lsmtwal.replayWal codecs type db snapshot deleteUncommitted
    return ⟨result.hardState, result.entries, w.es.entryIndex⟩

def ofType : ManagerType → WalManager
  | .babuzawal false => babuzawalIndexed codecs options pool
  | .babuzawal true => babuzawalMemory codecs options pool ms
  | .etcdwal => etcdwal ms lib
  | .lsmtwal type => lsmtwal codecs type

variable {codecs options pool ms lib}

/-- The entries with `s < index ≤ commit` among those that are persisted above `s`. -/
def committed (m : WalManager) (p : Replayed m.E m.S) : List m.E :=
  p.entries.filter fun e => m.index e ≤ p.hardState.commit

/-- Result and storage hold exactly the committed ones of the entries that a plain `ReplayWal`
finds above the snapshot. -/
def DropsUncommitted (m : WalManager) (disk : m.Disk) (snapshot : Option Snapshot) : Prop :=
  ∃ p r, m.replayWal disk snapshot false = .ok p ∧ m.replayWal disk snapshot true = .ok r ∧
    r.hardState = p.hardState ∧ r.entries = m.committed p ∧
    r.storage = (m.committed p).map m.stored

/-- A deletion shortens the entries of the result and, unless `keepsAll`, those of the storage. -/
def Deletes (m : WalManager) (keepsAll : Bool) : Prop :=
  ∀ disk snapshot p, m.replayWal disk snapshot false = .ok p →
    let left := deleteFrom m.index p.hardState.commit p.entries
    Consecutive m.index (startIndex snapshot + 1) p.entries ∧
    m.replayWal disk snapshot true =
      .ok ⟨p.hardState, left, (if keepsAll then p.entries else left).map m.stored⟩

theorem babuzawalIndexed_deletes : (babuzawalIndexed codecs options pool).Deletes false := by
  intro dir snapshot p hp
  obtain ⟨_, hreplay, -⟩ := bind_eq_ok.mp hp
  obtain ⟨⟨result, wal, dir'⟩, hfiles, -⟩ := bind_eq_ok.mp hreplay
  obtain ⟨hkind, haligned⟩ := Babuzawal.collects_replayWal hfiles
  cases hc : result.entryCollection with
  | entryStore | nopEntryStore =>
    rw [hc] at hkind
    cases hkind
  | indexedEntryStore xs =>
    rw [hc] at haligned
    have hrun : ∀ delete ys, kept EntryIndex.index delete result.hardState.commit xs = ys →
        (babuzawalIndexed codecs options pool).replayWal dir snapshot delete =
          .ok ⟨result.hardState, ys, ys.map id⟩ := by
      intro delete ys hys
      have hkept := consecutive_kept haligned delete result.hardState.commit
      rw [hys] at hkept
      obtain ⟨es, happend, -, rfl⟩ := EntryStorage.ofSnapshot_appendEntryIndex snapshot
        result.hardState (Babuzawal.startIndex_eq _ ▸ hkept)
      have hcollection : (if delete then
          result.entryCollection.deleteUncommittedEntry result.hardState.commit
        else .ok result.entryCollection) = .ok (.indexedEntryStore es.ents) := by
        rw [hc, ← hys]
        cases delete <;> rfl
      simp only [babuzawalIndexed, Babuzawal.replayWalInternal, Babuzawal.replayEntryStorage,
        hfiles, hcollection, ok_bind, Babuzawal.EntryCollection.entriesIndex, happend, map_id]
      rfl
    cases (hrun false _ rfl).symm.trans hp
    exact ⟨haligned, hrun true _ rfl⟩

theorem babuzawalMemory_deletes (hms : ms.Lawful) :
    (babuzawalMemory codecs options pool ms).Deletes false := by
  intro dir snapshot p hp
  obtain ⟨_, hreplay, -⟩ := bind_eq_ok.mp hp
  obtain ⟨⟨result, wal, dir'⟩, hfiles, -⟩ := bind_eq_ok.mp hreplay
  obtain ⟨hkind, haligned⟩ := Babuzawal.collects_replayWal hfiles
  cases hc : result.entryCollection with
  | indexedEntryStore | nopEntryStore =>
    rw [hc] at hkind
    cases hkind
  | entryStore xs =>
    rw [hc] at haligned
    have hrun : ∀ delete ys, kept Entry.index delete result.hardState.commit xs = ys →
        (babuzawalMemory codecs options pool ms).replayWal dir snapshot delete =
          .ok ⟨result.hardState, ys, ys.map id⟩ := by
      intro delete ys hys
      have hkept := consecutive_kept haligned delete result.hardState.commit
      rw [hys] at hkept
      obtain ⟨es, happend, rfl⟩ := hms.append_ofSnapshot snapshot
        result.hardState (Babuzawal.startIndex_eq _ ▸ hkept)
      have hcollection : (if delete then
          result.entryCollection.deleteUncommittedEntry result.hardState.commit
        else .ok result.entryCollection) = .ok (.entryStore (ms.entries es)) := by
        rw [hc, ← hys]
        cases delete <;> rfl
      simp only [babuzawalMemory, Babuzawal.replayWalMemory, hfiles,
        hcollection, ok_bind, Babuzawal.EntryCollection.entries, happend, map_id]
      rfl
    cases (hrun false _ rfl).symm.trans hp
    exact ⟨haligned, hrun true _ rfl⟩

theorem deleteUncommittedEntry_eq (r : Lsmtwal.ReplayResult) (commit : Nat) :
    r.deleteUncommittedEntry commit =
      ⟨r.metadata, r.hardState, deleteFrom Entry.index commit r.entries⟩ := by
  rw [Lsmtwal.ReplayResult.deleteUncommittedEntry, deleteFrom]
  cases r.entries.findIdx? fun e => commit < e.index with
  | none => rfl
  | some i => cases i <;> rfl

theorem etcdwal_deletes (hms : ms.Lawful) (hlib : lib.Lawful) : (etcdwal ms lib).Deletes false := by
  intro dir snapshot p hp
  obtain ⟨⟨result, es, dir'⟩, hreplay, heq⟩ := bind_eq_ok.mp hp
  cases heq
  obtain ⟨⟨⟨metadata, hardState, entries⟩, dir₁⟩, hread, hreplay⟩ := bind_eq_ok.mp hreplay
  have hentries := Etcdwal.openAndRead_consecutive hlib hread
  rw [Etcdwal.walSnapshot_index] at hentries
  obtain ⟨es₃, hplain, hes₃⟩ := hms.append_ofSnapshot snapshot hardState hentries
  obtain ⟨es₄, hdelete, hes₄⟩ := hms.append_ofSnapshot snapshot hardState
    (Babuzawal.consecutive_deleteFrom hentries hardState.commit)
  simp only [Bool.false_eq_true, if_false, hplain] at hreplay
  cases hreplay
  rw [← Babuzawal.startIndex_eq] at hentries
  refine ⟨hentries, ?_⟩
  simp only [etcdwal, Etcdwal.replayWal, hread, ok_bind, if_true, deleteUncommittedEntry_eq,
    hdelete]
  simp only [pure, Except.pure, ok_bind, hes₄, map_id]
  rfl

theorem consecutive_of_replayEntries {snapIndex : Nat} {pairs : List (Bytes × Bytes)}
    {entries entries' : List Entry} (h : Consecutive Entry.index (snapIndex + 1) entries)
    (hreplay : Lsmtwal.replayEntries codecs snapIndex pairs entries = .ok entries') :
    Consecutive Entry.index (snapIndex + 1) entries' := by
  induction pairs generalizing entries with
  | nil =>
    cases hreplay
    exact h
  | cons x pairs ih =>
    rw [Lsmtwal.replayEntries] at hreplay
    obtain ⟨e, -, hreplay⟩ := bind_eq_ok.mp hreplay
    split at hreplay
    · dsimp only at hreplay
      split at hreplay
      · cases hreplay
      · refine ih (consecutive_append.mpr ⟨h.take _, consecutive_cons.mpr ⟨?_, consecutive_nil⟩⟩)
          hreplay
        rw [length_take]
        omega
    · exact ih h hreplay

theorem lsmtwal_deletes (type : Lsmtwal.WalManagerType) : (lsmtwal codecs type).Deletes true := by
  intro db snapshot p hp
  obtain ⟨⟨result, w⟩, hreplay, heq⟩ := bind_eq_ok.mp hp
  cases heq
  obtain ⟨hardState, hread, hreplay⟩ := bind_eq_ok.mp hreplay
  cases hmetadata : db.lookup Lsmtwal.keyPrefix.metadata with
  | none =>
    rw [hmetadata] at hreplay
    cases hreplay
  | some metadata =>
    simp only [hmetadata] at hreplay
    obtain ⟨entries, hentries, hreplay⟩ := bind_eq_ok.mp hreplay
    have hconsecutive := consecutive_of_replayEntries consecutive_nil hentries
    have hindex : Consecutive EntryIndex.index ((snapshot.map (·.metadata.index)).getD 0 + 1)
        (entries.map Lsmtwal.entryIndexOf) := by
      rwa [Consecutive, map_map, length_map]
    obtain ⟨es, happend, -, hents⟩ :=
      EntryStorage.ofSnapshot_appendEntryIndex snapshot hardState hindex
    have happend' : Lsmtwal.LsmtWal.append
        ⟨db, (EntryStorage.ofSnapshot snapshot).setHardState hardState⟩ entries = .ok ⟨db, es⟩ := by
      simp only [Lsmtwal.LsmtWal.append, happend]
      rfl
    simp only [Bool.false_eq_true, if_false, happend', ok_bind] at hreplay
    cases hreplay
    rw [← Babuzawal.startIndex_eq] at hconsecutive
    refine ⟨hconsecutive, ?_⟩
    simp only [lsmtwal, Lsmtwal.replayWal, hread, hmetadata, hentries, ok_bind, if_true,
      deleteUncommittedEntry_eq, happend']
    simp only [pure, Except.pure, ok_bind, EntryStorage.entryIndex, hents]

/-! ## When the uncommitted entries are dropped -/

/-- The managers over a key-value store keep all entries in the entry storage. -/
def keepsAll : ManagerType → Bool
  | .lsmtwal _ => true
  | _ => false

theorem ofType_deletes (hms : ms.Lawful) (hlib : lib.Lawful) (type : ManagerType) :
    (ofType codecs options pool ms lib type).Deletes (keepsAll type) := by
  cases type with
  | babuzawal disableEntryIndex =>
    cases disableEntryIndex with
    | false => exact babuzawalIndexed_deletes
    | true => exact babuzawalMemory_deletes hms
  | etcdwal => exact etcdwal_deletes hms hlib
  | lsmtwal type => exact lsmtwal_deletes type

/-- For Pebble and Badger no entry is uncommitted. For the other managers no entry lies above the
snapshot, or the one right above it is committed. -/
def Droppable (m : WalManager) (type : ManagerType) (snapshot : Option Snapshot)
    (p : Replayed m.E m.S) : Prop :=
  match type with
  | .lsmtwal _ => ∀ e ∈ p.entries, m.index e ≤ p.hardState.commit
  | _ => p.entries = [] ∨ startIndex snapshot < p.hardState.commit

section Iff

variable {m : WalManager} {disk : m.Disk} {p : Replayed m.E m.S}

theorem Deletes.drops_iff (h : m.Deletes false) (hp : m.replayWal disk snapshot false = .ok p)
    (hcommit : startIndex snapshot ≤ p.hardState.commit) :
    m.DropsUncommitted disk snapshot ↔
      p.entries = [] ∨ startIndex snapshot < p.hardState.commit := by
  obtain ⟨hconsecutive, hr⟩ := h disk snapshot p hp
  rw [← Babuzawal.deleteFrom_exact_iff hconsecutive hcommit]
  constructor
  · rintro ⟨p', r, hp', hr', -, hentries, -⟩
    cases hp.symm.trans hp'
    cases hr.symm.trans hr'
    exact hentries
  · intro hexact
    exact ⟨p, _, hp, hr, rfl, hexact, congrArg (List.map m.stored) hexact⟩

theorem Deletes.keepsAll_drops_iff (h : m.Deletes true)
    (hp : m.replayWal disk snapshot false = .ok p) :
    m.DropsUncommitted disk snapshot ↔ ∀ e ∈ p.entries, m.index e ≤ p.hardState.commit := by
  obtain ⟨hconsecutive, hr⟩ := h disk snapshot p hp
  have hself : m.committed p = p.entries ↔ ∀ e ∈ p.entries, m.index e ≤ p.hardState.commit := by
    simp [committed, filter_eq_self]
  rw [← hself]
  constructor
  · rintro ⟨p', r, hp', hr', -, -, hstorage⟩
    cases hp.symm.trans hp'
    cases hr.symm.trans hr'
    have hlength := congrArg List.length hstorage
    rw [length_map, length_map] at hlength
    exact filter_sublist.eq_of_length hlength.symm
  · intro hall
    have hleft : deleteFrom m.index p.hardState.commit p.entries = m.committed p := by
      rw [Babuzawal.deleteFrom_eq hconsecutive]
      split
      · exact hall.symm
      · rfl
    exact ⟨p, _, hp, hr, rfl, hleft, congrArg (List.map m.stored) hall.symm⟩

end Iff

/-- The result and the storage hold exactly the committed entries above the snapshot, whatever is
persisted, if and only if the manager has nothing to delete where it cannot delete. -/
theorem dropsUncommitted_iff (hms : ms.Lawful) (hlib : lib.Lawful) (type : ManagerType)
    {disk : (ofType codecs options pool ms lib type).Disk} {snapshot : Option Snapshot}
    {p : Replayed (ofType codecs options pool ms lib type).E
      (ofType codecs options pool ms lib type).S}
    (hp : (ofType codecs options pool ms lib type).replayWal disk snapshot false = .ok p)
    (hcommit : startIndex snapshot ≤ p.hardState.commit) :
    (ofType codecs options pool ms lib type).DropsUncommitted disk snapshot ↔
      (ofType codecs options pool ms lib type).Droppable type snapshot p := by
  have hdeletes : (ofType codecs options pool ms lib type).Deletes (keepsAll type) :=
    ofType_deletes hms hlib type
  cases type with
  | babuzawal | etcdwal => exact hdeletes.drops_iff hp hcommit
  | lsmtwal => exact hdeletes.keepsAll_drops_iff hp

/-! ## Logs with an uncommitted entry -/

/-- How many entries are persisted and committed, and how many a deletion leaves in the result and
in the storage. -/
def counts (m : WalManager) (disk : m.Disk) : Except m.Error (Nat × Nat × Nat) := do
  let p ← m.replayWal disk none false
  let r ← m.replayWal disk none true
  return ((m.committed p).length, r.entries.length, r.storage.length)

theorem not_drops_of_counts {m : WalManager} {disk : m.Disk} {committed entries storage : Nat}
    (h : m.counts disk = .ok (committed, entries, storage))
    (hne : entries ≠ committed ∨ storage ≠ committed) : ¬ m.DropsUncommitted disk none := by
  rintro ⟨p, r, hp, hr, -, hentries, hstorage⟩
  rw [counts, hp, ok_bind, hr, ok_bind, hentries, hstorage, length_map] at h
  cases h
  rcases hne with hne | hne <;> exact hne rfl

def nativeLog (st : HardState) (entries : List Entry) :
    Except Babuzawal.WalError Babuzawal.Directory := do
  let (w, dir) ← Babuzawal.createWalInternal .unary [1, 2, 3, 4] (Babuzawal.smallOptions 210)
    Babuzawal.smallPool
  let (w, dir) ← w.save .unary dir st entries
  w.close dir

def lsmtLog (st : HardState) (entries : List Entry) : Except Lsmtwal.LsmtError Lsmtwal.Db := do
  let w ← ((Lsmtwal.createWal .unary []).save .unary st entries).append entries
  return w.db

def nativeManager : WalManager :=
  babuzawalIndexed .unary (Babuzawal.smallOptions 210) Babuzawal.smallPool

/-- The native log keeps its only entry, which is not committed; Pebble leaves the second entry
of two in the storage although only the first is committed. -/
theorem uncommitted_not_dropped :
    (∃ dir, nativeLog ⟨1, 0, 0⟩ [⟨1, 1, .normal, [7]⟩] = .ok dir ∧
      ¬ nativeManager.DropsUncommitted dir none) ∧
    ∃ db, lsmtLog ⟨1, 0, 1⟩ [⟨1, 1, .normal, [7]⟩, ⟨1, 2, .normal, [8]⟩] = .ok db ∧
      ¬ (lsmtwal .unary .pebble).DropsUncommitted db none := by
  constructor
  · have h : (nativeLog ⟨1, 0, 0⟩ [⟨1, 1, .normal, [7]⟩] >>= fun dir => nativeManager.counts dir) =
        .ok (0, 1, 1) := by decide +kernel
    obtain ⟨dir, hdir, hcounts⟩ := bind_eq_ok.mp h
    exact ⟨dir, hdir, not_drops_of_counts hcounts (.inl (by decide))⟩
  · have h : (lsmtLog ⟨1, 0, 1⟩ [⟨1, 1, .normal, [7]⟩, ⟨1, 2, .normal, [8]⟩] >>= fun db =>
        (lsmtwal .unary .pebble).counts db) = .ok (1, 1, 2) := by decide +kernel
    obtain ⟨db, hdb, hcounts⟩ := bind_eq_ok.mp h
    exact ⟨db, hdb, not_drops_of_counts hcounts (.inr (by decide))⟩

def listStorage : MemoryStorage where
  Storage := Nat × List Entry
  newMemoryStorage := (0, [])
  applySnapshot _ snap := (snap.metadata.index, [])
  setHardState st _ := st
  append st es := some (st.1, truncAppend Entry.index st.1 st.2 es)
  offset := Prod.fst
  entries := Prod.snd

theorem listStorage_lawful : listStorage.Lawful where
  new := ⟨rfl, rfl⟩
  applySnapshot _ := ⟨rfl, rfl⟩
  setHardState _ _ := ⟨rfl, rfl⟩
  append st es hst _ := by
    refine ⟨_, rfl, ?_⟩
    show truncAppend Entry.index st.1 st.2 es = es
    rw [show st.2 = [] from hst, truncAppend_nil]

def emptyEtcdWal : Etcdwal.EtcdWal where
  Dir := Unit
  readAll _ _ := .ok ([], .empty, [])
  repair _ := none

theorem emptyEtcdWal_lawful : emptyEtcdWal.Lawful := by
  intro dir snap metadata hardState entries h
  cases h
  exact consecutive_nil

theorem uncommitted_dropped :
    ∃ dir p, nativeLog ⟨1, 0, 1⟩ [⟨1, 1, .normal, [7]⟩, ⟨1, 2, .normal, [8]⟩] = .ok dir ∧
      nativeManager.replayWal dir none false = .ok p ∧ p.entries.length = 2 ∧
      nativeManager.DropsUncommitted dir none := by
  have h : (nativeLog ⟨1, 0, 1⟩ [⟨1, 1, .normal, [7]⟩, ⟨1, 2, .normal, [8]⟩] >>= fun dir =>
      (nativeManager.replayWal dir none false).map fun p =>
        (p.entries.length, p.hardState.commit)) = .ok (2, 1) := by decide +kernel
  obtain ⟨dir, hdir, h⟩ := bind_eq_ok.mp h
  obtain ⟨p, hp, heq⟩ := map_eq_ok h
  obtain ⟨hlength, hcommit⟩ := Prod.mk.inj heq
  have hpos : 0 < p.hardState.commit := by
    rw [← hcommit]
    exact Nat.one_pos
  exact ⟨dir, p, hdir, hp, hlength.symm, (dropsUncommitted_iff listStorage_lawful
    emptyEtcdWal_lawful (.babuzawal false) hp (Nat.zero_le _)).mpr (.inr hpos)⟩

end WalManager

end Babuza
