import Babuza.Lsmtwal.Wal

/-!
# The log of etcd

`etcdwal`: the manager over `go.etcd.io/etcd/server/v3/wal`. Its entries go into a
`raft.MemoryStorage`, as those of the native log do when its entry index is disabled. The log and
the storage are libraries and enter by what their documentation says of them.
-/

namespace Babuza

open Lib

/-- `raft.MemoryStorage`, as far as a replay uses it; `append` may panic. -/
structure MemoryStorage where
  Storage : Type
  newMemoryStorage : Storage
  applySnapshot : Storage → Snapshot → Storage
  setHardState : Storage → HardState → Storage
  append : Storage → List Entry → Option Storage
  /-- The index in front of the first entry. -/
  offset : Storage → Nat
  entries : Storage → List Entry

namespace MemoryStorage

structure Lawful (ms : MemoryStorage) : Prop where
  new : ms.offset ms.newMemoryStorage = 0 ∧ ms.entries ms.newMemoryStorage = []
  applySnapshot : ∀ snap, let st := ms.applySnapshot ms.newMemoryStorage snap
    ms.offset st = snap.metadata.index ∧ ms.entries st = []
  setHardState : ∀ st hs, ms.offset (ms.setHardState st hs) = ms.offset st ∧
    ms.entries (ms.setHardState st hs) = ms.entries st
  append : ∀ st es, ms.entries st = [] → Consecutive Entry.index (ms.offset st + 1) es →
    ∃ st', ms.append st es = some st' ∧ ms.entries st' = es

def ofSnapshot (ms : MemoryStorage) : Option Snapshot → ms.Storage
  | none => ms.newMemoryStorage
  | some snap => ms.applySnapshot ms.newMemoryStorage snap

theorem Lawful.append_ofSnapshot {ms : MemoryStorage} (h : ms.Lawful) (snapshot : Option Snapshot)
    (hs : HardState) {es : List Entry}
    (hes : Consecutive Entry.index ((snapshot.map (·.metadata.index)).getD 0 + 1) es) :
    ∃ st, ms.append (ms.setHardState (ms.ofSnapshot snapshot) hs) es = some st ∧
      ms.entries st = es := by
  have hstart : ms.offset (ms.ofSnapshot snapshot) = (snapshot.map (·.metadata.index)).getD 0 ∧
      ms.entries (ms.ofSnapshot snapshot) = [] := by
    cases snapshot with
    | none => exact h.new
    | some snap => exact h.applySnapshot snap
  obtain ⟨hoffset, hentries⟩ := h.setHardState (ms.ofSnapshot snapshot) hs
  apply h.append
  · rw [hentries, hstart.2]
  · rwa [hoffset, hstart.1]

end MemoryStorage

namespace Etcdwal

open Lsmtwal

inductive EtcdError
  | unexpectedEOF
  | other
  | panic
  deriving DecidableEq

/-- The package `wal` of etcd: `Open` with `ReadAll`, and `Repair`. -/
structure EtcdWal where
  Dir : Type
  readAll : Dir → WalSnapshot → Except EtcdError (Bytes × HardState × List Entry)
  repair : Dir → Option Dir

/-- `ReadAll` returns the entries behind the snapshot. -/
def EtcdWal.Lawful (lib : EtcdWal) : Prop :=
  ∀ dir snap metadata hardState entries,
    lib.readAll dir snap = .ok (metadata, hardState, entries) →
      Consecutive Entry.index (snap.index + 1) entries

variable (lib : EtcdWal) (ms : MemoryStorage)

/-- The loop of `ReplayWal`: a log that ends too early is repaired once. -/
def openAndRead (dir : lib.Dir) (walSnap : WalSnapshot) :
    Except EtcdError ((Bytes × HardState × List Entry) × lib.Dir) :=
  match lib.readAll dir walSnap with
  | .ok read => .ok (read, dir)
  | .error .unexpectedEOF =>
    match lib.repair dir with
    | none => .error .unexpectedEOF
    | some dir => (lib.readAll dir walSnap).map fun read => (read, dir)
  | .error e => .error e

def walSnapshot : Option Snapshot → WalSnapshot
  | none => .empty
  | some snap => ⟨snap.metadata.index, snap.metadata.term, none⟩

def replayWal (dir : lib.Dir) (snapshot : Option Snapshot) (deleteUncommitted : Bool) :
    Except EtcdError (ReplayResult × ms.Storage × lib.Dir) := do
  let ((metadata, hardState, entries), dir) ← openAndRead lib dir (walSnapshot snapshot)
  let result : ReplayResult := ⟨metadata, hardState, entries⟩
  let m := ms.setHardState (ms.ofSnapshot snapshot) result.hardState
  let result := if deleteUncommitted then
      result.deleteUncommittedEntry result.hardState.commit
    else result
  match ms.append m result.entries with
  | none => throw .panic
  | some m => return (result, m, dir)

theorem openAndRead_consecutive {lib : EtcdWal} (h : lib.Lawful) {dir dir' : lib.Dir}
    {walSnap : WalSnapshot} {metadata : Bytes} {hardState : HardState} {entries : List Entry}
    (hread : openAndRead lib dir walSnap = .ok ((metadata, hardState, entries), dir')) :
    Consecutive Entry.index (walSnap.index + 1) entries := by
  simp only [openAndRead] at hread
  split at hread
  · rename_i read hok
    cases hread
    exact h _ _ _ _ _ hok
  · split at hread
    · cases hread
    · obtain ⟨read, hok, heq⟩ := map_eq_ok hread
      cases heq
      exact h _ _ _ _ _ hok
  · cases hread

theorem walSnapshot_index (snapshot : Option Snapshot) :
    (walSnapshot snapshot).index = (snapshot.map (·.metadata.index)).getD 0 := by
  cases snapshot <;> rfl

end Etcdwal

end Babuza
