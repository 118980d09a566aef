import Babuza.Lib.Kv
import Babuza.Walbase.Storage

/-!
# The write-ahead logs over a key-value store

`lsmtwal`: the log of a node is kept in Pebble or in Badger, one key per entry and per snapshot
record, one for the hard state and one for the metadata. The two managers do the same with their
store; they differ in how an iterator is bounded (`inRange`).

A batch is committed as a whole, so `Save` is one step. Syncing and the purging of old entries are
not part of the model.
-/

namespace Babuza.Lsmtwal

open Lib Walbase List

inductive WalManagerType
  | badger
  | pebble
  deriving DecidableEq

inductive LsmtError
  | unmarshal
  | keyNotFound
  | upOutOfRange
  | entryStorage (e : StorageError)
  deriving DecidableEq

/-- `storage.EntryMetadata`: the entries are found by their index. -/
structure EntryMetadata where
  deriving DecidableEq, Inhabited

def keyHardState : Nat := 1

def keySnapshot : Nat := 2

def keyEntry : Nat := 3

def keyMetadata : Nat := 4

def createKey (groupID typeID : Nat) : Bytes :=
  if groupID = 0 then beBytes 8 typeID else beBytes 8 typeID ++ beBytes 8 groupID

structure KeyPrefix where
  hardState : Bytes
  snapshot : Bytes
  entry : Bytes
  metadata : Bytes

def newKeyPrefix (groupID : Nat) : KeyPrefix where
  hardState := createKey groupID keyHardState
  snapshot := createKey groupID keySnapshot
  entry := createKey groupID keyEntry
  metadata := createKey groupID keyMetadata

/-- The prefixes of a manager that serves one raft group. -/
def keyPrefix : KeyPrefix := newKeyPrefix 0

/-- A key of 24 bytes: the front, zeros up to the sixteenth byte, and the index. -/
def indexKey (front : Bytes) (index : Nat) : Bytes :=
  front ++ zeros (16 - front.length) ++ beBytes 8 index

def entryKey (index : Nat) : Bytes := indexKey keyPrefix.entry index

def snapshotKey (index : Nat) : Bytes := indexKey keyPrefix.snapshot index

/-- The bounds of an iterator: from `front` up to `append(front, 0xff)` in Pebble, and
`ValidForPrefix` in Badger. -/
def inRange (type : WalManagerType) (front key : Bytes) : Bool :=
  match type with
  | .pebble => keyRank front ≤ keyRank key && keyRank key < keyRank (front ++ [0xff])
  | .badger => front.isPrefixOf key

abbrev Db := AList fun _ : Bytes => Bytes

/-- An iterator over the keys that begin with `front`, in key order. -/
def iterate (type : WalManagerType) (db : Db) (front : Bytes) : List (Bytes × Bytes) :=
  scan keyRank db (inRange type front)

structure LsmtWal where
  db : Db
  es : EntryStorage EntryMetadata
  deriving DecidableEq

def entryIndexOf (e : Entry) : EntryIndex EntryMetadata := ⟨e.term, e.index, e.type, {}⟩

variable (codecs : RaftCodecs)

def createWal (metadata : Bytes) : LsmtWal where
  db := ((∅ : Db).insert keyPrefix.snapshot (codecs.walSnapshot.marshal .empty)).insert
    keyPrefix.metadata metadata
  es := .newEntryStorage

def setHardState (db : Db) (st : HardState) : Db :=
  if isEmptyHardState st then db else db.insert keyPrefix.hardState (codecs.hardState.marshal st)

def setEntry (db : Db) (e : Entry) : Db := db.insert (entryKey e.index) (codecs.entry.marshal e)

namespace LsmtWal

/-- `Save`: one batch, and the entries into the cache. -/
def save (w : LsmtWal) (st : HardState) (entries : List Entry) : LsmtWal where
  db := entries.foldl (setEntry codecs) (setHardState codecs w.db st)
  es := if entries = [] then w.es else w.es.appendCache entries

def saveSnapshot (w : LsmtWal) (snapshot : Snapshot) : LsmtWal :=
  if isEmptySnap snapshot then w
  else { w with
    db := w.db.insert (snapshotKey snapshot.metadata.index)
      (codecs.walSnapshot.marshal snapshot.toWal) }

/-- `EntryStorage.Append`, which the Ready loop calls after `Save`. -/
def append (w : LsmtWal) (entries : List Entry) : Except LsmtError LsmtWal := do
  let es ← (w.es.appendEntryIndex (entries.map entryIndexOf)).mapError .entryStorage
  return { w with es := es }

end LsmtWal

def unmarshal {α : Type} (codec : MessageCodec α) (data : Bytes) : Except LsmtError α :=
  match codec.unmarshal data with
  | none => .error .unmarshal
  | some a => .ok a

def readEntry (db : Db) (x : EntryIndex EntryMetadata) : Except StorageError Entry :=
  match db.lookup (entryKey x.index) with
  | none => .error .read
  | some data => (unmarshal codecs.entry data).mapError fun _ => .read

def readEntriesData (db : Db) : EntryDataReader EntryMetadata := fun xs ents =>
  if xs.length ≠ ents.length ∨ xs = [] then .error .read else xs.mapM (readEntry codecs db)

def replayEntries (snapIndex : Nat) : List (Bytes × Bytes) → List Entry →
    Except LsmtError (List Entry)
  | [], entries => .ok entries
  | x :: rest, entries => do
    let entry ← unmarshal codecs.entry x.2
    if snapIndex < entry.index then
      let up := entry.index - snapIndex - 1
      if entries.length < up then .error .upOutOfRange
      else replayEntries snapIndex rest (entries.take up ++ [entry])
    else replayEntries snapIndex rest entries

structure ReplayResult where
  metadata : Bytes
  hardState : HardState
  entries : List Entry
  deriving DecidableEq

/-- `DeleteUncommittedEntry`. A log whose first entry is uncommitted is left as it is. -/
def ReplayResult.deleteUncommittedEntry (r : ReplayResult) (commitIndex : Nat) : ReplayResult :=
  match r.entries.findIdx? (fun e => commitIndex < e.index) with
  | none | some 0 => r
  | some deleteFrom => { r with entries := r.entries.take deleteFrom }

/-- The hard state in the store, the empty one before the first was saved. -/
def readHardState (db : Db) : Except LsmtError HardState :=
  match db.lookup keyPrefix.hardState with
  | none => .ok .empty
  | some data => unmarshal codecs.hardState data

/-- `ReplayWal`. The entry storage gets all entries, the deleted ones included. -/
def replayWal (type : WalManagerType) (db : Db) (snapshot : Option Snapshot)
    (deleteUncommitted : Bool) : Except LsmtError (ReplayResult × LsmtWal) := do
  let hardState ← readHardState codecs db
  match db.lookup keyPrefix.metadata with
  | none => throw .keyNotFound
  | some metadata =>
    let entries ← replayEntries codecs ((snapshot.map (·.metadata.index)).getD 0)
      (iterate type db keyPrefix.entry) []
    let result : ReplayResult := ⟨metadata, hardState, entries⟩
    let result := if deleteUncommitted then result.deleteUncommittedEntry hardState.commit
      else result
    let es := (EntryStorage.ofSnapshot snapshot).setHardState result.hardState
    let w ← LsmtWal.append ⟨db, es⟩ entries
    return (result, w)

/-! ## Key ranges -/

variable {m n : Nat}

theorem beBytes_injective (hm : m < 256 ^ 8) (hn : n < 256 ^ 8) (h : beBytes 8 m = beBytes 8 n) :
    m = n := by
  rcases Nat.lt_trichotomy m n with hlt | heq | hgt
  · exact absurd (h ▸ keyRank_beBytes_lt hn hlt) (lt_irrefl _)
  · exact heq
  · exact absurd (h ▸ keyRank_beBytes_lt hm hgt) (lt_irrefl _)

theorem inRange_beBytes (type : WalManagerType) {a b : Nat} {rest : Bytes} (ha : a < 256 ^ 8)
    (hb : b < 256 ^ 8) (hrest : keyRank rest < [255]) :
    inRange type (beBytes 8 a) (beBytes 8 b ++ rest) ↔ a = b := by
  have hlen : ∀ m n, (keyRank (beBytes 8 m)).length = (keyRank (beBytes 8 n)).length := by
    intro m n
    simp [keyRank]
  cases type with
  | badger =>
    rw [inRange, isPrefixOf_iff_prefix]
    constructor
    · intro h
      apply beBytes_injective ha hb
      have htake := prefix_iff_eq_take.mp h
      rwa [take_append_of_le_length (by simp), take_of_length_le (by simp)] at htake
    · rintro rfl
      exact prefix_append _ _
  | pebble =>
    simp only [inRange, Bool.and_eq_true, decide_eq_true_eq, keyRank_append]
    constructor
    · rintro ⟨hle, hlt⟩
      rcases Nat.lt_trichotomy a b with hab | heq | hba
      · have := append_lt_append_of_lt (c := keyRank [0xff]) (d := keyRank rest) (hlen a b)
          (keyRank_beBytes_lt hb hab)
        exact absurd hlt this.not_gt
      · exact heq
      · have := append_lt_append_of_lt (c := keyRank rest) (d := []) (hlen b a)
          (keyRank_beBytes_lt ha hba)
        rw [append_nil] at this
        exact absurd hle this.not_ge
    · rintro rfl
      exact ⟨le_append_right _ _, append_lt_append_left hrest⟩

theorem keyRank_indexRest (i : Nat) : keyRank (zeros 8 ++ beBytes 8 i) < [255] := by
  rw [keyRank_append]
  exact cons_lt_cons_iff.mpr (.inl (by decide))

theorem entryKey_eq (i : Nat) : entryKey i = beBytes 8 3 ++ (zeros 8 ++ beBytes 8 i) := by
  rw [← append_assoc]
  rfl

theorem snapshotKey_eq (i : Nat) : snapshotKey i = beBytes 8 2 ++ (zeros 8 ++ beBytes 8 i) := by
  rw [← append_assoc]
  rfl

variable (type : WalManagerType)

theorem inRange_entry_entryKey (i : Nat) : inRange type keyPrefix.entry (entryKey i) := by
  rw [entryKey_eq]
  exact (inRange_beBytes type (by decide) (by decide) (keyRank_indexRest i)).mpr rfl

theorem not_inRange_entry {key : Bytes} (h : key = keyPrefix.hardState ∨
    key = keyPrefix.snapshot ∨ key = keyPrefix.metadata ∨ ∃ i, key = snapshotKey i) :
    ¬ inRange type keyPrefix.entry key := by
  rcases h with rfl | rfl | rfl | ⟨i, rfl⟩
  · cases type <;> decide
  · cases type <;> decide
  · cases type <;> decide
  · rw [snapshotKey_eq]
    exact mt (inRange_beBytes type (by decide) (by decide) (keyRank_indexRest i)).mp (by decide)

theorem not_inRange_snapshot {key : Bytes} (h : key = keyPrefix.hardState ∨
    key = keyPrefix.metadata ∨ ∃ i, key = entryKey i) :
    ¬ inRange type keyPrefix.snapshot key := by
  rcases h with rfl | rfl | ⟨i, rfl⟩
  · cases type <;> decide
  · cases type <;> decide
  · rw [entryKey_eq]
    exact mt (inRange_beBytes type (by decide) (by decide) (keyRank_indexRest i)).mp (by decide)

theorem keyRank_indexKey_lt (front : Bytes) (hn : n < 256 ^ 8) (h : m < n) :
    keyRank (indexKey front m) < keyRank (indexKey front n) := by
  rw [indexKey, indexKey, keyRank_append, keyRank_append (front ++ _)]
  exact append_lt_append_left (keyRank_beBytes_lt hn h)

theorem keyRank_indexKey_lt_iff (front : Bytes) (hm : m < 256 ^ 8) (hn : n < 256 ^ 8) :
    keyRank (indexKey front m) < keyRank (indexKey front n) ↔ m < n := by
  refine ⟨fun h => ?_, keyRank_indexKey_lt front hn⟩
  by_contra hle
  rcases Nat.lt_or_eq_of_le (Nat.not_lt.mp hle) with hlt | rfl
  · exact absurd (keyRank_indexKey_lt front hm hlt) h.not_gt
  · exact lt_irrefl _ h

theorem indexKey_injective {front : Bytes} (hm : m < 256 ^ 8) (hn : n < 256 ^ 8)
    (h : indexKey front m = indexKey front n) : m = n :=
  beBytes_injective hm hn (append_cancel_left h)

end Babuza.Lsmtwal
