import Babuza.Lib.Run
import Babuza.Walbase.Cache

/-!
# `walbase.EntryStorage`

The raft storage over an index of the log (`walbase/storage.go`): the terms, indices and types of
the live entries are in memory, the data is read back through the cache or through a reader.

The source keeps the index in one slice whose head stands for the snapshot; here `dummy` is that
head and `ents` the rest, so the slice is never empty. A panic is the error `StorageError.panic`.
-/

namespace Babuza.Walbase

open Lib

inductive StorageError
  | compacted
  | unavailable
  | snapOutOfDate
  | outOfBound (hi lastIndex : Nat)
  | missingLogEntry (lastIndex appendAt : Nat)
  | cacheMiss
  | read
  | panic
  deriving DecidableEq

structure EntryIndex (T : Type) where
  term : Nat
  index : Nat
  type : EntryType
  metadata : T
  deriving DecidableEq

/-- `EntryDataReader.ReadEntriesData`: the entries with their data filled in. -/
abbrev EntryDataReader (T : Type) :=
  List (EntryIndex T) → List Entry → Except StorageError (List Entry)

structure EntryStorage (T : Type) where
  hardState : HardState
  snapshot : Snapshot
  cache : Cache
  dummy : EntryIndex T
  ents : List (EntryIndex T)
  deriving DecidableEq

namespace EntryStorage

variable {T : Type}

/-- An entry of the index that only stands for a position. -/
def marker [Inhabited T] (term index : Nat) : EntryIndex T := ⟨term, index, .normal, default⟩

def newEntryStorage [Inhabited T] : EntryStorage T where
  hardState := .empty
  snapshot := .empty
  cache := .newCache
  dummy := marker 0 0
  ents := []

def lastIndex (es : EntryStorage T) : Nat := es.dummy.index + es.ents.length

def firstIndex (es : EntryStorage T) : Nat := es.dummy.index + 1

/-- `validateGetEntriesRange`: the first index and the offsets of both ends. -/
def validateGetEntriesRange (es : EntryStorage T) (lo hi : Nat) :
    Except StorageError (Nat × Nat × Nat) :=
  if lo ≤ es.dummy.index then .error .compacted
  else if es.lastIndex + 1 < hi then .error (.outOfBound hi es.lastIndex)
  else if es.ents = [] then .error .unavailable
  else .ok (es.dummy.index, lo - es.dummy.index, hi - es.dummy.index)

/-- `es.ents[loOffset:hiOffset]` for a positive `loOffset`. -/
def slice (es : EntryStorage T) (loOffset hiOffset : Nat) : List (EntryIndex T) :=
  (es.ents.drop (loOffset - 1)).take (hiOffset - loOffset)

def blank (e : EntryIndex T) : Entry := ⟨e.term, e.index, e.type, []⟩

/-- `cache.ReadEntriesData` where the source expects a hit. -/
def readCache (es : EntryStorage T) (ents : List Entry) : Except StorageError (List Entry) :=
  match es.cache.readEntriesData ents with
  | .error () => .error .panic
  | .ok none => .error .cacheMiss
  | .ok (some ents) => .ok ents

/-- The loop of `limitSize` behind the first entry. -/
def takeWithin (size : Entry → Nat) (maxSize : Nat) : Nat → List Entry → List Entry
  | _, [] => []
  | total, e :: ents =>
    if maxSize < total + size e then [] else e :: takeWithin size maxSize (total + size e) ents

/-- `limitSize`, with `size` for the encoded size of an entry. -/
def limitSize (size : Entry → Nat) (maxSize : Nat) : List Entry → List Entry
  | [] => []
  | e :: ents => e :: takeWithin size maxSize (size e) ents

/-- `Entries` before `limitSize`: the data is spliced from the reader and the cache. -/
def readEntries (reader : EntryDataReader T) (es : EntryStorage T) (lo hi : Nat) :
    Except StorageError (List Entry) := do
  let (firstEntryIndex, loOffset, hiOffset) ← es.validateGetEntriesRange lo hi
  if hiOffset < loOffset then
    throw .panic
  let copyEnts := (es.slice loOffset hiOffset).map blank
  let cacheRange := es.cache.indexRange
  let includedHiEntryIndex := firstEntryIndex + hiOffset - 1
  let loEntryIndex := firstEntryIndex + loOffset
  if cacheRange.empty = true ∨ includedHiEntryIndex < cacheRange.first then
    reader (es.slice loOffset hiOffset) copyEnts
  else if cacheRange.first ≤ loEntryIndex ∧ includedHiEntryIndex ≤ cacheRange.last then
    es.readCache copyEnts
  else if loEntryIndex < cacheRange.first ∧ cacheRange.first ≤ includedHiEntryIndex then
    let cacheFirstOffset := cacheRange.toOffsetIndex firstEntryIndex
    let untilOffset := cacheFirstOffset - loOffset
    let front ← reader (es.slice loOffset cacheFirstOffset) (copyEnts.take untilOffset)
    let back ← es.readCache (copyEnts.drop untilOffset)
    return front ++ back
  else throw .panic

def entries (size : Entry → Nat) (reader : EntryDataReader T) (es : EntryStorage T)
    (lo hi maxSize : Nat) : Except StorageError (List Entry) := do
  let ents ← es.readEntries reader lo hi
  return limitSize size maxSize ents

def applySnapshot [Inhabited T] (es : EntryStorage T) (snap : Snapshot) :
    Except StorageError (EntryStorage T) :=
  if snap.metadata.index ≤ es.snapshot.metadata.index then .error .snapOutOfDate
  else .ok { es with
    snapshot := snap
    cache := es.cache.clear
    dummy := marker snap.metadata.term snap.metadata.index
    ents := [] }

/-- `Compact`. An index beyond the log makes the source read outside its slice. -/
def compact [Inhabited T] (es : EntryStorage T) (compactIndex : Nat) :
    Except StorageError (EntryStorage T) :=
  if compactIndex ≤ es.dummy.index then .error .compacted
  else
    match es.ents[compactIndex - es.dummy.index - 1]? with
    | none => .error .panic
    | some e => .ok { es with
        dummy := marker e.term e.index
        ents := es.ents.drop (compactIndex - es.dummy.index) }

/-- The end of `AppendEntryIndex`, for entries whose compacted front has been cut off. -/
def spliceEntryIndex (es : EntryStorage T) :
    List (EntryIndex T) → Except StorageError (EntryStorage T)
  | [] => .error .panic
  | e :: rest =>
    if e.index < es.dummy.index then
      -- the difference wraps around and exceeds every length
      .error (.missingLogEntry es.lastIndex e.index)
    else
      match e.index - es.dummy.index with
      | 0 => .ok { es with dummy := e, ents := rest }
      | offset + 1 =>
        if offset ≤ es.ents.length then
          .ok { es with ents := es.ents.take offset ++ e :: rest }
        else .error (.missingLogEntry es.lastIndex e.index)

def appendEntryIndex (es : EntryStorage T) :
    List (EntryIndex T) → Except StorageError (EntryStorage T)
  | [] => .ok es
  | e :: rest =>
    let first := es.firstIndex
    let last := e.index + (e :: rest).length - 1
    if last < first then .ok es
    else es.spliceEntryIndex ((e :: rest).drop (first - e.index))

def setHardState (es : EntryStorage T) (st : HardState) : EntryStorage T :=
  { es with hardState := st }

def appendCache (es : EntryStorage T) (ents : List Entry) : EntryStorage T :=
  { es with cache := es.cache.append ents }

def deleteCache (es : EntryStorage T) (commitIndex : Nat) : EntryStorage T :=
  { es with cache := es.cache.delete commitIndex }

/-- `EntryIndex`: the live part of the index. -/
def entryIndex (es : EntryStorage T) : List (EntryIndex T) := es.ents

/-- A new entry storage with the snapshot applied. A replay ignores the error that a snapshot at
index `0` gives. -/
def ofSnapshot [Inhabited T] (snapshot : Option Snapshot) : EntryStorage T :=
  match snapshot with
  | none => newEntryStorage
  | some snap => match newEntryStorage.applySnapshot snap with
    | .error _ => newEntryStorage
    | .ok es => es

/-- What a `Save` of the log does to its entry storage: `saveEntry` puts the entries into the index
and into the cache, `saveHardState` removes the committed ones from the cache. -/
def save (es : EntryStorage T) (st : HardState) (entries : List Entry)
    (index : List (EntryIndex T)) : Except StorageError (EntryStorage T) := do
  let es ← (if entries = [] then .ok es
    else (es.appendEntryIndex index).map fun es => es.appendCache entries)
  return if isEmptyHardState st then es else es.deleteCache st.commit

/-! ## Appending to the index -/

variable {batch : List (EntryIndex T)} {es : EntryStorage T}

theorem appendEntryIndex_above {first : Nat} (hne : batch ≠ [])
    (hbatch : Consecutive EntryIndex.index first batch) (hlo : es.dummy.index < first) :
    es.appendEntryIndex batch = if first ≤ es.lastIndex + 1
      then .ok { es with ents := truncAppend EntryIndex.index es.dummy.index es.ents batch }
      else .error (.missingLogEntry es.lastIndex first) := by
  cases batch with
  | nil => exact absurd rfl hne
  | cons e rest =>
    obtain ⟨he, -⟩ := consecutive_cons.mp hbatch
    have hlast : ¬ e.index + (e :: rest).length - 1 < es.firstIndex := by
      rw [firstIndex, List.length_cons]
      omega
    have hcut : es.firstIndex - e.index = 0 := by
      rw [firstIndex]
      omega
    obtain ⟨offset, hoffset⟩ : ∃ offset, e.index - es.dummy.index = offset + 1 :=
      ⟨e.index - es.dummy.index - 1, by omega⟩
    have hgap : offset ≤ es.ents.length ↔ first ≤ es.lastIndex + 1 := by
      rw [lastIndex]
      omega
    simp only [appendEntryIndex, hlast, if_false, hcut, List.drop_zero, spliceEntryIndex]
    rw [if_neg (by omega), truncAppend, hoffset, Nat.add_sub_cancel]
    simp only [hgap, he]

theorem appendEntryIndex_eq {first : Nat} (hbatch : Consecutive EntryIndex.index first batch)
    (hlo : es.dummy.index < first) (hhi : first ≤ es.lastIndex + 1) :
    es.appendEntryIndex batch =
      .ok { es with ents := truncAppend EntryIndex.index es.dummy.index es.ents batch } := by
  by_cases hne : batch = []
  · rw [hne]
    rfl
  · rw [appendEntryIndex_above hne hbatch hlo, if_pos hhi]

theorem save_append {es' : EntryStorage T} {st : HardState} {entries : List Entry}
    (h : es.save st entries batch = .ok es') :
    ∃ es₁, (if entries = [] then .ok es else es.appendEntryIndex batch) = .ok es₁ ∧
      es'.dummy = es₁.dummy ∧ es'.ents = es₁.ents := by
  obtain ⟨es₂, happend, hpure⟩ := bind_eq_ok.mp h
  cases hpure
  by_cases hentries : entries = []
  · rw [if_pos hentries] at happend
    cases happend
    refine ⟨es, if_pos hentries, ?_⟩
    split
    all_goals exact ⟨rfl, rfl⟩
  · rw [if_neg hentries] at happend
    obtain ⟨es₁, hes₁, rfl⟩ := map_eq_ok happend
    refine ⟨es₁, (if_neg hentries).trans hes₁, ?_⟩
    split
    all_goals exact ⟨rfl, rfl⟩

theorem save_nil_snapshot {es' : EntryStorage T} {st : HardState} {index : List (EntryIndex T)}
    (h : es.save st [] index = .ok es') : es'.snapshot = es.snapshot := by
  have hsave : es.save st [] index =
      .ok (if isEmptyHardState st then es else es.deleteCache st.commit) := rfl
  cases hsave.symm.trans h
  split <;> rfl

theorem ofSnapshot_spec [Inhabited T] (snapshot : Option Snapshot) :
    (ofSnapshot (T := T) snapshot).dummy.index = (snapshot.map (·.metadata.index)).getD 0 ∧
      (ofSnapshot (T := T) snapshot).ents = [] ∧
      (ofSnapshot (T := T) snapshot).snapshot.metadata.index =
        (snapshot.map (·.metadata.index)).getD 0 ∧
      (ofSnapshot (T := T) snapshot).cache.Holds [] := by
  cases snapshot with
  | none => exact ⟨rfl, rfl, rfl, Cache.newCache_holds⟩
  | some snap =>
    have happly : (newEntryStorage (T := T)).applySnapshot snap =
        if snap.metadata.index ≤ 0 then .error .snapOutOfDate
        else .ok { newEntryStorage with
          snapshot := snap
          cache := Cache.newCache.clear
          dummy := marker snap.metadata.term snap.metadata.index } := rfl
    simp only [ofSnapshot, happly]
    by_cases hle : snap.metadata.index ≤ 0
    · rw [if_pos hle]
      have hzero := (Nat.le_zero.mp hle).symm
      exact ⟨hzero, rfl, hzero, Cache.newCache_holds⟩
    · have hnil : Consecutive CacheEntryData.index 0 [] := consecutive_nil
      rw [if_neg hle]
      exact ⟨rfl, rfl, rfl, Cache.newCache_holds.clear hnil⟩

theorem ofSnapshot_appendEntryIndex [Inhabited T] (snapshot : Option Snapshot) (st : HardState)
    {xs : List (EntryIndex T)}
    (hxs : Consecutive EntryIndex.index ((snapshot.map (·.metadata.index)).getD 0 + 1) xs) :
    ∃ es, ((ofSnapshot snapshot).setHardState st).appendEntryIndex xs = .ok es ∧
      es.dummy.index = (snapshot.map (·.metadata.index)).getD 0 ∧ es.ents = xs := by
  obtain ⟨hdummy, hents, -⟩ := ofSnapshot_spec (T := T) snapshot
  refine ⟨_, appendEntryIndex_eq hxs ?_ ?_, hdummy, ?_⟩
  · rw [setHardState, hdummy]
    exact Nat.lt_succ_self _
  · rw [lastIndex, setHardState, hdummy, hents]
    exact Nat.le_refl _
  · simp only [setHardState, hents]
    exact truncAppend_nil _ _

end EntryStorage

end Babuza.Walbase
