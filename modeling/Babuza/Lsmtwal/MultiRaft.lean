import Babuza.Lib.LinkedMap
import Babuza.Lsmtwal.Purge

/-!
# One store for many raft groups

`MultiRaftPebbleWalManager` and `MultiRaftBadgerWalManager`: the logs of all groups of a node lie in
one key-value store. The keys of a group begin with sixteen bytes that no other group has, so an
operation on a group touches keys of this group only. The list of the groups is read off the
metadata keys of all of them; with Pebble the range of this scan ends at the ids whose first byte is
`0xff`.
-/

namespace Babuza.Lsmtwal

open Lib Walbase List

/-- The ids of raft groups. Zero stands for a manager with one group. -/
abbrev GroupID := { n : Nat // 0 < n ∧ n < 256 ^ 8 }

structure KeyPrefixCacheEntry where
  groupID : GroupID
  keyPrefix : KeyPrefix

/-- `keyPrefixCache`, with the map `cache` and the list `lru`. -/
structure KeyPrefixCache where
  capacity : Int
  lists : LinkedMap GroupID KeyPrefixCacheEntry

def newKeyPrefixCache (capacity : Int) : KeyPrefixCache := ⟨capacity, .empty 0⟩

def KeyPrefixCache.get (c : KeyPrefixCache) (groupID : GroupID) : KeyPrefix × KeyPrefixCache :=
  match c.lists.map.lookup groupID with
  | some e => (e.value.keyPrefix, { c with lists := c.lists.moveToFront e })
  | none =>
    let kp := newKeyPrefix groupID
    let lists := c.lists.pushFront groupID ⟨groupID, kp⟩
    (kp, { c with lists := lists.evict KeyPrefixCacheEntry.groupID c.capacity })

/-- The map and the list agree, and every prefix is the one of its group. -/
structure KeyPrefixCache.Sound (c : KeyPrefixCache) : Prop where
  linked : c.lists.Linked KeyPrefixCacheEntry.groupID
  keyPrefix : ∀ e ∈ c.lists.list, e.value.keyPrefix = newKeyPrefix e.value.groupID

theorem newKeyPrefixCache_sound (capacity : Int) : (newKeyPrefixCache capacity).Sound :=
  ⟨LinkedMap.linked_empty _ 0, forall_mem_nil _⟩

theorem KeyPrefixCache.Sound.get {c : KeyPrefixCache} (h : c.Sound) (groupID : GroupID) :
    (c.get groupID).1 = newKeyPrefix groupID ∧ (c.get groupID).2.Sound := by
  unfold KeyPrefixCache.get
  cases hfound : c.lists.map.lookup groupID with
  | some e =>
    obtain ⟨he, rfl⟩ := (h.linked.lookup _ _).mp hfound
    exact ⟨h.keyPrefix e he, h.linked.moveToFront e, fun e' he' =>
      h.keyPrefix e' ((c.lists.moveToFront_perm e).mem_iff.mp he')⟩
  | none =>
    have hnew := h.linked.lookup_eq_none.mp hfound
    have hpush := h.linked.pushFront (a := ⟨groupID, newKeyPrefix groupID⟩) hnew
    refine ⟨rfl, (hpush.evict c.capacity).1, fun e he => ?_⟩
    rcases mem_cons.mp (LinkedMap.mem_list_evict he) with rfl | he
    · rfl
    · exact h.keyPrefix e he

theorem KeyPrefixCache.Sound.length_get {c : KeyPrefixCache} (h : c.Sound) (groupID : GroupID)
    (hlength : c.lists.list.length ≤ c.capacity.toNat) :
    (c.get groupID).2.capacity = c.capacity ∧
      (c.get groupID).2.lists.list.length ≤ c.capacity.toNat := by
  unfold KeyPrefixCache.get
  cases hfound : c.lists.map.lookup groupID with
  | some e => exact ⟨rfl, (c.lists.moveToFront_perm e).length_eq ▸ hlength⟩
  | none =>
    have hnew := h.linked.lookup_eq_none.mp hfound
    have hpush := h.linked.pushFront (a := ⟨groupID, newKeyPrefix groupID⟩) hnew
    refine ⟨rfl, ?_⟩
    rw [← LinkedMap.length_keys KeyPrefixCacheEntry.groupID, (hpush.evict c.capacity).2,
      LinkedMap.length_keys]
    split
    · rw [length_dropLast, LinkedMap.length_keys]
      exact hlength
    next hfits =>
      rw [LinkedMap.length_keys]
      omega

/-- Whatever groups were asked for before, the cache answers with the prefix of the group. Its map
and its list agree, with each group once and at most `capacity` of them. -/
theorem keyPrefixCache_run (capacity : Int) (gs : List GroupID) (g : GroupID) :
    let c := gs.foldl (fun c g => (c.get g).2) (newKeyPrefixCache capacity)
    (c.get g).1 = newKeyPrefix g ∧ c.lists.list.length ≤ capacity.toNat ∧
      (c.lists.keys KeyPrefixCacheEntry.groupID).Nodup ∧
      ∀ groupID e, c.lists.map.lookup groupID = some e ↔
        e ∈ c.lists.list ∧ e.value.groupID = groupID := by
  intro c
  have h : c.Sound ∧ c.capacity = capacity ∧ c.lists.list.length ≤ capacity.toNat := by
    refine foldlRecOn (motive := fun c : KeyPrefixCache =>
      c.Sound ∧ c.capacity = capacity ∧ c.lists.list.length ≤ capacity.toNat) gs _
      ⟨newKeyPrefixCache_sound capacity, rfl, Nat.zero_le _⟩ ?_
    rintro c ⟨hsound, rfl, hlength⟩ g -
    exact ⟨(hsound.get g).2, hsound.length_get g hlength⟩
  exact ⟨(h.1.get g).1, h.2.2, h.1.linked.keys_nodup, h.1.linked.lookup⟩

/-! ## The store -/

inductive MultiRaftError
  | keyTooShort
  deriving DecidableEq

namespace MultiRaft

variable (codecs : RaftCodecs) (type : WalManagerType) (db : Db) (groupPrefix : KeyPrefix)

def findSnapshot : Except LsmtError (List WalSnapshot) :=
  (iterate type db groupPrefix.snapshot).mapM fun x => unmarshal codecs.walSnapshot x.2

/-- `CreateWal`. What the store has for the group already is left in it. -/
def createWal (metadata : Bytes) : Db :=
  (db.insert groupPrefix.snapshot (codecs.walSnapshot.marshal .empty)).insert groupPrefix.metadata
    metadata

def setEntry (db : Db) (e : Entry) : Db :=
  db.insert (indexKey groupPrefix.entry e.index) (codecs.entry.marshal e)

def save (st : HardState) (entries : List Entry) : Db :=
  entries.foldl (setEntry codecs groupPrefix)
    (if isEmptyHardState st then db
      else db.insert groupPrefix.hardState (codecs.hardState.marshal st))

def saveSnapshot (snapshot : Snapshot) : Db :=
  if isEmptySnap snapshot then db
  else db.insert (indexKey groupPrefix.snapshot snapshot.metadata.index)
    (codecs.walSnapshot.marshal snapshot.toWal)

/-- The keys that `purgeSnapshot` deletes: a range in Pebble, one key after the other in Badger. -/
def purgedKeys (snapshot : Snapshot) : List Bytes :=
  match type with
  | .pebble =>
    (scan keyRank db fun key =>
      keyRank groupPrefix.entry ≤ keyRank key &&
        keyRank key < keyRank (indexKey groupPrefix.entry (purgeBound snapshot))).map Prod.fst
  | .badger =>
    ((iterate .badger db groupPrefix.entry).map Prod.fst).takeWhile fun key =>
      beNat (key.drop 16) < purgeBound snapshot

def purgeSnapshot (snapshot : Snapshot) : Db :=
  if isEmptySnap snapshot then db else eraseKeys db (purgedKeys type db groupPrefix snapshot)

/-- `RemoveData`: `DeleteRange` up to `append(keyType, 0xff)` in Pebble, `DropPrefix` in Badger. -/
def removeData : Db :=
  match db.lookup groupPrefix.metadata with
  | none => db
  | some _ =>
    eraseKeys db ((scan keyRank db fun key =>
      inRange type groupPrefix.hardState key || inRange type groupPrefix.snapshot key ||
        inRange type groupPrefix.metadata key || inRange type groupPrefix.entry key).map Prod.fst)

/-- `HasExistingWals`: the ids in the metadata keys. Pebble passes over keys that have none, Badger
slices every key. -/
def hasExistingWals : Except MultiRaftError (List Nat) :=
  match type with
  | .pebble => .ok ((iterate .pebble db (beBytes 8 keyMetadata)).filterMap fun x =>
      if 16 ≤ x.1.length then some (beNat ((x.1.drop 8).take 8)) else none)
  | .badger => (iterate .badger db (beBytes 8 keyMetadata)).mapM fun x =>
      if x.1.length < 16 then .error .keyTooShort else .ok (beNat ((x.1.drop 8).take 8))

def readEntry (x : EntryIndex EntryMetadata) : Except StorageError Entry :=
  match db.lookup (indexKey groupPrefix.entry x.index) with
  | none => .error .read
  | some data => (unmarshal codecs.entry data).mapError fun _ => .read

/-- The loop of Badger's `ReadEntriesData` over the pairs that its iterator meets. -/
def readFound : List (Bytes × Bytes) → List (EntryIndex EntryMetadata) →
    Except StorageError (List Entry)
  | _, [] => .ok []
  | [], _ :: _ => .error .read
  | item :: items, x :: xs => do
    if beNat (item.1.drop 16) ≠ x.index then
      throw .read
    let ent ← (unmarshal codecs.entry item.2).mapError fun _ => .read
    let rest ← readFound items xs
    return ent :: rest

def readEntriesData : EntryDataReader EntryMetadata := fun xs ents =>
  if xs.length ≠ ents.length then .error .read
  else match xs with
    | [] => .error .read
    | x :: _ =>
      match type with
      | .pebble => xs.mapM (readEntry codecs db groupPrefix)
      | .badger => readFound codecs (scan keyRank db fun key =>
          keyRank (indexKey groupPrefix.entry x.index) ≤ keyRank key &&
            groupPrefix.entry.isPrefixOf key) xs

def readHardState : Except LsmtError HardState :=
  match db.lookup groupPrefix.hardState with
  | none => .ok .empty
  | some data => unmarshal codecs.hardState data

def replayWal (snapshot : Option Snapshot) (deleteUncommitted : Bool) :
    Except LsmtError (ReplayResult × EntryStorage EntryMetadata) := do
  let hardState ← readHardState codecs db groupPrefix
  match db.lookup groupPrefix.metadata with
  | none => throw .keyNotFound
  | some metadata =>
    let entries ← replayEntries codecs ((snapshot.map (·.metadata.index)).getD 0)
      (iterate type db groupPrefix.entry) []
    let result : ReplayResult := ⟨metadata, hardState, entries⟩
    let result := if deleteUncommitted then result.deleteUncommittedEntry hardState.commit
      else result
    let es := (EntryStorage.ofSnapshot snapshot).setHardState result.hardState
    let es ← (es.appendEntryIndex (entries.map entryIndexOf)).mapError .entryStorage
    return (result, es)

end MultiRaft

/-- A manager: the store, the cache, and the prefixes that the open logs hold. -/
structure MultiRaftManager where
  db : Db
  prefixCache : KeyPrefixCache
  wals : GroupID → Option KeyPrefix

/-- What a node does with the logs of its groups. `Save` and `SaveSnapshot` are called on an open
log, the purger has the id of the group. -/
inductive GroupOp
  | createWal (groupID : GroupID) (metadata : Bytes)
  | save (groupID : GroupID) (st : HardState) (entries : List Entry)
  | saveSnapshot (groupID : GroupID) (snapshot : Snapshot)
  | purge (groupID : GroupID) (snapshot : Snapshot)
  | removeData (groupID : GroupID)

def GroupOp.groupID : GroupOp → GroupID
  | createWal g _ | save g _ _ | saveSnapshot g _ | purge g _ | removeData g => g

namespace MultiRaftManager

def new (capacity : Int) : MultiRaftManager := ⟨∅, newKeyPrefixCache capacity, fun _ => none⟩

variable (codecs : RaftCodecs) (type : WalManagerType)

def exec (m : MultiRaftManager) : GroupOp → MultiRaftManager
  | .createWal g metadata =>
    let (groupPrefix, cache) := m.prefixCache.get g
    let (walPrefix, cache) := cache.get g
    ⟨MultiRaft.createWal codecs m.db groupPrefix metadata, cache,
      Function.update m.wals g (some walPrefix)⟩
  | .save g st entries =>
    match m.wals g with
    | none => m
    | some walPrefix => { m with db := MultiRaft.save codecs m.db walPrefix st entries }
  | .saveSnapshot g snapshot =>
    match m.wals g with
    | none => m
    | some walPrefix => { m with db := MultiRaft.saveSnapshot codecs m.db walPrefix snapshot }
  | .purge g snapshot =>
    let (groupPrefix, cache) := m.prefixCache.get g
    { m with db := MultiRaft.purgeSnapshot type m.db groupPrefix snapshot, prefixCache := cache }
  | .removeData g =>
    let (groupPrefix, cache) := m.prefixCache.get g
    { m with db := MultiRaft.removeData type m.db groupPrefix, prefixCache := cache }

def findSnapshot (m : MultiRaftManager) (g : GroupID) : Except LsmtError (List WalSnapshot) :=
  MultiRaft.findSnapshot codecs type m.db (m.prefixCache.get g).1

def replayWal (m : MultiRaftManager) (g : GroupID) (snapshot : Option Snapshot)
    (deleteUncommitted : Bool) : Except LsmtError (ReplayResult × EntryStorage EntryMetadata) :=
  MultiRaft.replayWal codecs type m.db (m.prefixCache.get g).1 snapshot deleteUncommitted

def readEntriesData (m : MultiRaftManager) (g : GroupID) : EntryDataReader EntryMetadata :=
  MultiRaft.readEntriesData codecs type m.db (m.prefixCache.get g).1

def SameReads (m m' : MultiRaftManager) (g : GroupID) : Prop :=
  m.findSnapshot codecs type g = m'.findSnapshot codecs type g ∧
  (∀ snapshot deleteUncommitted, m.replayWal codecs type g snapshot deleteUncommitted =
    m'.replayWal codecs type g snapshot deleteUncommitted) ∧
  m.readEntriesData codecs type g = m'.readEntriesData codecs type g

end MultiRaftManager

section Keys

variable {type : WalManagerType} {g h : GroupID} {front key : Bytes} {ts ts' : List Nat}

theorem createKey_eq (g : GroupID) (typeID : Nat) :
    createKey g typeID = beBytes 8 typeID ++ beBytes 8 g :=
  if_neg (Nat.pos_iff_ne_zero.mp g.2.1)

@[simp] theorem createKey_length (g : GroupID) (typeID : Nat) :
    (createKey g typeID).length = 16 := by
  simp [createKey_eq]

theorem indexKey_createKey (g : GroupID) (typeID index : Nat) :
    indexKey (createKey g typeID) index = createKey g typeID ++ beBytes 8 index := by
  simp [indexKey, zeros]

theorem inRange_pebble_iff :
    inRange .pebble front key = true ↔ ∃ rest, key = front ++ rest ∧ keyRank rest < [255] := by
  simp only [inRange, Bool.and_eq_true, decide_eq_true_eq]
  constructor
  · rintro ⟨hle, hlt⟩
    obtain ⟨rest, rfl⟩ := prefix_of_le_of_lt hle hlt
    rw [keyRank_append, keyRank_append, append_lt_append_left_iff] at hlt
    exact ⟨rest, rfl, hlt⟩
  · rintro ⟨rest, rfl, hlt⟩
    rw [keyRank_append, keyRank_append]
    exact ⟨le_append_right _ _, append_lt_append_left hlt⟩

theorem prefix_of_inRange (hkey : inRange type front key = true) : front <+: key := by
  cases type with
  | pebble =>
    obtain ⟨rest, rfl, -⟩ := inRange_pebble_iff.mp hkey
    exact prefix_append front rest
  | badger => exact isPrefixOf_iff_prefix.mp hkey

theorem inRange_self (type : WalManagerType) (front : Bytes) : inRange type front front = true := by
  cases type with
  | pebble => exact inRange_pebble_iff.mpr ⟨[], (append_nil front).symm, by decide⟩
  | badger => exact isPrefixOf_iff_prefix.mpr (prefix_refl front)

def Owned (g : GroupID) (ts : List Nat) (key : Bytes) : Prop := ∃ t ∈ ts, createKey g t <+: key

theorem owned_self {t : Nat} (ht : t ∈ ts) : Owned g ts (createKey g t) :=
  ⟨t, ht, prefix_refl _⟩

theorem owned_indexKey {t : Nat} (ht : t ∈ ts) (index : Nat) :
    Owned g ts (indexKey (createKey g t) index) := by
  refine ⟨t, ht, ?_⟩
  rw [indexKey_createKey]
  exact prefix_append _ _

theorem Owned.group_eq (hg : Owned g ts key) (hh : Owned h ts' key) : g = h := by
  obtain ⟨t, -, ht⟩ := hg
  obtain ⟨t', -, ht'⟩ := hh
  have heq : createKey g t = createKey h t' :=
    (prefix_of_prefix_length_le ht ht' (by simp)).eq_of_length (by simp)
  rw [createKey_eq, createKey_eq] at heq
  exact Subtype.ext (beBytes_injective g.2.2 h.2.2 (append_inj_right heq (by simp)))

theorem Owned.type_mem (hg : Owned g ts key) {t : Nat} (ht : beBytes 8 t <+: key)
    (hlt : t < 256 ^ 8) (hts : ∀ t ∈ ts, t < 256 ^ 8) : t ∈ ts := by
  obtain ⟨t', hmem, ht'⟩ := hg
  have hfront : beBytes 8 t' <+: key := by
    rw [createKey_eq] at ht'
    exact (prefix_append _ _).trans ht'
  have heq : beBytes 8 t = beBytes 8 t' :=
    (prefix_of_prefix_length_le ht hfront (by simp)).eq_of_length (by simp)
  rwa [beBytes_injective hlt (hts t' hmem) heq]

end Keys

/-! ## What the operations leave alone -/

variable {key : Bytes}

section Frame

variable {codecs : RaftCodecs} {type : WalManagerType} {g h : GroupID} {db db₁ db₂ : Db}
  {P : Bytes → Prop}

/-- Outside `P` the stores agree. -/
def Keeps (P : Bytes → Prop) (db db' : Db) : Prop := ∀ key, ¬ P key → db'.lookup key = db.lookup key

theorem Keeps.refl (P : Bytes → Prop) (db : Db) : Keeps P db db := fun _ _ => rfl

theorem Keeps.trans (h₁ : Keeps P db db₁) (h₂ : Keeps P db₁ db₂) : Keeps P db db₂ :=
  fun key hkey => (h₂ key hkey).trans (h₁ key hkey)

theorem keeps_insert (hkey : P key) (value : Bytes) : Keeps P db (db.insert key value) := by
  intro key' hkey'
  apply AList.lookup_insert_ne
  rintro rfl
  exact hkey' hkey

theorem keeps_eraseKeys {keys : List Bytes} (hkeys : ∀ key ∈ keys, P key) :
    Keeps P db (eraseKeys db keys) := by
  intro key hkey
  ext value
  rw [lookup_eraseKeys_eq_some]
  exact and_iff_left (mt (hkeys key) hkey)

theorem save_keeps (st : HardState) (entries : List Entry) :
    Keeps (Owned g [keyHardState, keyEntry]) db
      (MultiRaft.save codecs db (newKeyPrefix g) st entries) := by
  unfold MultiRaft.save
  refine foldlRecOn entries _ ?_ fun db' h e _ =>
    h.trans (keeps_insert (owned_indexKey (by decide) e.index) _)
  split
  · exact Keeps.refl _ db
  · exact keeps_insert (owned_self (by decide)) _

theorem saveSnapshot_keeps (snapshot : Snapshot) :
    Keeps (Owned g [keySnapshot]) db
      (MultiRaft.saveSnapshot codecs db (newKeyPrefix g) snapshot) := by
  unfold MultiRaft.saveSnapshot
  split
  · exact Keeps.refl _ db
  · exact keeps_insert (owned_indexKey (by decide) _) _

theorem owned_of_mem_purgedKeys {snapshot : Snapshot}
    (hkey : key ∈ MultiRaft.purgedKeys type db (newKeyPrefix g) snapshot) :
    Owned g [keyEntry] key := by
  refine ⟨keyEntry, mem_singleton_self _, ?_⟩
  cases type with
  | pebble =>
    obtain ⟨⟨key, value⟩, hmem, rfl⟩ := mem_map.mp hkey
    obtain ⟨-, hrange⟩ := mem_scan.mp hmem
    rw [Bool.and_eq_true, decide_eq_true_eq, decide_eq_true_eq] at hrange
    have hlt := hrange.2
    rw [newKeyPrefix, indexKey_createKey] at hlt
    exact prefix_of_le_of_lt hrange.1 hlt
  | badger =>
    obtain ⟨⟨key, value⟩, hmem, rfl⟩ := mem_map.mp ((takeWhile_sublist _).mem hkey)
    obtain ⟨-, hrange⟩ := mem_scan.mp hmem
    exact prefix_of_inRange hrange

theorem purgeSnapshot_keeps (snapshot : Snapshot) :
    Keeps (Owned g [keyEntry]) db
      (MultiRaft.purgeSnapshot type db (newKeyPrefix g) snapshot) := by
  unfold MultiRaft.purgeSnapshot
  split
  · exact Keeps.refl _ db
  · exact keeps_eraseKeys fun key hkey => owned_of_mem_purgedKeys hkey

def keyTypes : List Nat := [keyHardState, keySnapshot, keyMetadata, keyEntry]

theorem removeData_keeps :
    Keeps (Owned g keyTypes) db (MultiRaft.removeData type db (newKeyPrefix g)) := by
  unfold MultiRaft.removeData
  split
  · exact Keeps.refl _ db
  · refine keeps_eraseKeys fun key hkey => ?_
    obtain ⟨⟨key, value⟩, hmem, rfl⟩ := mem_map.mp hkey
    obtain ⟨-, hrange⟩ := mem_scan.mp hmem
    simp only [Bool.or_eq_true] at hrange
    rcases hrange with ((hrange | hrange) | hrange) | hrange
    · exact ⟨keyHardState, by decide, prefix_of_inRange hrange⟩
    · exact ⟨keySnapshot, by decide, prefix_of_inRange hrange⟩
    · exact ⟨keyMetadata, by decide, prefix_of_inRange hrange⟩
    · exact ⟨keyEntry, by decide, prefix_of_inRange hrange⟩

end Frame

section Reads

variable {codecs : RaftCodecs} {type : WalManagerType} {g : GroupID} {db db' : Db}

/-- The keys that `FindSnapshot` and `ReplayWal` look at. -/
def Visible (type : WalManagerType) (g : GroupID) (key : Bytes) : Prop :=
  key = (newKeyPrefix g).hardState ∨ key = (newKeyPrefix g).metadata ∨
    inRange type (newKeyPrefix g).snapshot key = true ∨
    inRange type (newKeyPrefix g).entry key = true

theorem Visible.owned (hkey : Visible type g key) : Owned g keyTypes key := by
  rcases hkey with rfl | rfl | hkey | hkey
  · exact owned_self (by decide)
  · exact owned_self (by decide)
  · exact ⟨keySnapshot, by decide, prefix_of_inRange hkey⟩
  · exact ⟨keyEntry, by decide, prefix_of_inRange hkey⟩

section

variable (h : ∀ key, Visible type g key → db.lookup key = db'.lookup key)
include h

theorem findSnapshot_congr :
    MultiRaft.findSnapshot codecs type db (newKeyPrefix g) =
      MultiRaft.findSnapshot codecs type db' (newKeyPrefix g) := by
  have hscan : iterate type db (newKeyPrefix g).snapshot =
      iterate type db' (newKeyPrefix g).snapshot :=
    scan_congr keyRank_injective fun key hkey => h key (.inr (.inr (.inl hkey)))
  rw [MultiRaft.findSnapshot, hscan, MultiRaft.findSnapshot]

theorem replayWal_congr (snapshot : Option Snapshot) (deleteUncommitted : Bool) :
    MultiRaft.replayWal codecs type db (newKeyPrefix g) snapshot deleteUncommitted =
      MultiRaft.replayWal codecs type db' (newKeyPrefix g) snapshot deleteUncommitted := by
  have hscan : iterate type db (newKeyPrefix g).entry = iterate type db' (newKeyPrefix g).entry :=
    scan_congr keyRank_injective fun key hkey => h key (.inr (.inr (.inr hkey)))
  unfold MultiRaft.replayWal MultiRaft.readHardState
  rw [h _ (.inl rfl), h _ (.inr (.inl rfl)), hscan]

end

theorem readEntriesData_congr (h : ∀ key, Owned g keyTypes key → db.lookup key = db'.lookup key) :
    MultiRaft.readEntriesData codecs type db (newKeyPrefix g) =
      MultiRaft.readEntriesData codecs type db' (newKeyPrefix g) := by
  have hentry : MultiRaft.readEntry codecs db (newKeyPrefix g) =
      MultiRaft.readEntry codecs db' (newKeyPrefix g) := by
    funext x
    have hkey : Owned g keyTypes (indexKey (newKeyPrefix g).entry x.index) :=
      owned_indexKey (by decide) x.index
    unfold MultiRaft.readEntry
    rw [h _ hkey]
  have hscan : ∀ x : EntryIndex EntryMetadata, (scan keyRank db fun key =>
      keyRank (indexKey (newKeyPrefix g).entry x.index) ≤ keyRank key &&
        (newKeyPrefix g).entry.isPrefixOf key) =
      scan keyRank db' fun key => keyRank (indexKey (newKeyPrefix g).entry x.index) ≤ keyRank key &&
        (newKeyPrefix g).entry.isPrefixOf key := by
    intro x
    refine scan_congr keyRank_injective fun key hkey => h key ⟨keyEntry, by decide, ?_⟩
    rw [Bool.and_eq_true] at hkey
    exact isPrefixOf_iff_prefix.mp hkey.2
  funext xs ents
  unfold MultiRaft.readEntriesData
  rw [hentry]
  simp only [hscan]

end Reads

/-! ## Runs of the manager -/

/-- Which groups have a log: created, and not removed since. -/
def GroupOp.live (live : GroupID → Bool) : GroupOp → GroupID → Bool
  | createWal g _ => Function.update live g true
  | removeData g => Function.update live g false
  | save _ _ _ | saveSnapshot _ _ | purge _ _ => live

def GroupOp.types : GroupOp → List Nat
  | createWal _ _ => [keySnapshot, keyMetadata]
  | save _ _ _ => [keyHardState, keyEntry]
  | saveSnapshot _ _ => [keySnapshot]
  | purge _ _ => [keyEntry]
  | removeData _ => keyTypes

def liveAfter (ops : List GroupOp) : GroupID → Bool := ops.foldl GroupOp.live fun _ => false

namespace MultiRaftManager

variable {codecs : RaftCodecs} {type : WalManagerType} {m : MultiRaftManager} {op : GroupOp}
  {live : GroupID → Bool} {g : GroupID}

/-- The prefixes that are handed out are those of the groups, and the metadata keys in the store are
those of the groups that have a log. -/
structure Invariant (m : MultiRaftManager) (live : GroupID → Bool) : Prop where
  cache : m.prefixCache.Sound
  wals : ∀ g walPrefix, m.wals g = some walPrefix → walPrefix = newKeyPrefix g
  metadata : ∀ key, beBytes 8 keyMetadata <+: key →
    ((m.db.lookup key).isSome ↔ ∃ g, live g = true ∧ key = createKey g keyMetadata)

theorem invariant_new (capacity : Int) : (new capacity).Invariant fun _ => false where
  cache := newKeyPrefixCache_sound capacity
  wals := fun _ _ h => by cases h
  metadata := fun key _ => by simp [new, AList.lookup_empty]

theorem Invariant.exec_keeps (hm : m.Invariant live) :
    Keeps (Owned op.groupID op.types) m.db (m.exec codecs type op).db := by
  cases op with
  | createWal g metadata =>
    simp only [exec, (hm.cache.get g).1, GroupOp.types]
    exact (keeps_insert (owned_self (by decide)) _).trans (keeps_insert (owned_self (by decide)) _)
  | save g st entries =>
    simp only [exec]
    split
    · exact Keeps.refl _ _
    next walPrefix hwal =>
      rw [hm.wals g walPrefix hwal]
      exact save_keeps st entries
  | saveSnapshot g snapshot =>
    simp only [exec]
    split
    · exact Keeps.refl _ _
    next walPrefix hwal =>
      rw [hm.wals g walPrefix hwal]
      exact saveSnapshot_keeps snapshot
  | purge g snapshot =>
    simp only [exec, (hm.cache.get g).1]
    exact purgeSnapshot_keeps snapshot
  | removeData g =>
    simp only [exec, (hm.cache.get g).1]
    exact removeData_keeps

theorem Invariant.exec_cache (hm : m.Invariant live) :
    (m.exec codecs type op).prefixCache.Sound ∧
      ∀ g walPrefix, (m.exec codecs type op).wals g = some walPrefix →
        walPrefix = newKeyPrefix g := by
  cases op with
  | createWal g metadata =>
    have hget := (hm.cache.get g).2.get g
    refine ⟨hget.2, fun g' walPrefix hwal => ?_⟩
    by_cases hg : g' = g
    · subst hg
      have heq : ((m.prefixCache.get g').2.get g').1 = walPrefix := by
        simpa [exec] using hwal
      rw [← heq, hget.1]
    · apply hm.wals
      simpa [exec, Function.update_of_ne hg] using hwal
  | save g st entries | saveSnapshot g snapshot =>
    simp only [exec]
    split <;> exact ⟨hm.cache, hm.wals⟩
  | purge g snapshot | removeData g => exact ⟨(hm.cache.get g).2, hm.wals⟩

theorem not_owned_of_metadata (hkey : beBytes 8 keyMetadata <+: key) {ts : List Nat}
    (hts : ∀ t ∈ ts, t < 256 ^ 8) (hne : keyMetadata ∉ ts) : ¬ Owned g ts key :=
  fun howned => hne (howned.type_mem hkey (by decide) hts)

theorem createKey_inj {g h : GroupID} (heq : createKey g keyMetadata = createKey h keyMetadata) :
    g = h := by
  have hg : Owned g keyTypes (createKey g keyMetadata) := owned_self (by decide)
  have hh : Owned h keyTypes (createKey h keyMetadata) := owned_self (by decide)
  rw [← heq] at hh
  exact hg.group_eq hh

theorem exists_live_update (hne : key ≠ createKey g keyMetadata) (b : Bool) :
    (∃ h, Function.update live g b h = true ∧ key = createKey h keyMetadata) ↔
      ∃ h, live h = true ∧ key = createKey h keyMetadata := by
  refine exists_congr fun h => and_congr_left fun hkey => ?_
  rw [Function.update_of_ne]
  rintro rfl
  exact hne hkey

section

variable (hm : m.Invariant live)
include hm

theorem Invariant.createWal_metadata (metadata : Bytes) (hkey : beBytes 8 keyMetadata <+: key) :
    ((MultiRaft.createWal codecs m.db (newKeyPrefix g) metadata).lookup key).isSome ↔
      ∃ h, Function.update live g true h = true ∧ key = createKey h keyMetadata := by
  by_cases heq : key = createKey g keyMetadata
  · subst heq
    refine iff_of_true ?_ ⟨g, Function.update_self .., rfl⟩
    have : (MultiRaft.createWal codecs m.db (newKeyPrefix g) metadata).lookup
        (createKey g keyMetadata) = some metadata := AList.lookup_insert _
    rw [this]
    rfl
  · have hkeep : (MultiRaft.createWal codecs m.db (newKeyPrefix g) metadata).lookup key =
        m.db.lookup key := by
      unfold MultiRaft.createWal
      rw [show (newKeyPrefix g).metadata = createKey g keyMetadata from rfl,
        AList.lookup_insert_ne heq]
      refine keeps_insert (P := Owned g [keySnapshot]) (owned_self (by decide)) _ key ?_
      exact not_owned_of_metadata hkey (by decide) (by decide)
    rw [hkeep, hm.metadata key hkey, exists_live_update heq]

theorem Invariant.removeData_metadata (hkey : beBytes 8 keyMetadata <+: key) :
    ((MultiRaft.removeData type m.db (newKeyPrefix g)).lookup key).isSome ↔
      ∃ h, Function.update live g false h = true ∧ key = createKey h keyMetadata := by
  by_cases heq : key = createKey g keyMetadata
  · subst heq
    refine iff_of_false ?_ ?_
    · unfold MultiRaft.removeData
      split
      next hnone =>
        rw [show m.db.lookup (createKey g keyMetadata) = none from hnone]
        exact Bool.false_ne_true
      next value hsome =>
        rw [Option.isSome_iff_exists]
        rintro ⟨value', hvalue⟩
        obtain ⟨-, hkeep⟩ := lookup_eraseKeys_eq_some.mp hvalue
        refine hkeep (mem_map.mpr ⟨(_, value), mem_scan.mpr ⟨hsome, ?_⟩, rfl⟩)
        rw [Bool.or_eq_true, Bool.or_eq_true]
        exact .inl (.inr (inRange_self type _))
    · rintro ⟨h, hlive, hkey⟩
      obtain rfl := createKey_inj hkey
      rw [Function.update_self] at hlive
      cases hlive
  · rw [exists_live_update heq, ← hm.metadata key hkey]
    by_cases howned : Owned g keyTypes key
    · -- a metadata key of the group that is not its metadata key: there is none in the store
      have hnone : ¬ (m.db.lookup key).isSome := by
        rw [hm.metadata key hkey]
        rintro ⟨h, -, rfl⟩
        have hself : Owned h keyTypes (createKey h keyMetadata) := owned_self (by decide)
        exact heq (howned.group_eq hself ▸ rfl)
      refine iff_of_false (fun hsome => hnone ?_) hnone
      unfold MultiRaft.removeData at hsome
      split at hsome
      · exact hsome
      · obtain ⟨value, hvalue⟩ := Option.isSome_iff_exists.mp hsome
        rw [(lookup_eraseKeys_eq_some.mp hvalue).1]
        rfl
    · rw [removeData_keeps key howned]

theorem Invariant.exec : (m.exec codecs type op).Invariant (op.live live) := by
  refine ⟨hm.exec_cache.1, hm.exec_cache.2, fun key hkey => ?_⟩
  cases op with
  | createWal g metadata =>
    simp only [MultiRaftManager.exec, (hm.cache.get g).1]
    exact hm.createWal_metadata metadata hkey
  | save g st entries | saveSnapshot g snapshot | purge g snapshot =>
    rw [GroupOp.live, ← hm.metadata key hkey, hm.exec_keeps key]
    apply not_owned_of_metadata hkey <;> simp only [GroupOp.types] <;> decide
  | removeData g =>
    simp only [MultiRaftManager.exec, (hm.cache.get g).1]
    exact hm.removeData_metadata hkey

theorem Invariant.run (ops : List GroupOp) :
    (ops.foldl (MultiRaftManager.exec codecs type) m).Invariant (ops.foldl GroupOp.live live) := by
  induction ops generalizing m live with
  | nil => exact hm
  | cons op ops ih => exact ih hm.exec

theorem Invariant.sameReads (hne : g ≠ op.groupID) :
    SameReads codecs type m (m.exec codecs type op) g := by
  have hkeys : ∀ key, Owned g keyTypes key →
      m.db.lookup key = (m.exec codecs type op).db.lookup key := by
    intro key hkey
    exact (hm.exec_keeps key fun hop => hne (hkey.group_eq hop)).symm
  have hvisible : ∀ key, Visible type g key →
      m.db.lookup key = (m.exec codecs type op).db.lookup key :=
        fun key hkey => hkeys key hkey.owned
  have hcache : (m.exec codecs type op).prefixCache.Sound := hm.exec_cache.1
  refine ⟨?_, fun snapshot deleteUncommitted => ?_, ?_⟩
  · rw [findSnapshot, findSnapshot, (hm.cache.get g).1, (hcache.get g).1]
    exact findSnapshot_congr hvisible
  · rw [replayWal, replayWal, (hm.cache.get g).1, (hcache.get g).1]
    exact replayWal_congr hvisible snapshot deleteUncommitted
  · rw [readEntriesData, readEntriesData, (hm.cache.get g).1, (hcache.get g).1]
    exact readEntriesData_congr hkeys

end

/-! ### The list of the groups -/

theorem groupID_of_createKey (g : GroupID) :
    beNat (((createKey g keyMetadata).drop 8).take 8) = g := by
  have hdrop : ((createKey g keyMetadata).drop 8).take 8 = beBytes 8 g := by
    rw [createKey_eq, drop_left' (by simp), take_of_length_le (by simp)]
  rw [hdrop, beNat, beBytes, reverse_reverse, leNat_leBytes g.2.2]

theorem inRange_createKey_iff (g : GroupID) :
    inRange type (beBytes 8 keyMetadata) (createKey g keyMetadata) = true ↔
      (type = .pebble → g.1 < 255 * 256 ^ 7) := by
  rw [createKey_eq]
  cases type with
  | badger => simp [inRange]
  | pebble =>
    have hfirst : keyRank (beBytes 8 g) < [255] ↔ (g : Nat) / 256 ^ 7 < 255 := by
      have hlt : (g : Nat) / 256 ^ 7 < 256 := by
        have := g.2.2
        omega
      rw [beBytes_cons, keyRank, map_cons, UInt8.toNat_ofNat', cons_lt_cons_iff]
      simp only [not_lt_nil, and_false, or_false]
      rw [Nat.mod_eq_of_lt hlt]
    rw [inRange_pebble_iff, forall_prop_of_true rfl, ← Nat.div_lt_iff_lt_mul (by decide), ← hfirst]
    constructor
    · rintro ⟨rest, heq, hrest⟩
      rwa [append_cancel_left heq]
    · intro hlt
      exact ⟨_, rfl, hlt⟩

theorem Invariant.mem_iterate (hm : m.Invariant live) :
    (∃ value, (key, value) ∈ iterate type m.db (beBytes 8 keyMetadata)) ↔
      ∃ g : GroupID, live g = true ∧ key = createKey g keyMetadata ∧
        (type = .pebble → g.1 < 255 * 256 ^ 7) := by
  have hmem : (∃ value, (key, value) ∈ iterate type m.db (beBytes 8 keyMetadata)) ↔
      (m.db.lookup key).isSome ∧ inRange type (beBytes 8 keyMetadata) key = true := by
    simp only [iterate, mem_scan, exists_and_right, Option.isSome_iff_exists]
  rw [hmem]
  constructor
  · rintro ⟨hsome, hrange⟩
    obtain ⟨g, hlive, rfl⟩ := (hm.metadata key (prefix_of_inRange hrange)).mp hsome
    exact ⟨g, hlive, rfl, (inRange_createKey_iff g).mp hrange⟩
  · rintro ⟨g, hlive, rfl, hlt⟩
    exact ⟨(hm.metadata _ (createKey_eq g _ ▸ prefix_append _ _)).mpr ⟨g, hlive, rfl⟩,
      (inRange_createKey_iff g).mpr hlt⟩

theorem Invariant.hasExistingWals (hm : m.Invariant live) (type : WalManagerType) :
    ∃ ids, MultiRaft.hasExistingWals type m.db = .ok ids ∧
      ∀ id, id ∈ ids ↔ ∃ g : GroupID, g.1 = id ∧ live g = true ∧
        (type = .pebble → g.1 < 255 * 256 ^ 7) := by
  have hlen : ∀ item ∈ iterate type m.db (beBytes 8 keyMetadata), 16 ≤ item.1.length := by
    rintro ⟨key, value⟩ hitem
    obtain ⟨g, -, rfl, -⟩ := hm.mem_iterate.mp ⟨value, hitem⟩
    simp
  refine ⟨(iterate type m.db (beBytes 8 keyMetadata)).map
    fun x => beNat ((x.1.drop 8).take 8), ?_, fun id => ?_⟩
  · cases type with
    | pebble =>
      unfold MultiRaft.hasExistingWals
      simp only
      congr 1
      rw [← filterMap_eq_map]
      refine filterMap_congr fun item hitem => ?_
      rw [if_pos (hlen item hitem)]
      rfl
    | badger =>
      refine mapM_eq_ok fun item hitem => ?_
      rw [if_neg (Nat.not_lt.mpr (hlen item hitem))]
  · rw [mem_map]
    constructor
    · rintro ⟨⟨key, value⟩, hitem, heq⟩
      obtain ⟨g, hlive, rfl, hlt⟩ := hm.mem_iterate.mp ⟨value, hitem⟩
      exact ⟨g, (groupID_of_createKey g).symm.trans heq, hlive, hlt⟩
    · rintro ⟨g, rfl, hlive, hlt⟩
      obtain ⟨value, hitem⟩ := hm.mem_iterate.mpr ⟨g, hlive, rfl, hlt⟩
      exact ⟨_, hitem, groupID_of_createKey g⟩

/-- With any cache and after any operations, the reads of every group are unmoved by the operations
on others; the list of the groups is right exactly if with Pebble no group that has a log has an id
whose first byte is `0xff`. -/
theorem groups_isolated_iff (codecs : RaftCodecs) (type : WalManagerType) (capacity : Int)
    (ops : List GroupOp) :
    ((∃ ids, MultiRaft.hasExistingWals type (ops.foldl (exec codecs type) (new capacity)).db =
        .ok ids ∧ ∀ id, id ∈ ids ↔ ∃ g : GroupID, g.1 = id ∧ liveAfter ops g = true) ∧
      ∀ before op, before ++ [op] <+: ops → ∀ g ≠ op.groupID,
        SameReads codecs type (before.foldl (exec codecs type) (new capacity))
          ((before ++ [op]).foldl (exec codecs type) (new capacity)) g) ↔
    (type = .pebble → ∀ g : GroupID, liveAfter ops g = true → g.1 < 255 * 256 ^ 7) := by
  have hrun : ∀ ops : List GroupOp,
      (ops.foldl (exec codecs type) (new capacity)).Invariant (liveAfter ops) :=
    (invariant_new capacity).run
  have hreads : ∀ before op, before ++ [op] <+: ops → ∀ g ≠ op.groupID,
      SameReads codecs type (before.foldl (exec codecs type) (new capacity))
        ((before ++ [op]).foldl (exec codecs type) (new capacity)) g := by
    intro before op _ g hne
    rw [foldl_append]
    exact (hrun before).sameReads hne
  obtain ⟨ids, hids, hmem⟩ := (hrun ops).hasExistingWals type
  rw [and_iff_left hreads]
  constructor
  · rintro ⟨ids', hids', hmem'⟩ htype g hlive
    cases hids.symm.trans hids'
    obtain ⟨g', heq, -, hlt⟩ := (hmem g).mp ((hmem' g).mpr ⟨g, rfl, hlive⟩)
    exact heq ▸ hlt htype
  · intro hlt
    refine ⟨ids, hids, fun id => (hmem id).trans (exists_congr fun g => and_congr_right fun _ =>
      ?_)⟩
    exact and_iff_left_of_imp fun hlive htype => hlt htype g hlive

theorem large_group_unlisted :
    ∃ (g : GroupID) (ops : List GroupOp), liveAfter ops g = true ∧
      MultiRaft.hasExistingWals .pebble (ops.foldl (exec .unary .pebble) (new 1)).db = .ok [] ∧
      MultiRaft.hasExistingWals .badger (ops.foldl (exec .unary .badger) (new 1)).db =
        .ok [(g : Nat)] :=
  ⟨⟨255 * 256 ^ 7, by decide⟩, [.createWal ⟨255 * 256 ^ 7, by decide⟩ [1]], by decide +kernel,
    by decide +kernel, by decide +kernel⟩

end MultiRaftManager

end Babuza.Lsmtwal
