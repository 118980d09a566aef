import Babuza.Babuzawal.Reopen
import Babuza.Lsmtwal.MultiRaft

/-!
# Creating the log of a group again

A store that gets a group it once had calls `CreateWal` where an earlier replica may have left its
log. The native manager removes the directory of the group. The managers over a key-value store
write the metadata and the empty snapshot record and leave every other key of the group in the
store, so that a later replay mixes the old log with the new one.
-/

namespace Babuza.Experimental

open Lib Walbase Lsmtwal List

/-! ## The native manager -/

/-- The directory of a group and its log, if there are any. -/
structure GroupLog where
  dir : Option Babuzawal.Directory
  wal : Option Babuzawal.Wal

inductive LogOp
  | createWal (metadata : Bytes)
  | write (op : Babuzawal.WalOp)
  | close

section Native

variable (codecs : RaftCodecs) (options : Babuzawal.Options) (pool : Allocator.ByteSlicePool)

def GroupLog.exec (l : GroupLog) : LogOp → Except Babuzawal.WalError GroupLog
  | .createWal metadata => do
    let (w, dir) ← Babuzawal.createWalInternal codecs metadata options pool
    return ⟨some dir, some w⟩
  | .write op =>
    match l.dir, l.wal with
    | some dir, some w => do
      let (w, dir) ← op.exec codecs (w, dir)
      return ⟨some dir, some w⟩
    | _, _ => .ok l
  | .close =>
    match l.dir, l.wal with
    | some dir, some w => do
      let dir ← w.close dir
      return ⟨some dir, none⟩
    | _, _ => .ok l

/-- `MultiRaftWalManager`: one directory for each group. -/
abbrev NativeManager := GroupID → GroupLog

namespace NativeManager

def exec (m : NativeManager) (x : GroupID × LogOp) : Except Babuzawal.WalError NativeManager := do
  let l ← (m x.1).exec codecs options pool x.2
  return Function.update m x.1 l

def findSnapshot (m : NativeManager) (g : GroupID) : Except Babuzawal.WalError (List WalSnapshot) :=
  Babuzawal.findSnapshotInternal codecs ((m g).dir.getD ∅) pool

def replayWal (m : NativeManager) (g : GroupID) (snapshot : Option Snapshot)
    (deleteUncommitted : Bool) :
    Except Babuzawal.WalError (Babuzawal.ReplayResult ×
      EntryStorage Babuzawal.EntryIndexMetadata × Babuzawal.Wal × Babuzawal.Directory) :=
  Babuzawal.replayWalInternal codecs ((m g).dir.getD ∅) snapshot deleteUncommitted options pool

def reads (g : GroupID) (m : NativeManager) :=
  (m.findSnapshot codecs pool g, m.replayWal codecs options pool g)

end NativeManager

end Native

section NativeRuns

variable {codecs : RaftCodecs} {options : Babuzawal.Options} {pool : Allocator.ByteSlicePool}

variable {ops : List (GroupID × LogOp)}

theorem NativeManager.exec_same {m m' : NativeManager} {g : GroupID} {op : LogOp}
    (hexec : (m g).exec codecs options pool op = (m' g).exec codecs options pool op)
    (hrest : ∀ l, (run (exec codecs options pool) (Function.update m g l) ops).map
        (reads codecs options pool g) =
      (run (exec codecs options pool) (Function.update m' g l) ops).map
        (reads codecs options pool g)) :
    (run (exec codecs options pool) m ((g, op) :: ops)).map (reads codecs options pool g) =
      (run (exec codecs options pool) m' ((g, op) :: ops)).map (reads codecs options pool g) := by
  simp only [run, exec, hexec]
  cases (m' g).exec codecs options pool op with
  | error e => rfl
  | ok l => exact hrest l

theorem NativeManager.run_same {m m' : NativeManager} {g : GroupID} (h : m g = m' g)
    (hops : ∀ x ∈ ops, x.1 = g) :
    (run (exec codecs options pool) m ops).map (reads codecs options pool g) =
      (run (exec codecs options pool) m' ops).map (reads codecs options pool g) := by
  induction ops generalizing m m' with
  | nil =>
    show Except.ok _ = Except.ok _
    unfold reads findSnapshot replayWal
    rw [h]
  | cons x ops ih =>
    obtain ⟨g', op⟩ := x
    obtain ⟨rfl, hops⟩ := forall_mem_cons.mp hops
    exact exec_same (by rw [h]) fun l => ih (by rw [Function.update_self, Function.update_self])
      hops

theorem NativeManager.createWal_same (m m' : NativeManager) {g : GroupID} (metadata : Bytes)
    (hops : ∀ x ∈ ops, x.1 = g) :
    (run (exec codecs options pool) m ((g, .createWal metadata) :: ops)).map
        (reads codecs options pool g) =
      (run (exec codecs options pool) m' ((g, .createWal metadata) :: ops)).map
        (reads codecs options pool g) :=
  exec_same rfl fun l => run_same (by rw [Function.update_self, Function.update_self]) hops

end NativeRuns

/-! ## What a store can hold -/

/-- What the operations write under the keys of a group. -/
inductive Item
  | hardState (st : HardState)
  | emptySnapshot
  | snapshot (s : WalSnapshot)
  | entry (e : Entry)
  | metadata (metadata : Bytes)

namespace Item

def typeID : Item → Nat
  | hardState _ => keyHardState
  | emptySnapshot | snapshot _ => keySnapshot
  | entry _ => keyEntry
  | metadata _ => keyMetadata

def key (g : GroupID) : Item → Bytes
  | hardState _ => (newKeyPrefix g).hardState
  | emptySnapshot => (newKeyPrefix g).snapshot
  | snapshot s => indexKey (newKeyPrefix g).snapshot s.index
  | entry e => indexKey (newKeyPrefix g).entry e.index
  | metadata _ => (newKeyPrefix g).metadata

def value (codecs : RaftCodecs) : Item → Bytes
  | hardState st => codecs.hardState.marshal st
  | emptySnapshot => codecs.walSnapshot.marshal .empty
  | snapshot s => codecs.walSnapshot.marshal s
  | entry e => codecs.entry.marshal e
  | metadata md => md

/-- Empty hard states and snapshots are not written, and raft counts from one. -/
def Valid : Item → Prop
  | hardState st => st ≠ .empty
  | snapshot s => 0 < s.index
  | entry e => 0 < e.index ∧ e.index < 256 ^ 8
  | emptySnapshot | metadata _ => True

theorem owned_key (g : GroupID) (x : Item) : Owned g [x.typeID] (x.key g) := by
  cases x with
  | hardState st | emptySnapshot | metadata md => exact owned_self (mem_singleton_self _)
  | snapshot s | entry e => exact owned_indexKey (mem_singleton_self _) _

theorem typeID_lt (x : Item) : x.typeID < 256 ^ 8 := by
  cases x <;> simp [typeID, keyHardState, keySnapshot, keyEntry, keyMetadata]

theorem eq_of_createKey_start {g g' : GroupID} {t : Nat} {x : Item} (ht : t < 256 ^ 8)
    (h : createKey g t <+: x.key g') : g' = g ∧ x.typeID = t := by
  have hfront : beBytes 8 t <+: x.key g' := by
    rw [createKey_eq] at h
    exact (prefix_append _ _).trans h
  have htype := (x.owned_key g').type_mem hfront ht (by simpa using x.typeID_lt)
  have howned : Owned g [t] (x.key g') := ⟨t, mem_singleton_self t, h⟩
  exact ⟨(x.owned_key g').group_eq howned, (mem_singleton.mp htype).symm⟩

end Item

def AllWritten (codecs : RaftCodecs) (db : Db) : Prop :=
  ∀ key value, db.lookup key = some value →
    ∃ (g : GroupID) (x : Item), x.Valid ∧ key = x.key g ∧ value = x.value codecs

/-- The entries that are saved have indices from one on, 64 bits wide. -/
def Numbered : GroupOp → Prop
  | .save _ _ entries => ∀ e ∈ entries, 0 < e.index ∧ e.index < 256 ^ 8
  | _ => True

namespace AllWritten

variable {codecs : RaftCodecs} {type : WalManagerType} {db : Db}

theorem empty : AllWritten codecs ∅ := by
  intro key value h
  cases h

section

variable (h : AllWritten codecs db)
include h

theorem insert (g : GroupID) {x : Item} (hx : x.Valid) :
    AllWritten codecs (db.insert (x.key g) (x.value codecs)) := by
  intro key value hlookup
  by_cases hkey : key = x.key g
  · subst hkey
    rw [AList.lookup_insert] at hlookup
    exact ⟨g, x, hx, rfl, (Option.some.inj hlookup).symm⟩
  · rw [AList.lookup_insert_ne hkey] at hlookup
    exact h key value hlookup

theorem eraseKeys (keys : List Bytes) : AllWritten codecs (eraseKeys db keys) :=
  fun key value hlookup => h key value (lookup_eraseKeys_eq_some.mp hlookup).1

theorem save (g : GroupID) (st : HardState) {entries : List Entry}
    (hentries : ∀ e ∈ entries, 0 < e.index ∧ e.index < 256 ^ 8) :
    AllWritten codecs (MultiRaft.save codecs db (newKeyPrefix g) st entries) := by
  unfold MultiRaft.save
  refine foldlRecOn entries _ ?_ fun db h e he =>
    h.insert g (show (Item.entry e).Valid from hentries e he)
  split
  · exact h
  next hst =>
    refine h.insert g (show (Item.hardState st).Valid from ?_)
    rintro rfl
    exact hst rfl

theorem saveSnapshot (g : GroupID) (snapshot : Snapshot) :
    AllWritten codecs (MultiRaft.saveSnapshot codecs db (newKeyPrefix g) snapshot) := by
  unfold MultiRaft.saveSnapshot
  split
  · exact h
  next hne =>
    refine h.insert g (show (Item.snapshot snapshot.toWal).Valid from Nat.pos_of_ne_zero ?_)
    intro hzero
    exact hne (beq_iff_eq.mpr hzero)

end

section

variable {m : MultiRaftManager} {live : GroupID → Bool} (hm : m.Invariant live)
include hm

theorem exec (h : AllWritten codecs m.db) {op : GroupOp} (hfits : Numbered op) :
    AllWritten codecs (m.exec codecs type op).db := by
  cases op with
  | createWal g metadata =>
    simp only [MultiRaftManager.exec, (hm.cache.get g).1]
    exact (h.insert g (show Item.emptySnapshot.Valid from trivial)).insert g
      (show (Item.metadata metadata).Valid from trivial)
  | save g st entries =>
    simp only [MultiRaftManager.exec]
    split
    · exact h
    next walPrefix hwal =>
      rw [hm.wals g walPrefix hwal]
      exact h.save g st hfits
  | saveSnapshot g snapshot =>
    simp only [MultiRaftManager.exec]
    split
    · exact h
    next walPrefix hwal =>
      rw [hm.wals g walPrefix hwal]
      exact h.saveSnapshot g snapshot
  | purge g snapshot =>
    simp only [MultiRaftManager.exec, MultiRaft.purgeSnapshot]
    split
    · exact h
    · exact h.eraseKeys _
  | removeData g =>
    simp only [MultiRaftManager.exec, MultiRaft.removeData]
    split
    · exact h
    · exact h.eraseKeys _

theorem run (h : AllWritten codecs m.db) {ops : List GroupOp} (hfits : ∀ op ∈ ops, Numbered op) :
    AllWritten codecs (ops.foldl (MultiRaftManager.exec codecs type) m).db := by
  induction ops generalizing m live with
  | nil => exact h
  | cons op ops ih =>
    exact ih hm.exec (h.exec hm (hfits op mem_cons_self))
      fun op hop => hfits op (mem_cons_of_mem _ hop)

end

variable {g : GroupID} {key value : Bytes}

theorem hardState_inv (h : AllWritten codecs db)
    (hlookup : db.lookup (newKeyPrefix g).hardState = some value) :
    ∃ st, st ≠ .empty ∧ value = codecs.hardState.marshal st := by
  obtain ⟨g', x, hx, hkey, rfl⟩ := h _ _ hlookup
  have hstart : createKey g keyHardState <+: x.key g' := hkey ▸ prefix_refl _
  have htype := (Item.eq_of_createKey_start (by decide) hstart).2
  cases x with
  | hardState st => exact ⟨st, hx, rfl⟩
  | _ => cases htype

theorem snapshot_inv (h : AllWritten codecs db) (hlookup : db.lookup key = some value)
    (hstart : (newKeyPrefix g).snapshot <+: key) :
    key = (newKeyPrefix g).snapshot ∨ ∃ s, 0 < s.index ∧ value = codecs.walSnapshot.marshal s := by
  obtain ⟨g', x, hx, rfl, rfl⟩ := h _ _ hlookup
  obtain ⟨rfl, htype⟩ := Item.eq_of_createKey_start (by decide) hstart
  cases x with
  | emptySnapshot => exact .inl rfl
  | snapshot s => exact .inr ⟨s, hx, rfl⟩
  | _ => cases htype

theorem entry_inv (h : AllWritten codecs db) (hlookup : db.lookup key = some value)
    (hstart : (newKeyPrefix g).entry <+: key) :
    ∃ e : Entry, 0 < e.index ∧ e.index < 256 ^ 8 ∧ key = indexKey (newKeyPrefix g).entry e.index ∧
      value = codecs.entry.marshal e := by
  obtain ⟨g', x, hx, rfl, rfl⟩ := h _ _ hlookup
  obtain ⟨rfl, htype⟩ := Item.eq_of_createKey_start (by decide) hstart
  cases x with
  | entry e => exact ⟨e, hx.1, hx.2, rfl, rfl⟩
  | _ => cases htype

end AllWritten

section Leftovers

variable {codecs : RaftCodecs} {type : WalManagerType} {g : GroupID} {db db' : Db} {key : Bytes}

/-- The store has no hard state, snapshot record or entry that a replay for the group would meet. -/
structure NoLeftovers (type : WalManagerType) (db : Db) (g : GroupID) : Prop where
  hardState : db.lookup (newKeyPrefix g).hardState = none
  snapshots : ∀ key, inRange type (newKeyPrefix g).snapshot key = true →
    key ≠ (newKeyPrefix g).snapshot → db.lookup key = none
  entries : ∀ key, inRange type (newKeyPrefix g).entry key = true → db.lookup key = none

theorem ne_of_typeID_ne {x y : Item} (g : GroupID) (h : x.typeID ≠ y.typeID) :
    x.key g ≠ y.key g := by
  intro heq
  obtain ⟨t, ht, hstart⟩ := x.owned_key g
  rw [mem_singleton] at ht
  subst ht
  rw [heq] at hstart
  exact h (Item.eq_of_createKey_start x.typeID_lt hstart).2.symm

theorem hardState_ne_metadata (g : GroupID) :
    (newKeyPrefix g).hardState ≠ (newKeyPrefix g).metadata :=
  ne_of_typeID_ne (x := .hardState .empty) (y := .metadata []) g (by decide)

theorem hardState_ne_snapshot (g : GroupID) :
    (newKeyPrefix g).hardState ≠ (newKeyPrefix g).snapshot :=
  ne_of_typeID_ne (x := .hardState .empty) (y := .emptySnapshot) g (by decide)

theorem ne_of_inRange {x : Item} {t : Nat} (ht : t < 256 ^ 8)
    (hkey : inRange type (createKey g t) key = true) (hx : x.typeID ≠ t) : key ≠ x.key g := by
  rintro rfl
  exact hx (Item.eq_of_createKey_start ht (prefix_of_inRange hkey)).2

theorem ne_metadata_of_inRange_snapshot
    (hkey : inRange type (newKeyPrefix g).snapshot key = true) : key ≠ (newKeyPrefix g).metadata :=
  ne_of_inRange (x := .metadata []) (by decide) hkey (by decide)

theorem ne_of_inRange_entry (hkey : inRange type (newKeyPrefix g).entry key = true) :
    key ≠ (newKeyPrefix g).metadata ∧ key ≠ (newKeyPrefix g).snapshot :=
  ⟨ne_of_inRange (x := .metadata []) (by decide) hkey (by decide),
    ne_of_inRange (x := .emptySnapshot) (by decide) hkey (by decide)⟩

theorem lookup_createWal_metadata (db : Db) (metadata : Bytes) :
    (MultiRaft.createWal codecs db (newKeyPrefix g) metadata).lookup (newKeyPrefix g).metadata =
      some metadata :=
  AList.lookup_insert _

theorem lookup_createWal_snapshot (db : Db) (metadata : Bytes) :
    (MultiRaft.createWal codecs db (newKeyPrefix g) metadata).lookup (newKeyPrefix g).snapshot =
      some (codecs.walSnapshot.marshal .empty) :=
  (AList.lookup_insert_ne (ne_of_typeID_ne (x := .emptySnapshot) (y := .metadata []) g
    (by decide))).trans (AList.lookup_insert _)

theorem lookup_createWal_of_ne (db : Db) (metadata : Bytes) (hmd : key ≠ (newKeyPrefix g).metadata)
    (hsnap : key ≠ (newKeyPrefix g).snapshot) :
    (MultiRaft.createWal codecs db (newKeyPrefix g) metadata).lookup key = db.lookup key := by
  rw [MultiRaft.createWal, AList.lookup_insert_ne hmd, AList.lookup_insert_ne hsnap]

/-! ### A store without leftovers -/

theorem NoLeftovers.createWal_visible (h : NoLeftovers type db g) (metadata : Bytes)
    (hkey : Visible type g key) :
    (MultiRaft.createWal codecs db (newKeyPrefix g) metadata).lookup key =
      (MultiRaft.createWal codecs ∅ (newKeyPrefix g) metadata).lookup key := by
  by_cases hmd : key = (newKeyPrefix g).metadata
  · rw [hmd, lookup_createWal_metadata, lookup_createWal_metadata]
  by_cases hsnap : key = (newKeyPrefix g).snapshot
  · rw [hsnap, lookup_createWal_snapshot, lookup_createWal_snapshot]
  rw [lookup_createWal_of_ne db metadata hmd hsnap, lookup_createWal_of_ne ∅ metadata hmd hsnap,
    AList.lookup_empty]
  rcases hkey with rfl | rfl | hkey | hkey
  · exact h.hardState
  · exact absurd rfl hmd
  · exact h.snapshots key hkey hsnap
  · exact h.entries key hkey

variable {S : Bytes → Prop}

section

variable (h : ∀ key, S key → db.lookup key = db'.lookup key)
include h

theorem agree_insert (k v : Bytes) :
    ∀ key, S key → (db.insert k v).lookup key = (db'.insert k v).lookup key := by
  intro key hkey
  by_cases heq : key = k
  · rw [heq, AList.lookup_insert, AList.lookup_insert]
  · rw [AList.lookup_insert_ne heq, AList.lookup_insert_ne heq, h key hkey]

theorem agree_save (groupPrefix : KeyPrefix) (st : HardState) (entries : List Entry) :
    ∀ key, S key → (MultiRaft.save codecs db groupPrefix st entries).lookup key =
      (MultiRaft.save codecs db' groupPrefix st entries).lookup key := by
  unfold MultiRaft.save
  refine foldl_rel (r := fun db db' : Db => ∀ key, S key → db.lookup key = db'.lookup key) ?_
    fun e _ db db' h => agree_insert h _ _
  split
  · exact h
  · exact agree_insert h _ _

theorem agree_saveSnapshot (groupPrefix : KeyPrefix) (snapshot : Snapshot) :
    ∀ key, S key → (MultiRaft.saveSnapshot codecs db groupPrefix snapshot).lookup key =
      (MultiRaft.saveSnapshot codecs db' groupPrefix snapshot).lookup key := by
  unfold MultiRaft.saveSnapshot
  split
  · exact h
  · exact agree_insert h _ _

end

def storeReads (codecs : RaftCodecs) (type : WalManagerType) (g : GroupID) (m : MultiRaftManager) :=
  (m.findSnapshot codecs type g, m.replayWal codecs type g)

def Writes (g : GroupID) : GroupOp → Prop
  | .save g' _ _ | .saveSnapshot g' _ => g' = g
  | _ => False

/-- Two managers on which the group has an open log and a replay sees the same. -/
structure Alike (type : WalManagerType) (g : GroupID) (m m' : MultiRaftManager) : Prop where
  cache : (m.prefixCache.get g).1 = newKeyPrefix g
  cache' : (m'.prefixCache.get g).1 = newKeyPrefix g
  wals : m.wals g = some (newKeyPrefix g)
  wals' : m'.wals g = some (newKeyPrefix g)
  visible : ∀ key, Visible type g key → m.db.lookup key = m'.db.lookup key

variable {m m' : MultiRaftManager}

theorem Alike.reads_eq (h : Alike type g m m') :
    storeReads codecs type g m = storeReads codecs type g m' := by
  have hfind : m.findSnapshot codecs type g = m'.findSnapshot codecs type g := by
    rw [MultiRaftManager.findSnapshot, MultiRaftManager.findSnapshot, h.cache, h.cache']
    exact findSnapshot_congr h.visible
  have hreplay : m.replayWal codecs type g = m'.replayWal codecs type g := by
    funext snapshot deleteUncommitted
    rw [MultiRaftManager.replayWal, MultiRaftManager.replayWal, h.cache, h.cache']
    exact replayWal_congr h.visible snapshot deleteUncommitted
  rw [storeReads, hfind, hreplay, storeReads]

theorem Alike.exec (h : Alike type g m m') {op : GroupOp} (hop : Writes g op) :
    Alike type g (m.exec codecs type op) (m'.exec codecs type op) := by
  cases op with
  | save g' st entries =>
    obtain rfl : g' = g := hop
    simp only [MultiRaftManager.exec, h.wals, h.wals']
    exact { h with visible := agree_save h.visible _ st entries }
  | saveSnapshot g' snapshot =>
    obtain rfl : g' = g := hop
    simp only [MultiRaftManager.exec, h.wals, h.wals']
    exact { h with visible := agree_saveSnapshot h.visible _ snapshot }
  | createWal g' metadata | purge g' snapshot | removeData g' => exact hop.elim

theorem Alike.run (h : Alike type g m m') {ops : List GroupOp} (hops : ∀ op ∈ ops, Writes g op) :
    Alike type g (ops.foldl (MultiRaftManager.exec codecs type) m)
      (ops.foldl (MultiRaftManager.exec codecs type) m') :=
  foldl_rel h fun op hop _ _ h => h.exec (hops op hop)

/-! ### What leftovers show -/

theorem iterate_snapshot_fresh (metadata : Bytes) :
    iterate type (MultiRaft.createWal codecs ∅ (newKeyPrefix g) metadata)
      (newKeyPrefix g).snapshot =
      [((newKeyPrefix g).snapshot, codecs.walSnapshot.marshal .empty)] := by
  refine scan_eq (pairwise_singleton _ _) fun key value => ?_
  rw [mem_singleton, Prod.mk.injEq]
  constructor
  · rintro ⟨rfl, rfl⟩
    exact ⟨lookup_createWal_snapshot ∅ metadata, inRange_self type _⟩
  · rintro ⟨hlookup, hkey⟩
    by_cases hsnap : key = (newKeyPrefix g).snapshot
    · subst hsnap
      rw [lookup_createWal_snapshot] at hlookup
      exact ⟨rfl, (Option.some.inj hlookup).symm⟩
    · rw [lookup_createWal_of_ne ∅ metadata (ne_metadata_of_inRange_snapshot hkey) hsnap,
        AList.lookup_empty] at hlookup
      cases hlookup

theorem iterate_entry_fresh (metadata : Bytes) :
    iterate type (MultiRaft.createWal codecs ∅ (newKeyPrefix g) metadata) (newKeyPrefix g).entry =
      [] := by
  refine scan_eq List.Pairwise.nil fun key value => ?_
  refine iff_of_false not_mem_nil ?_
  rintro ⟨hlookup, hkey⟩
  obtain ⟨hmd, hsnap⟩ := ne_of_inRange_entry hkey
  rw [lookup_createWal_of_ne ∅ metadata hmd hsnap, AList.lookup_empty] at hlookup
  cases hlookup

theorem replayWal_fresh (codecs : RaftCodecs) (type : WalManagerType) (g : GroupID)
    (metadata : Bytes) (snapshot : Option Snapshot) :
    ∃ es, MultiRaft.replayWal codecs type (MultiRaft.createWal codecs ∅ (newKeyPrefix g) metadata)
      (newKeyPrefix g) snapshot false = .ok (⟨metadata, .empty, []⟩, es) := by
  have hhs : (MultiRaft.createWal codecs ∅ (newKeyPrefix g) metadata).lookup
      (newKeyPrefix g).hardState = none := by
    rw [lookup_createWal_of_ne ∅ metadata (hardState_ne_metadata g) (hardState_ne_snapshot g),
      AList.lookup_empty]
  refine ⟨(EntryStorage.ofSnapshot snapshot).setHardState .empty, ?_⟩
  unfold MultiRaft.replayWal MultiRaft.readHardState
  rw [hhs, lookup_createWal_metadata, iterate_entry_fresh]
  rfl

theorem replayWal_eq_ok {snapshot : Option Snapshot} {r : ReplayResult}
    {es : EntryStorage EntryMetadata}
    (h : MultiRaft.replayWal codecs type db (newKeyPrefix g) snapshot false = .ok (r, es)) :
    MultiRaft.readHardState codecs db (newKeyPrefix g) = .ok r.hardState ∧
      replayEntries codecs ((snapshot.map (·.metadata.index)).getD 0)
        (iterate type db (newKeyPrefix g).entry) [] = .ok r.entries := by
  obtain ⟨hs, hhs, h⟩ := bind_eq_ok.mp h
  split at h
  · cases h
  · obtain ⟨entries, hentries, h⟩ := bind_eq_ok.mp h
    obtain ⟨es', -, h⟩ := bind_eq_ok.mp h
    cases h
    exact ⟨hhs, hentries⟩

theorem replayEntries_covered {snapIndex : Nat} {pairs : List (Bytes × Bytes)}
    (h : ∀ x ∈ pairs, ∃ e : Entry, e.index ≤ snapIndex ∧ x.2 = codecs.entry.marshal e)
    (rest : List (Bytes × Bytes)) (entries : List Entry) :
    replayEntries codecs snapIndex (pairs ++ rest) entries =
      replayEntries codecs snapIndex rest entries := by
  induction pairs with
  | nil => rfl
  | cons x pairs ih =>
    obtain ⟨e, hle, hx⟩ := h x mem_cons_self
    rw [cons_append, replayEntries, hx]
    simp only [unmarshal, MessageCodec.unmarshal_marshal, ok_bind]
    rw [if_neg (by omega)]
    exact ih fun y hy => h y (mem_cons_of_mem _ hy)

theorem AllWritten.exists_replayEntries (h : AllWritten codecs db)
    (hne : iterate type db (newKeyPrefix g).entry ≠ []) :
    ∃ snapIndex e, replayEntries codecs snapIndex (iterate type db (newKeyPrefix g).entry) [] =
      .ok [e] := by
  have hitems : ∀ x ∈ iterate type db (newKeyPrefix g).entry, ∃ e : Entry, 0 < e.index ∧
      e.index < 256 ^ 8 ∧ x.1 = indexKey (newKeyPrefix g).entry e.index ∧
      x.2 = codecs.entry.marshal e := by
    rintro ⟨key, value⟩ hx
    obtain ⟨hlookup, hkey⟩ := mem_scan.mp hx
    exact h.entry_inv hlookup (prefix_of_inRange hkey)
  have hsorted : (iterate type db (newKeyPrefix g).entry).Pairwise
      fun a b => keyRank a.1 < keyRank b.1 := scan_pairwise keyRank_injective _ _
  rcases eq_nil_or_concat (iterate type db (newKeyPrefix g).entry) with hnil | ⟨before, last, heq⟩
  · exact absurd hnil hne
  rw [heq] at hitems hsorted ⊢
  obtain ⟨e, hpos, hlt, hkey, hvalue⟩ := hitems last (by simp)
  refine ⟨e.index - 1, e, ?_⟩
  rw [concat_eq_append] at hitems hsorted ⊢
  rw [replayEntries_covered]
  · rw [replayEntries, hvalue]
    simp only [unmarshal, MessageCodec.unmarshal_marshal, ok_bind]
    rw [if_pos (by omega), if_neg (by simp; omega)]
    simp [replayEntries]
  · intro x hx
    obtain ⟨e', -, hlt', hkey', hvalue'⟩ := hitems x (by simp [hx])
    have hrank := (pairwise_append.mp hsorted).2.2 x hx last (mem_singleton_self _)
    rw [hkey, hkey', keyRank_indexKey_lt_iff _ hlt' hlt] at hrank
    exact ⟨e', by omega, hvalue'⟩

theorem AllWritten.noLeftovers (h : AllWritten codecs db) (metadata : Bytes)
    (hfind : MultiRaft.findSnapshot codecs type
      (MultiRaft.createWal codecs db (newKeyPrefix g) metadata) (newKeyPrefix g) =
      MultiRaft.findSnapshot codecs type (MultiRaft.createWal codecs ∅ (newKeyPrefix g) metadata)
      (newKeyPrefix g))
    (hreplay : ∀ snapshot, MultiRaft.replayWal codecs type
      (MultiRaft.createWal codecs db (newKeyPrefix g) metadata) (newKeyPrefix g) snapshot false =
      MultiRaft.replayWal codecs type (MultiRaft.createWal codecs ∅ (newKeyPrefix g) metadata)
      (newKeyPrefix g) snapshot false) :
    NoLeftovers type db g := by
  have hcreated : AllWritten codecs (MultiRaft.createWal codecs db (newKeyPrefix g) metadata) :=
    (h.insert g (show Item.emptySnapshot.Valid from trivial)).insert g
      (show (Item.metadata metadata).Valid from trivial)
  have hread : ∀ snapshot : Option Snapshot, MultiRaft.readHardState codecs
      (MultiRaft.createWal codecs db (newKeyPrefix g) metadata) (newKeyPrefix g) = .ok .empty ∧
      replayEntries codecs ((snapshot.map (·.metadata.index)).getD 0)
        (iterate type (MultiRaft.createWal codecs db (newKeyPrefix g) metadata)
          (newKeyPrefix g).entry) [] = .ok [] := by
    intro snapshot
    obtain ⟨es, hes⟩ := replayWal_fresh codecs type g metadata snapshot
    exact replayWal_eq_ok ((hreplay snapshot).trans hes)
  refine ⟨?_, fun key hkey hne => ?_, fun key hkey => ?_⟩
  · have hhs := (hread none).1
    rw [MultiRaft.readHardState,
      lookup_createWal_of_ne db metadata (hardState_ne_metadata g) (hardState_ne_snapshot g)] at hhs
    cases hlookup : db.lookup (newKeyPrefix g).hardState with
    | none => rfl
    | some value =>
      obtain ⟨st, hst, rfl⟩ := h.hardState_inv hlookup
      rw [hlookup] at hhs
      simp only [unmarshal, MessageCodec.unmarshal_marshal, Except.ok.injEq] at hhs
      exact absurd hhs hst
  · cases hlookup : db.lookup key with
    | none => rfl
    | some value =>
      rcases h.snapshot_inv hlookup (prefix_of_inRange hkey) with heq | ⟨s, hpos, rfl⟩
      · exact absurd heq hne
      have hmem : (key, codecs.walSnapshot.marshal s) ∈ iterate type
          (MultiRaft.createWal codecs db (newKeyPrefix g) metadata) (newKeyPrefix g).snapshot := by
        refine mem_scan.mpr ⟨?_, hkey⟩
        rw [lookup_createWal_of_ne db metadata (ne_metadata_of_inRange_snapshot hkey) hne, hlookup]
      have hfresh : MultiRaft.findSnapshot codecs type
          (MultiRaft.createWal codecs ∅ (newKeyPrefix g) metadata) (newKeyPrefix g) =
            .ok [.empty] := by
        rw [MultiRaft.findSnapshot, iterate_snapshot_fresh]
        simp [unmarshal, pure, Except.pure, bind, Except.bind]
      obtain ⟨s', hs', heq⟩ := exists_of_mapM_eq_ok (hfind.trans hfresh) hmem
      simp only [unmarshal, MessageCodec.unmarshal_marshal, Except.ok.injEq] at heq
      rw [mem_singleton] at hs'
      rw [heq, hs'] at hpos
      exact absurd hpos (lt_irrefl _)
  · cases hlookup : db.lookup key with
    | none => rfl
    | some value =>
      have hmem : (key, value) ∈ iterate type
          (MultiRaft.createWal codecs db (newKeyPrefix g) metadata) (newKeyPrefix g).entry := by
        obtain ⟨hmd, hsnap⟩ := ne_of_inRange_entry hkey
        exact mem_scan.mpr ⟨by rw [lookup_createWal_of_ne db metadata hmd hsnap, hlookup], hkey⟩
      obtain ⟨snapIndex, e, heq⟩ := hcreated.exists_replayEntries (ne_nil_of_mem hmem)
      have hnil := (hread (some { Snapshot.empty with
        metadata := { Snapshot.empty.metadata with index := snapIndex } })).2
      cases heq.symm.trans hnil

end Leftovers

/-! ## All managers -/

section Managers

variable {codecs : RaftCodecs} {type : WalManagerType} {g : GroupID} {m : MultiRaftManager}
  {live : GroupID → Bool}

theorem exec_createWal (codecs : RaftCodecs) (type : WalManagerType) (g : GroupID)
    (hm : m.Invariant live) (metadata : Bytes) :
    (m.exec codecs type (.createWal g metadata)).db =
        MultiRaft.createWal codecs m.db (newKeyPrefix g) metadata ∧
      (m.exec codecs type (.createWal g metadata)).wals g = some (newKeyPrefix g) ∧
      ((m.exec codecs type (.createWal g metadata)).prefixCache.get g).1 = newKeyPrefix g := by
  have hget := (hm.cache.get g).2.get g
  refine ⟨?_, ?_, (hget.2.get g).1⟩
  · simp only [MultiRaftManager.exec, (hm.cache.get g).1]
  · simp only [MultiRaftManager.exec, Function.update_self, hget.1]

/-- With each of the three managers the log of a group that is created again reads as if it had been
created on nothing, exactly if the key-value store has nothing left of the group. -/
theorem createWal_fresh_iff (codecs : RaftCodecs) (options : Babuzawal.Options)
    (pool : Allocator.ByteSlicePool) (type : WalManagerType) (capacity : Int) {old : List GroupOp}
    (hold : ∀ op ∈ old, Numbered op) (g : GroupID) :
    ((∀ (m : NativeManager) (metadata : Bytes) (ops : List (GroupID × LogOp)),
      (∀ x ∈ ops, x.1 = g) →
        (run (NativeManager.exec codecs options pool) m ((g, .createWal metadata) :: ops)).map
            (NativeManager.reads codecs options pool g) =
          (run (NativeManager.exec codecs options pool) (fun _ => ⟨none, none⟩)
            ((g, .createWal metadata) :: ops)).map (NativeManager.reads codecs options pool g)) ∧
      ∀ (metadata : Bytes) (ops : List GroupOp), (∀ op ∈ ops, Writes g op) →
        storeReads codecs type g ((.createWal g metadata :: ops).foldl
            (MultiRaftManager.exec codecs type)
            (old.foldl (MultiRaftManager.exec codecs type) (.new capacity))) =
          storeReads codecs type g ((.createWal g metadata :: ops).foldl
            (MultiRaftManager.exec codecs type) (.new capacity))) ↔
      NoLeftovers type (old.foldl (MultiRaftManager.exec codecs type) (.new capacity)).db g := by
  have hnew := MultiRaftManager.invariant_new capacity
  have hm : (old.foldl (MultiRaftManager.exec codecs type) (.new capacity)).Invariant _ :=
    hnew.run old
  generalize hstore : old.foldl (MultiRaftManager.exec codecs type) (.new capacity) = m at hm ⊢
  constructor
  · rintro ⟨-, hsame⟩
    have hwritten : AllWritten codecs m.db := by
      rw [← hstore]
      exact AllWritten.run hnew AllWritten.empty hold
    have heq := hsame [] [] (by simp)
    obtain ⟨hdb, -, hcache⟩ := exec_createWal codecs type g hm []
    obtain ⟨hdb', -, hcache'⟩ := exec_createWal codecs type g hnew []
    have hnone : (MultiRaftManager.new capacity).db = ∅ := rfl
    simp only [foldl_cons, foldl_nil, storeReads, Prod.mk.injEq] at heq
    refine hwritten.noLeftovers [] ?_ fun snapshot => ?_
    · simpa only [MultiRaftManager.findSnapshot, hcache, hcache', hdb, hdb', hnone] using heq.1
    · have hreplay := congrFun (congrFun heq.2 snapshot) false
      simpa only [MultiRaftManager.replayWal, hcache, hcache', hdb, hdb', hnone] using hreplay
  · intro hclean
    refine ⟨fun m metadata ops hops => NativeManager.createWal_same m _ metadata hops, ?_⟩
    intro metadata ops hops
    obtain ⟨hdb, hwal, hcache⟩ := exec_createWal codecs type g hm metadata
    obtain ⟨hdb', hwal', hcache'⟩ :=
      exec_createWal codecs type g hnew metadata
    refine Alike.reads_eq (Alike.run ⟨hcache, hcache', hwal, hwal', ?_⟩ hops)
    intro key hkey
    rw [hdb, hdb']
    exact hclean.createWal_visible metadata hkey

/-- What an earlier replica of group 1 has written: a hard state, two entries and a snapshot. -/
def earlierReplica : List GroupOp :=
  [.createWal ⟨1, by decide⟩ [1],
    .save ⟨1, by decide⟩ ⟨2, 1, 2⟩ [⟨1, 1, .normal, [10]⟩, ⟨2, 2, .normal, [20]⟩],
    .saveSnapshot ⟨1, by decide⟩ ⟨[], ⟨.empty, 1, 1⟩⟩]

/-- What is read for group 1 when its log is created after an earlier replica, with nothing
saved. -/
def newLogAfter (type : WalManagerType) (old : List GroupOp) :
    Except LsmtError (List WalSnapshot) × Except LsmtError ReplayResult :=
  let m := (old ++ [GroupOp.createWal ⟨1, by decide⟩ [2]]).foldl
    (MultiRaftManager.exec .unary type) (.new 4)
  (m.findSnapshot .unary type ⟨1, by decide⟩,
    (m.replayWal .unary type ⟨1, by decide⟩ none false).map (·.1))

/-- The new log has the old vote, the old snapshot and the old entries. -/
theorem old_log_in_new_log :
    newLogAfter .pebble earlierReplica = (.ok [.empty, ⟨1, 1, some .empty⟩],
        .ok ⟨[2], ⟨2, 1, 2⟩, [⟨1, 1, .normal, [10]⟩, ⟨2, 2, .normal, [20]⟩]⟩) ∧
      newLogAfter .badger earlierReplica = newLogAfter .pebble earlierReplica ∧
      newLogAfter .pebble [] = (.ok [.empty], .ok ⟨[2], .empty, []⟩) := by
  decide +kernel

theorem removed_log_not_in_new_log :
    ∃ m, (earlierReplica ++ [GroupOp.removeData ⟨1, by decide⟩]).foldl
        (MultiRaftManager.exec .unary .pebble) (.new 4) = m ∧
      storeReads .unary .pebble ⟨1, by decide⟩
        (m.exec .unary .pebble (.createWal ⟨1, by decide⟩ [2])) =
        storeReads .unary .pebble ⟨1, by decide⟩
          (MultiRaftManager.exec .unary .pebble (.new 4) (.createWal ⟨1, by decide⟩ [2])) := by
  refine ⟨_, rfl, ?_⟩
  have hempty : ((earlierReplica ++ [GroupOp.removeData ⟨1, by decide⟩]).foldl
      (MultiRaftManager.exec .unary .pebble) (.new 4)).db = ∅ := AList.ext (by decide +kernel)
  have hnumbered : ∀ op ∈ earlierReplica ++ [GroupOp.removeData ⟨1, by decide⟩], Numbered op := by
    simp [earlierReplica, Numbered]
  have hfresh := (createWal_fresh_iff .unary ⟨64, 16, 32, true⟩ ⟨[64]⟩ .pebble 4 hnumbered
    ⟨1, by decide⟩).mpr (by
      rw [hempty]
      exact ⟨AList.lookup_empty _, fun _ _ _ => AList.lookup_empty _,
        fun _ _ => AList.lookup_empty _⟩)
  exact hfresh.2 [2] [] (by simp)

end Managers

end Babuza.Experimental
