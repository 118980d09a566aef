import Babuza.Lsmtwal.Recovery

/-!
# Purging the store, and the test for an existing log

`purgeSnapshot` deletes the entries that a snapshot covers: a range in Pebble, one key after the
other in Badger. `HasExistingWals` looks for entries and for nothing else, although a log also
consists of a hard state, snapshots and metadata. What it answers depends on the entries that are
left of those that were saved.
-/

namespace Babuza.Lsmtwal

open Lib Walbase List

/-- The index behind those that a snapshot covers, in 64 bits. -/
def purgeBound (snapshot : Snapshot) : Nat := (snapshot.metadata.index + 1) % 2 ^ 64

def purgedKeys (type : WalManagerType) (db : Db) (snapshot : Snapshot) : List Bytes :=
  match type with
  | .pebble =>
    (scan keyRank db fun key =>
      keyRank keyPrefix.entry ≤ keyRank key &&
        keyRank key < keyRank (entryKey (purgeBound snapshot))).map Prod.fst
  | .badger =>
    ((iterate .badger db keyPrefix.entry).map Prod.fst).takeWhile fun key =>
      beNat (key.drop 16) < purgeBound snapshot

def purgeSnapshot (type : WalManagerType) (db : Db) (snapshot : Snapshot) : Db :=
  if isEmptySnap snapshot then db else eraseKeys db (purgedKeys type db snapshot)

def hasExistingWals (type : WalManagerType) (db : Db) : Bool :=
  !(iterate type db keyPrefix.entry).isEmpty

inductive StoreOp
  | save (st : HardState) (entries : List Entry)
  | saveSnapshot (snapshot : Snapshot)
  | purge (snapshot : Snapshot)
  | restart (snapshot : Option Snapshot) (deleteUncommitted : Bool)

namespace StoreOp

def exec (codecs : RaftCodecs) (type : WalManagerType) (w : LsmtWal) :
    StoreOp → Except LsmtError LsmtWal
  | save st entries => .ok (w.save codecs st entries)
  | saveSnapshot snapshot => .ok (w.saveSnapshot codecs snapshot)
  | purge snapshot => .ok { w with db := purgeSnapshot type w.db snapshot }
  | restart snapshot deleteUncommitted => do
    let (_, w) ← replayWal codecs type w.db snapshot deleteUncommitted
    return w

def Fits : StoreOp → Prop
  | save _ entries => ∀ e ∈ entries, e.index < 256 ^ 8
  | saveSnapshot snapshot => snapshot.metadata.index < 256 ^ 8
  | _ => True

def Saves (i : Nat) : StoreOp → Prop
  | save _ entries => ∃ e ∈ entries, e.index = i
  | _ => False

def Covers (i : Nat) : StoreOp → Prop
  | purge snapshot => ¬ isEmptySnap snapshot ∧ i < purgeBound snapshot
  | _ => False

/-- An entry with the index is saved, and no snapshot that is purged later covers it. -/
def Remains (i : Nat) : List StoreOp → Prop
  | [] => False
  | op :: ops => op.Saves i ∧ (∀ later ∈ ops, ¬ later.Covers i) ∨ Remains i ops

def stored (entries : List Entry) : StoreOp → List Entry
  | save _ batch => batch.foldl (storeAt Entry.index) entries
  | purge snapshot =>
    if isEmptySnap snapshot then entries
    else entries.filter fun e => purgeBound snapshot ≤ e.index
  | _ => entries

end StoreOp

/-! ## What a purge leaves -/

variable {w w' : LsmtWal} {i : Nat} {op : StoreOp}

section Purge

variable {codecs : RaftCodecs} {type : WalManagerType} {db : Db} {metadata : Bytes}
  {st : Option HardState} {snaps : List WalSnapshot} {stored : List Entry}

theorem purgeBound_lt (snapshot : Snapshot) : purgeBound snapshot < 256 ^ 8 :=
  Nat.mod_lt _ (by decide)

theorem beNat_entryKey (hi : i < 256 ^ 8) : beNat ((entryKey i).drop 16) = i := by
  have hdrop : (entryKey i).drop 16 = beBytes 8 i := by
    rw [entryKey_eq, ← append_assoc]
    exact drop_left' rfl
  rw [hdrop, beNat, beBytes, reverse_reverse, leNat_leBytes hi]

theorem takeWhile_eq_filter (h : stored.Pairwise fun a b => a.index < b.index) {bound : Nat}
    {p : Entry → Bool} (hp : ∀ e ∈ stored, p e = decide (e.index < bound)) :
    stored.takeWhile p = stored.filter fun e => e.index < bound := by
  induction stored with
  | nil => rfl
  | cons e stored ih =>
    obtain ⟨hhead, htail⟩ := pairwise_cons.mp h
    rw [takeWhile_cons, filter_cons, hp e mem_cons_self]
    split
    · rw [ih htail fun x hx => hp x (mem_cons_of_mem _ hx)]
    next hge =>
      symm
      rw [filter_eq_nil_iff]
      intro x hx
      have := hhead x hx
      simp only [decide_eq_true_eq] at hge ⊢
      omega

section

variable (h : Stores codecs db metadata st snaps stored)
include h

theorem Stores.mem_purgedKeys (snapshot : Snapshot) {k : Bytes} : k ∈ purgedKeys type db snapshot ↔
      ∃ e ∈ stored, k = entryKey e.index ∧ e.index < purgeBound snapshot := by
  have hbound := purgeBound_lt snapshot
  cases type with
  | pebble =>
    unfold purgedKeys
    simp only [mem_map, Prod.exists, exists_and_right, exists_eq_right, mem_scan,
      Bool.and_eq_true, decide_eq_true_eq]
    have hrange := inRange_entry_entryKey .pebble (purgeBound snapshot)
    simp only [inRange, Bool.and_eq_true, decide_eq_true_eq] at hrange
    constructor
    · rintro ⟨⟨v, hlookup⟩, hle, hlt⟩
      have hk : inRange .pebble keyPrefix.entry k := by
        simp only [inRange, Bool.and_eq_true, decide_eq_true_eq]
        exact ⟨hle, hlt.trans hrange.2⟩
      obtain ⟨e, he, rfl, -⟩ := (h.entries .pebble k v hk).mp hlookup
      exact ⟨e, he, rfl, (keyRank_indexKey_lt_iff _ (h.entries_lt e he) hbound).mp hlt⟩
    · rintro ⟨e, he, rfl, hlt⟩
      have hk := inRange_entry_entryKey .pebble e.index
      refine ⟨⟨_, (h.entries .pebble _ _ hk).mpr ⟨e, he, rfl, rfl⟩⟩, ?_⟩
      simp only [inRange, Bool.and_eq_true, decide_eq_true_eq] at hk
      exact ⟨hk.1, (keyRank_indexKey_lt_iff _ (h.entries_lt e he) hbound).mpr hlt⟩
  | badger =>
    unfold purgedKeys
    have hkeys : ((iterate .badger db keyPrefix.entry).map Prod.fst).takeWhile
        (fun key => beNat (key.drop 16) < purgeBound snapshot) =
        (stored.filter fun e => e.index < purgeBound snapshot).map fun e => entryKey e.index := by
      rw [h.iterate_entries, map_map, takeWhile_map]
      refine congrArg _ (takeWhile_eq_filter h.entries_sorted fun e he => ?_)
      simp only [Function.comp_apply, beNat_entryKey (h.entries_lt e he)]
    simp only [hkeys, mem_map, mem_filter, decide_eq_true_eq]
    tauto

theorem Stores.purgeSnapshot {snapshot : Snapshot} (hne : ¬ isEmptySnap snapshot) :
    Stores codecs (purgeSnapshot type db snapshot) metadata st snaps
      (stored.filter fun e => purgeBound snapshot ≤ e.index) := by
  have hlookup : ∀ {k v}, (Lsmtwal.purgeSnapshot type db snapshot).lookup k = some v ↔
      db.lookup k = some v ∧ ¬ ∃ e ∈ stored, k = entryKey e.index ∧
        e.index < purgeBound snapshot := by
    intro k v
    rw [Lsmtwal.purgeSnapshot, if_neg hne, lookup_eraseKeys_eq_some, h.mem_purgedKeys]
  have hother : ∀ {k}, (∀ i, k ≠ entryKey i) →
      (Lsmtwal.purgeSnapshot type db snapshot).lookup k = db.lookup k := by
    intro k hk
    ext v
    rw [hlookup]
    refine and_iff_left ?_
    rintro ⟨e, -, heq, -⟩
    exact hk e.index heq
  have houtside : ∀ {k}, ¬ inRange .badger keyPrefix.entry k → ∀ i, k ≠ entryKey i := by
    rintro k hk i rfl
    exact hk (inRange_entry_entryKey .badger i)
  refine { h with
    metadata_eq := ?_, hardState_eq := ?_, entries := ?_, snapshots := ?_
    entries_sorted := h.entries_sorted.filter _, entries_lt := ?_ }
  · rw [hother (houtside (not_inRange_entry _ (.inr (.inr (.inl rfl))))), h.metadata_eq]
  · rw [hother (houtside (not_inRange_entry _ (.inl rfl))), h.hardState_eq]
  · intro type k v hk
    rw [hlookup, h.entries type k v hk]
    simp only [mem_filter, decide_eq_true_eq]
    constructor
    · rintro ⟨⟨e, he, rfl, rfl⟩, hkeep⟩
      refine ⟨e, ⟨he, ?_⟩, rfl, rfl⟩
      by_contra hlt
      exact hkeep ⟨e, he, rfl, Nat.not_le.mp hlt⟩
    · rintro ⟨e, ⟨he, hle⟩, rfl, rfl⟩
      refine ⟨⟨e, he, rfl, rfl⟩, ?_⟩
      rintro ⟨x, hx, hkey, hlt⟩
      have := indexKey_injective (h.entries_lt e he) (h.entries_lt x hx) hkey
      omega
  · intro type' k v hk
    rw [hother, h.snapshots type' k v hk]
    rintro i rfl
    exact not_inRange_snapshot type' (.inr (.inr ⟨i, rfl⟩)) hk
  · intro e he
    exact h.entries_lt e (mem_filter.mp he).1

theorem Stores.hasExistingWals_eq : hasExistingWals type db = true ↔ ∃ e, e ∈ stored := by
  unfold hasExistingWals
  rw [h.iterate_entries]
  cases stored <;> simp

end

theorem replayWal_db {snapshot : Option Snapshot} {deleteUncommitted : Bool} {r : ReplayResult}
    (h : replayWal codecs type db snapshot deleteUncommitted = .ok (r, w)) : w.db = db := by
  obtain ⟨hs, -, h⟩ := bind_eq_ok.mp h
  split at h
  · cases h
  · obtain ⟨entries, -, h⟩ := bind_eq_ok.mp h
    obtain ⟨w', happend, h⟩ := bind_eq_ok.mp h
    obtain ⟨es, -, happend⟩ := bind_eq_ok.mp happend
    cases happend
    cases h
    rfl

theorem Stores.exec (h : Stores codecs w.db metadata st snaps stored) (hfits : op.Fits)
    (hexec : op.exec codecs type w = .ok w') :
    ∃ st' snaps', Stores codecs w'.db metadata st' snaps' (op.stored stored) := by
  cases op with
  | save hs entries =>
    cases hexec
    exact ⟨_, _, h.save hs hfits⟩
  | saveSnapshot snapshot =>
    cases hexec
    unfold LsmtWal.saveSnapshot
    split
    · exact ⟨_, _, h⟩
    · have hindex : snapshot.toWal.index < 256 ^ 8 := hfits
      have hsnapshot := h.saveSnapshot hindex
      exact ⟨_, _, hsnapshot⟩
  | purge snapshot =>
    cases hexec
    unfold StoreOp.stored
    simp only
    split
    next hempty =>
      rw [Lsmtwal.purgeSnapshot, if_pos hempty]
      exact ⟨_, _, h⟩
    next hne => exact ⟨_, _, h.purgeSnapshot hne⟩
  | restart snapshot deleteUncommitted =>
    obtain ⟨⟨r, w₁⟩, hreplay, hexec⟩ := bind_eq_ok.mp hexec
    cases hexec
    rw [replayWal_db hreplay]
    exact ⟨_, _, h⟩

end Purge

/-! ## Runs -/

section Runs

variable {codecs : RaftCodecs} {type : WalManagerType} {metadata : Bytes} {entries : List Entry}
  {ops : List StoreOp}

theorem Stores.run {st : Option HardState} {snaps : List WalSnapshot}
    (h : Stores codecs w.db metadata st snaps entries) (hfits : ∀ op ∈ ops, op.Fits)
    (hrun : Lib.run (StoreOp.exec codecs type) w ops = .ok w') :
    ∃ st' snaps', Stores codecs w'.db metadata st' snaps' (ops.foldl StoreOp.stored entries) := by
  induction ops generalizing w st snaps entries with
  | nil =>
    cases hrun
    exact ⟨st, snaps, h⟩
  | cons op ops ih =>
    obtain ⟨w₁, hexec, hrun⟩ := run_cons_eq_ok.mp hrun
    obtain ⟨st₁, snaps₁, h₁⟩ := h.exec (hfits op mem_cons_self) hexec
    exact ih h₁ (fun x hx => hfits x (mem_cons_of_mem _ hx)) hrun

theorem StoreOp.exists_mem_stored :
    (∃ e ∈ op.stored entries, e.index = i) ↔
      op.Saves i ∨ (∃ e ∈ entries, e.index = i) ∧ ¬ op.Covers i := by
  cases op with
  | save st batch =>
    simp only [StoreOp.stored, Saves, Covers, not_false_eq_true, and_true]
    constructor
    · rintro ⟨e, he, rfl⟩
      rcases mem_of_mem_foldl_storeAt he with hold | hnew
      · exact .inr ⟨e, hold, rfl⟩
      · exact .inl ⟨e, hnew, rfl⟩
    · rintro (⟨e, he, rfl⟩ | ⟨e, he, rfl⟩)
      · exact exists_mem_foldl_storeAt (.inr he)
      · exact exists_mem_foldl_storeAt (.inl he)
  | purge snapshot =>
    simp only [StoreOp.stored, Saves, Covers, false_or]
    by_cases hempty : isEmptySnap snapshot
    · simp [hempty]
    · rw [if_neg hempty]
      constructor
      · rintro ⟨e, he, rfl⟩
        obtain ⟨he, hle⟩ := mem_filter.mp he
        exact ⟨⟨e, he, rfl⟩, fun hlt => absurd hlt.2 (Nat.not_lt.mpr (of_decide_eq_true hle))⟩
      · rintro ⟨⟨e, he, rfl⟩, hkeep⟩
        refine ⟨e, mem_filter.mpr ⟨he, decide_eq_true ?_⟩, rfl⟩
        by_contra hlt
        exact hkeep ⟨hempty, Nat.not_le.mp hlt⟩
  | saveSnapshot snapshot => simp [StoreOp.stored, Saves, Covers]
  | restart snapshot deleteUncommitted => simp [StoreOp.stored, Saves, Covers]

/-- After any operations an index is in the store if it remains of those that were saved, or was
there before and was never covered. -/
theorem exists_mem_foldl_stored :
    (∃ e ∈ ops.foldl StoreOp.stored entries, e.index = i) ↔
      StoreOp.Remains i ops ∨ (∃ e ∈ entries, e.index = i) ∧ ∀ op ∈ ops, ¬ op.Covers i := by
  induction ops generalizing entries with
  | nil => simp [StoreOp.Remains]
  | cons op ops ih =>
    rw [foldl_cons, ih, StoreOp.exists_mem_stored, StoreOp.Remains]
    simp only [mem_cons, forall_eq_or_imp]
    tauto

theorem hasExistingWals_run (hfits : ∀ op ∈ ops, op.Fits)
    (hrun : run (StoreOp.exec codecs type) (createWal codecs metadata) ops = .ok w) :
    hasExistingWals type w.db = true ↔ ∃ i, StoreOp.Remains i ops := by
  obtain ⟨st, snaps, h⟩ := (Stores.create metadata).run hfits hrun
  rw [h.hasExistingWals_eq]
  constructor
  · rintro ⟨e, he⟩
    rcases exists_mem_foldl_stored.mp ⟨e, he, rfl⟩ with hremains | ⟨⟨x, hx, -⟩, -⟩
    · exact ⟨e.index, hremains⟩
    · cases hx
  · rintro ⟨i, hremains⟩
    obtain ⟨e, he, -⟩ := exists_mem_foldl_stored.mpr (.inl hremains)
    exact ⟨e, he⟩

end Runs

end Babuza.Lsmtwal
