import Babuza.Lsmtwal.Wal
import Babuza.Walbase.LogState
import Babuza.Walbase.Reads

/-!
# Replaying the key-value logs

`Stores` is what a store contains. `Save` overwrites the entries it has and never removes one, while
the live log is cut off at every batch. So a replay returns the live log exactly when nothing that
was saved lies behind its end (`replayWal_live_iff`). After a conflicting batch that is shorter than
what it replaces, the old end of the log is back (`replayWal_revives_entry`).
-/

namespace Babuza.Lsmtwal

open Lib Walbase List

variable {codecs : RaftCodecs}

/-! ## The contents of a store -/

/-- Keys that stand for the elements of a list, by their index, stand for the new list after one
of them has been set. `P` speaks about a key that is not of this kind. -/
theorem lookup_insert_storeAt {α : Type} {index : α → Nat} {key : Nat → Bytes} {val : α → Bytes}
    {db : Db} {xs : List α} {e : α} {k v : Bytes} {P : Prop}
    (hinj : ∀ x ∈ xs, key (index x) = key (index e) → index x = index e)
    (hP : P → k ≠ key (index e))
    (h : db.lookup k = some v ↔ P ∨ ∃ x ∈ xs, k = key (index x) ∧ v = val x) :
    (db.insert (key (index e)) (val e)).lookup k = some v ↔
      P ∨ ∃ x ∈ storeAt index xs e, k = key (index x) ∧ v = val x := by
  by_cases hk : k = key (index e)
  · subst hk
    rw [AList.lookup_insert]
    constructor
    · intro hv
      exact .inr ⟨e, mem_storeAt.mpr (.inl rfl), rfl, (Option.some.inj hv).symm⟩
    · rintro (hp | ⟨x, hx, hkey, rfl⟩)
      · exact absurd rfl (hP hp)
      · rcases mem_storeAt.mp hx with rfl | ⟨hx, hne⟩
        · rfl
        · exact absurd (hinj x hx hkey.symm) hne
  · rw [AList.lookup_insert_ne hk, h]
    refine or_congr Iff.rfl ⟨?_, ?_⟩
    · rintro ⟨x, hx, rfl, rfl⟩
      exact ⟨x, mem_storeAt.mpr (.inr ⟨hx, fun heq => hk (congrArg key heq)⟩), rfl, rfl⟩
    · rintro ⟨x, hx, rfl, rfl⟩
      rcases mem_storeAt.mp hx with rfl | ⟨hx, -⟩
      · exact absurd rfl hk
      · exact ⟨x, hx, rfl, rfl⟩

structure Stores (codecs : RaftCodecs) (db : Db) (metadata : Bytes) (st : Option HardState)
    (snaps : List WalSnapshot) (stored : List Entry) : Prop where
  metadata_eq : db.lookup keyPrefix.metadata = some metadata
  hardState_eq : db.lookup keyPrefix.hardState = st.map codecs.hardState.marshal
  entries : ∀ type k v, inRange type keyPrefix.entry k →
    (db.lookup k = some v ↔ ∃ e ∈ stored, k = entryKey e.index ∧ v = codecs.entry.marshal e)
  snapshots : ∀ type k v, inRange type keyPrefix.snapshot k →
    (db.lookup k = some v ↔ (k = keyPrefix.snapshot ∧ v = codecs.walSnapshot.marshal .empty) ∨
      ∃ s ∈ snaps, k = snapshotKey s.index ∧ v = codecs.walSnapshot.marshal s)
  entries_sorted : stored.Pairwise fun a b => a.index < b.index
  snapshots_sorted : snaps.Pairwise fun a b => a.index < b.index
  entries_lt : ∀ e ∈ stored, e.index < 256 ^ 8
  snapshots_lt : ∀ s ∈ snaps, s.index < 256 ^ 8

variable {entries : List Entry}

namespace Stores

variable {db : Db} {metadata : Bytes} {st : Option HardState} {snaps : List WalSnapshot}
  {stored : List Entry}

theorem create (metadata : Bytes) :
    Stores codecs (createWal codecs metadata).db metadata none [] [] where
  metadata_eq := AList.lookup_insert _
  hardState_eq := by
    rw [createWal, AList.lookup_insert_ne (by decide), AList.lookup_insert_ne (by decide)]
    rfl
  entries := by
    intro type k v hk
    have hm : k ≠ keyPrefix.metadata := by
      rintro rfl
      exact not_inRange_entry type (.inr (.inr (.inl rfl))) hk
    have hs : k ≠ keyPrefix.snapshot := by
      rintro rfl
      exact not_inRange_entry type (.inr (.inl rfl)) hk
    rw [createWal, AList.lookup_insert_ne hm, AList.lookup_insert_ne hs]
    simp
  snapshots := by
    intro type k v hk
    have hm : k ≠ keyPrefix.metadata := by
      rintro rfl
      exact not_inRange_snapshot type (.inr (.inl rfl)) hk
    rw [createWal, AList.lookup_insert_ne hm]
    by_cases hs : k = keyPrefix.snapshot
    · rw [hs, AList.lookup_insert]
      simp [eq_comm]
    · rw [AList.lookup_insert_ne hs]
      simp [hs]
  entries_sorted := .nil
  snapshots_sorted := .nil
  entries_lt := by simp
  snapshots_lt := by simp

section

variable (h : Stores codecs db metadata st snaps stored)
include h

theorem setHardState (hs : HardState) :
    Stores codecs (setHardState codecs db hs) metadata
      (if isEmptyHardState hs then st else some hs) snaps stored := by
  unfold Lsmtwal.setHardState
  by_cases hempty : isEmptyHardState hs
  · rwa [if_pos hempty, if_pos hempty]
  · rw [if_neg hempty, if_neg hempty]
    refine { h with metadata_eq := ?_, hardState_eq := ?_, entries := ?_, snapshots := ?_ }
    · rw [AList.lookup_insert_ne (by decide), h.metadata_eq]
    · exact AList.lookup_insert _
    · intro type k v hk
      rw [AList.lookup_insert_ne, h.entries type k v hk]
      rintro rfl
      exact not_inRange_entry type (.inl rfl) hk
    · intro type k v hk
      rw [AList.lookup_insert_ne, h.snapshots type k v hk]
      rintro rfl
      exact not_inRange_snapshot type (.inl rfl) hk

theorem setEntry {e : Entry} (he : e.index < 256 ^ 8) :
    Stores codecs (setEntry codecs db e) metadata st snaps (storeAt Entry.index stored e) := by
  unfold Lsmtwal.setEntry
  have hkey : ∀ type k, ¬ inRange type keyPrefix.entry k → k ≠ entryKey e.index := by
    rintro type k hk rfl
    exact hk (inRange_entry_entryKey type e.index)
  refine { h with
    metadata_eq := ?_, hardState_eq := ?_, entries := ?_, snapshots := ?_
    entries_sorted := storeAt_pairwise h.entries_sorted, entries_lt := ?_ }
  · rw [AList.lookup_insert_ne (hkey .badger _ (not_inRange_entry _ (.inr (.inr (.inl rfl))))),
      h.metadata_eq]
  · rw [AList.lookup_insert_ne (hkey .badger _ (not_inRange_entry _ (.inl rfl))), h.hardState_eq]
  · intro type k v hk
    have hold := h.entries type k v hk
    rw [← false_or (∃ e ∈ stored, _)] at hold
    rw [← false_or (∃ x ∈ storeAt Entry.index stored e, _)]
    refine lookup_insert_storeAt (fun x hx hkey => ?_) False.elim hold
    exact indexKey_injective (h.entries_lt x hx) he hkey
  · intro type k v hk
    rw [AList.lookup_insert_ne, h.snapshots type k v hk]
    rintro rfl
    exact not_inRange_snapshot type (.inr (.inr ⟨_, rfl⟩)) hk
  · intro x hx
    rcases mem_storeAt.mp hx with rfl | ⟨hx, -⟩
    · exact he
    · exact h.entries_lt x hx

theorem saveSnapshot {s : WalSnapshot} (hs : s.index < 256 ^ 8) :
    Stores codecs (db.insert (snapshotKey s.index) (codecs.walSnapshot.marshal s)) metadata st
      (storeAt WalSnapshot.index snaps s) stored := by
  have hkey : ∀ type k, ¬ inRange type keyPrefix.snapshot k → k ≠ snapshotKey s.index := by
    rintro type k hk rfl
    rw [snapshotKey_eq] at hk
    exact hk ((inRange_beBytes type (by decide) (by decide) (keyRank_indexRest s.index)).mpr rfl)
  refine { h with
    metadata_eq := ?_, hardState_eq := ?_, entries := ?_, snapshots := ?_
    snapshots_sorted := storeAt_pairwise h.snapshots_sorted, snapshots_lt := ?_ }
  · rw [AList.lookup_insert_ne (hkey .badger _ (not_inRange_snapshot _ (.inr (.inl rfl)))),
      h.metadata_eq]
  · rw [AList.lookup_insert_ne (hkey .badger _ (not_inRange_snapshot _ (.inl rfl))),
      h.hardState_eq]
  · intro type k v hk
    rw [AList.lookup_insert_ne, h.entries type k v hk]
    rintro rfl
    exact not_inRange_entry type (.inr (.inr (.inr ⟨_, rfl⟩))) hk
  · intro type k v hk
    refine lookup_insert_storeAt (fun x hx hkey => ?_) ?_ (h.snapshots type k v hk)
    · exact indexKey_injective (h.snapshots_lt x hx) hs hkey
    · rintro ⟨rfl, -⟩ heq
      have hlen := congrArg List.length heq
      simp [snapshotKey_eq, keyPrefix, newKeyPrefix, createKey] at hlen
  · intro x hx
    rcases mem_storeAt.mp hx with rfl | ⟨hx, -⟩
    · exact hs
    · exact h.snapshots_lt x hx

theorem setEntries (hentries : ∀ e ∈ entries, e.index < 256 ^ 8) :
    Stores codecs (entries.foldl (Lsmtwal.setEntry codecs) db) metadata st snaps
      (entries.foldl (storeAt Entry.index) stored) :=
  foldl_rel (r := fun db => Stores codecs db metadata st snaps) h fun e he _ _ h =>
    h.setEntry (hentries e he)

end

theorem save {w : LsmtWal} (h : Stores codecs w.db metadata st snaps stored) (hs : HardState)
    (hentries : ∀ e ∈ entries, e.index < 256 ^ 8) :
    Stores codecs (w.save codecs hs entries).db metadata
      (if isEmptyHardState hs then st else some hs) snaps
      (entries.foldl (storeAt Entry.index) stored) :=
  (h.setHardState hs).setEntries hentries

theorem iterate_entries (h : Stores codecs db metadata st snaps stored) (type : WalManagerType) :
    iterate type db keyPrefix.entry =
      stored.map fun e => (entryKey e.index, codecs.entry.marshal e) := by
  refine scan_eq ?_ ?_
  · rw [pairwise_map]
    refine h.entries_sorted.imp_of_mem ?_
    intro a b _ hb hlt
    exact keyRank_indexKey_lt _ (h.entries_lt b hb) hlt
  · intro k v
    rw [mem_map]
    constructor
    · rintro ⟨e, he, heq⟩
      cases heq
      have hk := inRange_entry_entryKey type e.index
      exact ⟨(h.entries type _ _ hk).mpr ⟨e, he, rfl, rfl⟩, hk⟩
    · rintro ⟨hlookup, hk⟩
      obtain ⟨e, he, rfl, rfl⟩ := (h.entries type k v hk).mp hlookup
      exact ⟨e, he, rfl⟩

theorem readHardState_eq (h : Stores codecs db metadata st snaps stored) :
    readHardState codecs db = .ok (st.getD .empty) := by
  rw [readHardState, h.hardState_eq]
  cases st with
  | none => rfl
  | some st => simp [unmarshal]

end Stores

theorem replayEntries_cons (snapIndex : Nat) (e : Entry) (rest : List (Bytes × Bytes))
    (entries : List Entry) :
    replayEntries codecs snapIndex ((entryKey e.index, codecs.entry.marshal e) :: rest) entries =
      if snapIndex < e.index then
        if entries.length < e.index - snapIndex - 1 then .error .upOutOfRange
        else replayEntries codecs snapIndex rest (entries.take (e.index - snapIndex - 1) ++ [e])
      else replayEntries codecs snapIndex rest entries := by
  rw [replayEntries, unmarshal, MessageCodec.unmarshal_marshal]
  rfl

theorem replayEntries_filter (snapIndex : Nat) (stored entries : List Entry) :
    replayEntries codecs snapIndex
        (stored.map fun e => (entryKey e.index, codecs.entry.marshal e)) entries =
      replayEntries codecs snapIndex
        ((stored.filter fun e => snapIndex < e.index).map
          fun e => (entryKey e.index, codecs.entry.marshal e)) entries := by
  induction stored generalizing entries with
  | nil => rfl
  | cons e stored ih =>
    rw [map_cons, replayEntries_cons, filter_cons]
    by_cases hlt : snapIndex < e.index
    · simp only [hlt, if_true, decide_true, map_cons, replayEntries_cons, ih]
    · simp only [hlt, if_false, decide_false, Bool.false_eq_true, ih]

variable {stored : List Entry}

theorem replayEntries_consecutive {snapIndex : Nat}
    (h : Consecutive Entry.index (snapIndex + 1 + entries.length) stored) :
    replayEntries codecs snapIndex
        (stored.map fun e => (entryKey e.index, codecs.entry.marshal e)) entries =
      .ok (entries ++ stored) := by
  induction stored generalizing entries with
  | nil => rw [append_nil]; rfl
  | cons e stored ih =>
    obtain ⟨he, hstored⟩ := consecutive_cons.mp h
    have hup : e.index - snapIndex - 1 = entries.length := by omega
    rw [map_cons, replayEntries_cons, if_pos (by omega), hup, if_neg (Nat.lt_irrefl _),
      take_length, ih (by rwa [length_append, length_singleton, ← Nat.add_assoc]),
      append_assoc, singleton_append]

theorem Stores.replayWal_eq {db : Db} {metadata : Bytes} {st : Option HardState}
    {snaps : List WalSnapshot} (h : Stores codecs db metadata st snaps stored)
    (type : WalManagerType) (snapshot : Option Snapshot)
    (hstored : Consecutive Entry.index ((snapshot.map (·.metadata.index)).getD 0 + 1)
      (stored.filter fun e => (snapshot.map (·.metadata.index)).getD 0 < e.index)) :
    ∃ es, replayWal codecs type db snapshot false =
        .ok (⟨metadata, st.getD .empty,
          stored.filter fun e => (snapshot.map (·.metadata.index)).getD 0 < e.index⟩, ⟨db, es⟩) ∧
      es.dummy.index = (snapshot.map (·.metadata.index)).getD 0 ∧
      es.ents = (stored.filter fun e =>
        (snapshot.map (·.metadata.index)).getD 0 < e.index).map entryIndexOf := by
  generalize hsnap : (snapshot.map (·.metadata.index)).getD 0 = snapIndex at *
  generalize hfilter : stored.filter (fun e => snapIndex < e.index) = entries at *
  have hreplay : replayEntries codecs snapIndex (iterate type db keyPrefix.entry) [] =
      .ok entries := by
    rw [h.iterate_entries, replayEntries_filter, hfilter, replayEntries_consecutive hstored,
      nil_append]
  have hindex : Consecutive EntryIndex.index (snapIndex + 1) (entries.map entryIndexOf) := by
    rwa [Consecutive, map_map, length_map]
  obtain ⟨es, happend, hes, hents⟩ :=
    EntryStorage.ofSnapshot_appendEntryIndex snapshot (st.getD .empty) (hsnap ▸ hindex)
  rw [hsnap] at hes
  refine ⟨es, ?_, hes, hents⟩
  unfold replayWal
  simp only [h.readHardState_eq, h.metadata_eq, hsnap, hreplay, ok_bind, LsmtWal.append,
    Bool.false_eq_true, if_false, happend]
  rfl

/-! ## Saving to a live log -/

/-- A `Save` and the `Append` to the entry storage that follows it. -/
def saveAndAppend (codecs : RaftCodecs) (w : LsmtWal) (args : SaveArgs) :
    Except LsmtError LsmtWal :=
  (w.save codecs args.1 args.2).append args.2

/-- The live log of `w`: what its entry storage returns for all its indices. -/
def liveEntries (codecs : RaftCodecs) (w : LsmtWal) : Except StorageError (List Entry) :=
  if w.es.ents = [] then .ok []
  else w.es.readEntries (readEntriesData codecs w.db) w.es.firstIndex (w.es.lastIndex + 1)

/-- The live log is `log` and all of it is cached; the store has `stored`. -/
structure Tracks (codecs : RaftCodecs) (metadata : Bytes) (saved : List Entry) (w : LsmtWal)
    (log stored : List Entry) : Prop where
  stores : ∃ st, Stores codecs w.db metadata st [] stored
  consecutive : Consecutive Entry.index 1 stored
  front : log <+: stored
  dummy_eq : w.es.dummy.index = 0
  ents_eq : w.es.ents = log.map entryIndexOf
  holds : w.es.cache.Holds (log.map .ofEntry)
  mem_saved : ∀ e ∈ stored, e ∈ saved
  saved_mem : ∀ e ∈ saved, ∃ x ∈ stored, x.index = e.index

namespace Tracks

variable {metadata : Bytes} {saved log : List Entry} {w w' : LsmtWal}

theorem create (metadata : Bytes) :
    Tracks codecs metadata [] (createWal codecs metadata) [] [] where
  stores := ⟨none, .create metadata⟩
  consecutive := consecutive_nil
  front := List.nil_prefix
  dummy_eq := rfl
  ents_eq := rfl
  holds := Cache.newCache_holds
  mem_saved := by simp
  saved_mem := by simp

section

variable (h : Tracks codecs metadata saved w log stored)
include h

theorem log_consecutive : Consecutive Entry.index 1 log := by
  rw [prefix_iff_eq_take.mp h.front]
  exact h.consecutive.take _

theorem lastIndex_eq : w.es.lastIndex = log.length := by
  rw [EntryStorage.lastIndex, h.dummy_eq, h.ents_eq, length_map, Nat.zero_add]

theorem appendCache {first : Nat} (hne : entries ≠ [])
    (hentries : Consecutive Entry.index first entries) (hpos : 0 < first)
    (hfirst : first ≤ log.length + 1) :
    (w.es.cache.append entries).Holds
      ((truncAppend Entry.index 0 log entries).map CacheEntryData.ofEntry) := by
  rw [truncAppend_of_consecutive hne hentries, map_append, map_take, Nat.sub_zero]
  by_cases hnil : log = []
  · subst hnil
    rw [map_nil, take_nil, nil_append]
    exact Cache.Holds.append_of_empty h.holds entries
  · exact h.holds.append_of_le (by simpa using hnil)
      (Cache.consecutive_ofEntry.mpr h.log_consecutive) hentries hpos
      (by rw [length_map]; omega) hne

end

theorem save_index (codecs : RaftCodecs) (w : LsmtWal) (st : HardState) (entries : List Entry) :
    (w.save codecs st entries).es.dummy = w.es.dummy ∧
      (w.save codecs st entries).es.ents = w.es.ents := by
  unfold LsmtWal.save
  split
  all_goals exact ⟨rfl, rfl⟩

section

variable (h : Tracks codecs metadata saved w log stored)
include h

theorem save_cache (st : HardState) (hvalid : ValidBatch log.length entries) :
    (w.save codecs st entries).es.cache.Holds
      ((truncAppend Entry.index 0 log entries).map CacheEntryData.ofEntry) := by
  obtain ⟨first, hentries, hpos, hfirst⟩ := hvalid.consecutive
  unfold LsmtWal.save
  by_cases hne : entries = []
  · rw [if_pos hne, hne]
    exact h.holds
  · rw [if_neg hne]
    exact h.appendCache hne hentries hpos hfirst

theorem saveAndAppend {args : SaveArgs} (hvalid : ValidBatch log.length args.2) :
    ∃ w', saveAndAppend codecs w args = .ok w' ∧
      Tracks codecs metadata (saved ++ args.2) w' (truncAppend Entry.index 0 log args.2)
        (args.2.foldl (storeAt Entry.index) stored) := by
  obtain ⟨st, entries⟩ := args
  obtain ⟨first, hentries, hpos, hfirst⟩ := hvalid.consecutive
  obtain ⟨hdummy, hents⟩ := save_index codecs w st entries
  obtain ⟨hconsecutive, hfront⟩ := foldl_storeAt h.consecutive h.front hentries hpos (by omega)
  have hcache := h.save_cache st hvalid
  have hindex : Consecutive EntryIndex.index first (entries.map entryIndexOf) := by
    rwa [Consecutive, map_map, length_map]
  have happend : (w.save codecs st entries).es.appendEntryIndex (entries.map entryIndexOf) = _ :=
    EntryStorage.appendEntryIndex_eq hindex (by rw [hdummy, h.dummy_eq]; exact hpos) (by
      rw [EntryStorage.lastIndex, hdummy, hents, ← EntryStorage.lastIndex, h.lastIndex_eq]
      exact hfirst)
  have hlt : ∀ e ∈ entries, e.index < 256 ^ 8 := by
    intro e he
    have := hvalid.index_lt e he
    omega
  obtain ⟨st', hstores⟩ := h.stores
  refine ⟨_, by rw [Lsmtwal.saveAndAppend, LsmtWal.append, happend]; rfl, ?_⟩
  exact {
    stores := ⟨_, hstores.save st hlt⟩
    consecutive := hconsecutive
    front := hfront
    dummy_eq := by simp only [hdummy, h.dummy_eq]
    ents_eq := by
      simp only [hdummy, hents, h.dummy_eq, h.ents_eq]
      exact (truncAppend_map (fun _ => rfl) 0 log entries).symm
    holds := hcache
    mem_saved := by
      intro e he
      rcases mem_of_mem_foldl_storeAt he with he | he
      · exact mem_append_left _ (h.mem_saved e he)
      · exact mem_append_right _ he
    saved_mem := by
      refine forall_mem_append.mpr ⟨fun e he => ?_, fun e he => exists_mem_foldl_storeAt (.inr he)⟩
      obtain ⟨x, hx, heq⟩ := h.saved_mem e he
      rw [← heq]
      exact exists_mem_foldl_storeAt (.inl hx) }

theorem saveAll {saves : List SaveArgs} (hvalid : ValidSaves log saves)
    (hrun : run (Lsmtwal.saveAndAppend codecs) w saves = .ok w') :
    ∃ log' stored', Tracks codecs metadata (saved ++ saves.flatMap (·.2)) w' log' stored' := by
  induction saves generalizing saved w log stored with
  | nil =>
    cases hrun
    exact ⟨log, stored, by rwa [flatMap_nil, append_nil]⟩
  | cons args saves ih =>
    obtain ⟨w₁, hsave, hrun⟩ := run_cons_eq_ok.mp hrun
    obtain ⟨w₁', hsave', h₁⟩ := h.saveAndAppend hvalid.1
    cases hsave.symm.trans hsave'
    have := ih h₁ hvalid.2 hrun
    rwa [append_assoc] at this

theorem saved_le_iff : (∀ e ∈ saved, e.index ≤ w.es.lastIndex) ↔ stored = log := by
  have hle := h.front.length_le
  rw [h.lastIndex_eq]
  constructor
  · intro hsaved
    by_contra hne
    have hlong : log.length < stored.length :=
      Nat.lt_of_le_of_ne hle fun heq => hne (h.front.eq_of_length heq).symm
    have hlast : stored ≠ [] := ne_nil_of_length_pos (by omega)
    have hindex := h.consecutive.getLast hlast
    have := hsaved _ (h.mem_saved _ (getLast_mem hlast))
    omega
  · intro heq e he
    obtain ⟨x, hx, hindex⟩ := h.saved_mem e he
    have hlt := h.consecutive.index_lt hx
    rw [heq] at hlt
    omega

theorem readEntry_eq {e : Entry} (he : e ∈ log) :
    readEntry codecs w.db (entryIndexOf e) = .ok e := by
  obtain ⟨st, hstores⟩ := h.stores
  have hlookup := (hstores.entries .badger _ _ (inRange_entry_entryKey _ _)).mpr ⟨e, h.front.subset
    he, rfl, rfl⟩
  have hindex : (entryIndexOf e).index = e.index := rfl
  rw [readEntry, hindex, hlookup]
  simp only [unmarshal, MessageCodec.unmarshal_marshal]
  rfl

theorem liveEntries_eq : liveEntries codecs w = .ok log := by
  by_cases hnil : log = []
  · rw [liveEntries, if_pos (by rw [h.ents_eq, hnil]; rfl), hnil]
  -- the data of an index entry is that of the live entry with its index
  let dataOf : EntryIndex EntryMetadata → Bytes := fun x =>
    (log[x.index - 1]?.map Entry.data).getD []
  have hentry : ∀ e ∈ log, (entryIndexOf e).entry dataOf = e := by
    intro e he
    have hget : log[(entryIndexOf e).index - 1]? = some e := h.log_consecutive.getElem?_index he
    simp only [EntryIndex.entry, dataOf, hget]
    rfl
  have hlive : w.es.live dataOf = log := by
    rw [EntryStorage.live, h.ents_eq, map_map]
    conv_rhs => rw [← map_id log]
    exact map_congr_left hentry
  have hshares : Shares w.es.dummy.index (w.es.live dataOf) w.es.cache 0 0 log
      (log.map .ofEntry) := by
    rw [hlive, h.dummy_eq]
    exact ⟨h.log_consecutive, Nat.le_refl _, Nat.zero_le _, Nat.le_refl _, rfl,
      Cache.consecutive_ofEntry.mpr h.log_consecutive, h.holds, fun _ => rfl⟩
  have hreader : ∀ xs ⊆ w.es.ents, xs ≠ [] →
      readEntriesData codecs w.db xs (xs.map EntryStorage.blank) =
        .ok (xs.map (·.entry dataOf)) := by
    intro xs hxs hne
    rw [readEntriesData, if_neg (by simp [hne])]
    apply mapM_eq_ok
    intro x hx
    obtain ⟨e, he, rfl⟩ := mem_map.mp (h.ents_eq ▸ hxs hx)
    rw [hentry e he]
    exact h.readEntry_eq he
  have hpos := length_pos_iff.mpr hnil
  have hread := EntryStorage.readEntries_eq hshares hreader
    (show w.es.dummy.index < w.es.firstIndex from Nat.lt_succ_self _)
    (show w.es.firstIndex < w.es.lastIndex + 1 by
      rw [EntryStorage.firstIndex, h.dummy_eq, h.lastIndex_eq]
      omega) (Nat.le_refl _)
  have hents : w.es.ents ≠ [] := by
    rw [h.ents_eq]
    simpa using hnil
  rw [liveEntries, if_neg hents, hread, EntryStorage.window, hlive, EntryStorage.firstIndex,
    h.dummy_eq, h.lastIndex_eq]
  simp

theorem replayWal_eq (type : WalManagerType) :
    ∃ st es, replayWal codecs type w.db none false =
      .ok (⟨metadata, st, stored⟩, ⟨w.db, es⟩) := by
  obtain ⟨st, hstores⟩ := h.stores
  have hall : stored.filter (fun e => 0 < e.index) = stored := by
    rw [filter_eq_self]
    intro e he
    exact decide_eq_true (h.consecutive.le_index he)
  obtain ⟨es, hreplay, -⟩ := hstores.replayWal_eq type none (by
    simp only [Option.map_none, Option.getD_none, hall]
    exact h.consecutive)
  simp only [Option.map_none, Option.getD_none, hall] at hreplay
  exact ⟨_, es, hreplay⟩

end

end Tracks

/-- After any saves, a replay brings the live log back exactly when no saved entry lies behind its
end. -/
theorem replayWal_live_iff {metadata : Bytes} {saves : List SaveArgs} {w : LsmtWal}
    (type : WalManagerType) (hvalid : ValidSaves [] saves)
    (hrun : run (saveAndAppend codecs) (createWal codecs metadata) saves = .ok w) :
    (∃ r w', replayWal codecs type w.db none false = .ok (r, w') ∧
      liveEntries codecs w = .ok r.entries) ↔
      ∀ e ∈ saves.flatMap (·.2), e.index ≤ w.es.lastIndex := by
  obtain ⟨log, stored, htracks⟩ := (Tracks.create metadata).saveAll hvalid hrun
  obtain ⟨st, es, hreplay⟩ := htracks.replayWal_eq type
  rw [nil_append] at htracks
  rw [htracks.saved_le_iff, htracks.liveEntries_eq]
  constructor
  · rintro ⟨r, w', hr, hlive⟩
    rw [hreplay] at hr
    cases hr
    exact (Except.ok.inj hlive).symm
  · intro heq
    exact ⟨_, _, hreplay, by rw [heq]⟩

/-- What a replay and the live entry storage say after the saves. -/
def logsAfter (type : WalManagerType) (saves : List SaveArgs) :
    Except LsmtError (List Entry × Except StorageError (List Entry)) := do
  let w ← run (saveAndAppend .unary) (createWal .unary [1]) saves
  let (r, _) ← replayWal .unary type w.db none false
  return (r.entries, liveEntries .unary w)

def shorterConflict : List SaveArgs :=
  [(⟨1, 0, 1⟩, [⟨1, 1, .normal, [10]⟩, ⟨1, 2, .normal, [20]⟩, ⟨1, 3, .normal, [30]⟩]),
    (⟨2, 0, 1⟩, [⟨2, 2, .normal, [21]⟩])]

theorem replayWal_revives_entry :
    ValidSaves [] shorterConflict ∧ ∀ type, logsAfter type shorterConflict =
      .ok ([⟨1, 1, .normal, [10]⟩, ⟨2, 2, .normal, [21]⟩, ⟨1, 3, .normal, [30]⟩],
        .ok [⟨1, 1, .normal, [10]⟩, ⟨2, 2, .normal, [21]⟩]) := by
  refine ⟨⟨⟨⟨1, by decide⟩, by decide, by decide⟩, ⟨⟨2, by decide⟩, by decide, by decide⟩,
    trivial⟩, ?_⟩
  intro type
  cases type with
  | badger | pebble => decide +kernel

def equalConflict : List SaveArgs :=
  [(⟨1, 0, 1⟩, [⟨1, 1, .normal, [10]⟩, ⟨1, 2, .normal, [20]⟩]),
    (⟨2, 0, 1⟩, [⟨2, 2, .normal, [21]⟩])]

theorem replayWal_live_equalConflict :
    ∃ w, run (saveAndAppend .unary) (createWal .unary [1]) equalConflict = .ok w ∧
      ((∃ r w', replayWal .unary .pebble w.db none false = .ok (r, w') ∧
        liveEntries .unary w = .ok r.entries) ↔
        ∀ e ∈ equalConflict.flatMap (·.2), e.index ≤ w.es.lastIndex) := by
  have h : logsAfter .pebble equalConflict =
      .ok ([⟨1, 1, .normal, [10]⟩, ⟨2, 2, .normal, [21]⟩],
        .ok [⟨1, 1, .normal, [10]⟩, ⟨2, 2, .normal, [21]⟩]) := by decide +kernel
  obtain ⟨w, hrun, -⟩ := bind_eq_ok.mp h
  refine ⟨w, hrun, replayWal_live_iff .pebble ?_ hrun⟩
  exact ⟨⟨⟨1, by decide⟩, by decide, by decide⟩, ⟨⟨2, by decide⟩, by decide, by decide⟩, trivial⟩

end Babuza.Lsmtwal
