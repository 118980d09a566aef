import Babuza.Walbase.Storage

/-!
# Reads of the entry storage

`EntryStorage.entries` splices its answer from the cache and from the data reader. It is right as
long as the live log and the cache are two ends of one log, or the log ends before the first cached
entry (`Shares`). Saving, compacting and restarting keep this, with one exception: `Cache.append`
ignores a batch that starts below the first cached entry, which happens after a restart, and if the
batch reaches that entry the cache keeps what the log no longer has (`entries_stale_after_restart`).
`entries_latest` is the guarantee for all other runs.
-/

namespace Babuza.Walbase

open Lib List

variable {T : Type}

/-- The entry an index entry stands for; `dataOf` gives the data its metadata leads to. -/
def EntryIndex.entry (dataOf : EntryIndex T → Bytes) (x : EntryIndex T) : Entry :=
  ⟨x.term, x.index, x.type, dataOf x⟩

def strip (e : Entry) : Entry := { e with data := [] }

variable {first : Nat}

variable {dataOf : EntryIndex T → Bytes}

theorem consecutive_entry {xs : List (EntryIndex T)} :
    Consecutive Entry.index first (xs.map (·.entry dataOf)) ↔
      Consecutive EntryIndex.index first xs := by
  rw [Consecutive, Consecutive, map_map, length_map]
  rfl

theorem consecutive_strip {ents : List Entry} :
    Consecutive Entry.index first (ents.map strip) ↔ Consecutive Entry.index first ents := by
  rw [Consecutive, Consecutive, map_map, length_map]
  rfl

theorem zipWith_fill_take (n : Nat) (ents : List Entry) :
    List.zipWith Cache.fill ((ents.take n).map strip) (ents.map .ofEntry) = ents.take n := by
  induction ents generalizing n with
  | nil => simp
  | cons e ents ih =>
    cases n with
    | zero => rfl
    | succ n =>
      rw [take_succ_cons, map_cons, map_cons, zipWith_cons_cons, ih]
      rfl

/-! ## One log behind the live entries and the cache -/

/-- The live log above `base` is what `all` has above `base`, and the cached entries `xs` are what
it has above `cached`; entries that are cached beyond the end of the log may be any. -/
structure Shares (base : Nat) (live : List Entry) (c : Cache) (start cached : Nat)
    (all : List Entry) (xs : List CacheEntryData) : Prop where
  consecutive : Consecutive Entry.index (start + 1) all
  start_le_base : start ≤ base
  base_le : base ≤ start + all.length
  start_le_cached : start ≤ cached
  live_eq : live = all.drop (base - start)
  cache_consecutive : Consecutive CacheEntryData.index (cached + 1) xs
  holds : c.Holds xs
  agrees : cached < start + all.length → xs = (all.drop (cached - start)).map .ofEntry

variable {entries : List Entry}

variable {i lo n : Nat}

namespace Shares

variable {base start cached : Nat} {live all : List Entry} {c : Cache} {xs : List CacheEntryData}

theorem of_empty (hlive : Consecutive Entry.index (base + 1) live) (hc : c.Holds []) :
    Shares base live c base (base + live.length) live [] where
  consecutive := hlive
  start_le_base := Nat.le_refl _
  base_le := Nat.le_add_right _ _
  start_le_cached := Nat.le_add_right _ _
  live_eq := by rw [Nat.sub_self, drop_zero]
  cache_consecutive := consecutive_nil
  holds := hc
  agrees h := absurd h (Nat.lt_irrefl _)

section

variable (h : Shares base live c start cached all xs)
include h

theorem lastIndex_eq : base + live.length = start + all.length := by
  have hlo := h.start_le_base
  have hhi := h.base_le
  rw [h.live_eq, length_drop]
  omega

theorem live_consecutive : Consecutive Entry.index (base + 1) live := by
  have hdrop := h.consecutive.drop (base - start)
  have hlo := h.start_le_base
  rw [h.live_eq]
  rwa [show start + 1 + (base - start) = base + 1 by omega] at hdrop

theorem cached_length (hcached : cached < start + all.length) :
    cached + xs.length = start + all.length := by
  have hstart := h.start_le_cached
  rw [h.agrees hcached, length_map, length_drop]
  omega

theorem compact (hlo : base ≤ i) (hhi : i ≤ base + live.length) :
    Shares i (live.drop (i - base)) c start cached all xs :=
  { h with
    start_le_base := h.start_le_base.trans hlo
    base_le := h.lastIndex_eq ▸ hhi
    live_eq := by
      have hstart := h.start_le_base
      rw [h.live_eq, drop_drop, show base - start + (i - base) = i - start by omega] }

theorem delete (toIndex : Nat) :
    ∃ cached' xs', Shares base live (c.delete toIndex) start cached' all xs' := by
  have hstart := h.start_le_cached
  have hdelete := h.holds.delete toIndex
  have hconsecutive := h.cache_consecutive.drop (toIndex + 1 - (cached + 1))
  rw [h.cache_consecutive.dropWhile_le] at hdelete
  rw [show cached + 1 + (toIndex + 1 - (cached + 1)) = max cached toIndex + 1 by omega]
    at hconsecutive
  refine ⟨max cached toIndex, _, { h with
    start_le_cached := hstart.trans (Nat.le_max_left _ _)
    cache_consecutive := hconsecutive
    holds := hdelete
    agrees := fun hlt => ?_ }⟩
  rw [h.agrees (by omega), ← map_drop, drop_drop,
    show cached - start + (toIndex + 1 - (cached + 1)) = max cached toIndex - start by omega]

theorem append (hne : entries ≠ []) (hentries : Consecutive Entry.index first entries)
    (hlo : base < first) (hhi : first ≤ base + live.length + 1)
    (hcache : c.indexRange.empty = true ∨ c.indexRange.first ≤ first ∨
      first + entries.length ≤ c.indexRange.first) :
    ∃ cached' xs', Shares base (truncAppend Entry.index base live entries) (c.append entries) start
      cached' (truncAppend Entry.index start all entries) xs' := by
  have hstart := h.start_le_base
  have hcached := h.start_le_cached
  rw [h.lastIndex_eq] at hhi
  have hlen := truncAppend_length hne hentries (hstart.trans_lt hlo) hhi
  -- both ends of the new log are the new batch behind the old end
  have hdrop : ∀ i, start ≤ i → i < first →
      (truncAppend Entry.index start all entries).drop (i - start) =
        truncAppend Entry.index i (all.drop (i - start)) entries := by
    intro i hi hlt
    have := truncAppend_drop (n := i - start) hentries (by omega) hhi
    rwa [show start + (i - start) = i by omega] at this
  have hshares : ∀ cached' xs', start ≤ cached' →
      Consecutive CacheEntryData.index (cached' + 1) xs' → (c.append entries).Holds xs' →
      (cached' < start + (truncAppend Entry.index start all entries).length →
        xs' = ((truncAppend Entry.index start all entries).drop (cached' - start)).map .ofEntry) →
      Shares base (truncAppend Entry.index base live entries) (c.append entries) start cached'
        (truncAppend Entry.index start all entries) xs' := by
    intro cached' xs' hge hconsecutive hholds hagrees
    exact {
      consecutive := truncAppend_consecutive h.consecutive hentries (by omega) hhi
      start_le_base := hstart
      base_le := by omega
      start_le_cached := hge
      live_eq := by rw [hdrop base hstart hlo, h.live_eq]
      cache_consecutive := hconsecutive
      holds := hholds
      agrees := hagrees }
  have hbatch : Consecutive CacheEntryData.index first (entries.map .ofEntry) :=
    Cache.consecutive_ofEntry.mpr hentries
  by_cases hempty : xs = []
  · subst hempty
    refine ⟨first - 1, _, hshares _ _ (by omega) ?_ (h.holds.append_of_empty entries) fun _ => ?_⟩
    · rwa [show first - 1 + 1 = first by omega]
    · rw [hdrop _ (by omega) (by omega), truncAppend_of_consecutive hne hentries,
        show first - (first - 1) - 1 = 0 by omega, take_zero, nil_append]
  · rw [h.holds.indexRange_eq hempty h.cache_consecutive] at hcache
    dsimp only at hcache
    rcases hcache with hcache | hfirst | hbelow
    · cases hcache
    · have hreach : first ≤ cached + 1 + xs.length := by
        by_cases hend : cached < start + all.length
        · have := h.cached_length hend
          omega
        · omega
      have hholds := h.holds.append_of_le hempty h.cache_consecutive hentries hfirst hreach hne
      refine ⟨cached, _, hshares _ _ hcached ?_ hholds fun _ => ?_⟩
      · refine consecutive_append.mpr ⟨h.cache_consecutive.take _, ?_⟩
        rwa [length_take, show cached + 1 + min (first - (cached + 1)) xs.length = first by omega]
      · rw [hdrop _ hcached hfirst, truncAppend_of_consecutive hne hentries, map_append, map_take,
          Nat.sub_sub]
        by_cases hend : cached < start + all.length
        · rw [h.agrees hend]
        · rw [show first - (cached + 1) = 0 by omega, take_zero, take_zero]
    · -- the batch does not reach the cache, and the log ends before it
      refine ⟨cached, xs, hshares _ _ hcached h.cache_consecutive ?_ fun hend => ?_⟩
      · rw [h.holds.append_of_below hempty h.cache_consecutive hentries hbelow]
        exact h.holds
      · omega

end

end Shares

/-! ## What a read returns -/

namespace EntryStorage

/-- The live log, with the data the index leads to. -/
def live (dataOf : EntryIndex T → Bytes) (es : EntryStorage T) : List Entry :=
  es.ents.map (·.entry dataOf)

def window (dataOf : EntryIndex T → Bytes) (es : EntryStorage T) (lo n : Nat) : List Entry :=
  ((es.live dataOf).drop (lo - es.dummy.index - 1)).take n

section Reading

variable {reader : EntryDataReader T} {es : EntryStorage T} {start cached : Nat} {all : List Entry}
  {cachedData : List CacheEntryData}
  (h : Shares es.dummy.index (es.live dataOf) es.cache start cached all cachedData)
  (hreader : ∀ xs ⊆ es.ents, xs ≠ [] → reader xs (xs.map blank) = .ok (xs.map (·.entry dataOf)))

theorem slice_blank (dataOf : EntryIndex T → Bytes) (lo hi : Nat) :
    (es.slice lo hi).map blank = ((es.slice lo hi).map (·.entry dataOf)).map strip := by
  rw [map_map]
  rfl

include h in
theorem lastIndex_eq : es.lastIndex = start + all.length := by
  rw [← h.lastIndex_eq, live, length_map]
  rfl

theorem window_length (hlo : es.dummy.index < lo) (hhi : lo + n ≤ es.lastIndex + 1) :
    (es.window dataOf lo n).length = n := by
  have hlen : (es.live dataOf).length = es.ents.length := length_map _
  rw [lastIndex] at hhi
  rw [window, length_take, length_drop]
  omega

include h in
theorem window_consecutive (hlo : es.dummy.index < lo) :
    Consecutive Entry.index lo (es.window dataOf lo n) := by
  have hdrop := (h.live_consecutive.drop (lo - es.dummy.index - 1)).take n
  rwa [show es.dummy.index + 1 + (lo - es.dummy.index - 1) = lo by omega] at hdrop

theorem window_append (dataOf : EntryIndex T → Bytes) (es : EntryStorage T) (m n : Nat)
    (hlo : es.dummy.index < lo) :
    es.window dataOf lo (m + n) = es.window dataOf lo m ++ es.window dataOf (lo + m) n := by
  rw [window, window, window, take_add, drop_drop,
    show lo - es.dummy.index - 1 + m = lo + m - es.dummy.index - 1 by omega]

include h in
theorem readCache_window (hn : 0 < n) (hbase : es.dummy.index < lo) (hlo : cached < lo)
    (hhi : lo + n ≤ es.lastIndex + 1) :
    es.readCache ((es.window dataOf lo n).map strip) = .ok (es.window dataOf lo n) := by
  have hlen : (es.window dataOf lo n).length = n := window_length hbase hhi
  have hstart := h.start_le_base
  have hcached := h.start_le_cached
  rw [lastIndex_eq h] at hhi
  have hne : (es.window dataOf lo n).map strip ≠ [] := by
    intro hnil
    rw [map_eq_nil_iff.mp hnil, length_nil] at hlen
    omega
  have hread := h.holds.readEntriesData_eq h.cache_consecutive hne
    (consecutive_strip.mpr (window_consecutive h hbase)) hlo (by
      have hlength := h.cached_length (by omega)
      rw [length_map, hlen]
      omega)
  -- the same entries, as a part of the whole log
  have hall : es.window dataOf lo n = (all.drop (lo - 1 - start)).take n := by
    rw [window, h.live_eq, drop_drop,
      show es.dummy.index - start + (lo - es.dummy.index - 1) = lo - 1 - start by omega]
  rw [h.agrees (by omega), ← map_drop, drop_drop,
    show cached - start + (lo - (cached + 1)) = lo - 1 - start by omega, hall,
    zipWith_fill_take] at hread
  rw [readCache, hall, hread]

include h hreader in
theorem readEntries_eq {hi : Nat} (hlo : es.dummy.index < lo) (hlt : lo < hi)
    (hhi : hi ≤ es.lastIndex + 1) :
    es.readEntries reader lo hi = .ok (es.window dataOf lo (hi - lo)) := by
  have hne : es.ents ≠ [] := by
    intro hnil
    rw [lastIndex, hnil, length_nil] at hhi
    omega
  have hrange : es.validateGetEntriesRange lo hi =
      .ok (es.dummy.index, lo - es.dummy.index, hi - es.dummy.index) := by
    unfold validateGetEntriesRange
    rw [if_neg (by omega), if_neg (by omega), if_neg hne]
  have hslice : ∀ hi', lo ≤ hi' →
      (es.slice (lo - es.dummy.index) (hi' - es.dummy.index)).map (·.entry dataOf) =
        es.window dataOf lo (hi' - lo) := by
    intro hi' hle
    rw [slice, map_take, map_drop, window, live,
      show hi' - es.dummy.index - (lo - es.dummy.index) = hi' - lo by omega]
  have hfront : ∀ hi', lo < hi' → hi' ≤ hi →
      reader (es.slice (lo - es.dummy.index) (hi' - es.dummy.index))
        ((es.window dataOf lo (hi' - lo)).map strip) = .ok (es.window dataOf lo (hi' - lo)) := by
    intro hi' hlt' hle
    have hlen : (es.window dataOf lo (hi' - lo)).length = hi' - lo := window_length hlo (by omega)
    rw [← hslice hi' hlt'.le] at hlen ⊢
    rw [← slice_blank]
    apply hreader
    · exact fun x hx => mem_of_mem_drop (mem_of_mem_take hx)
    · intro hnil
      rw [hnil, map_nil, length_nil] at hlen
      omega
  unfold readEntries
  rw [hrange, ok_bind]
  simp only [slice_blank dataOf, hslice hi hlt.le, if_neg (show ¬ hi - es.dummy.index <
      lo - es.dummy.index by omega), show es.dummy.index + (hi - es.dummy.index) - 1 =
      hi - 1 by omega, show es.dummy.index + (lo - es.dummy.index) = lo by omega]
  by_cases hempty : cachedData = []
  · rw [Cache.indexRange, if_pos (h.holds.length_eq_zero_iff.mpr hempty), if_pos (.inl rfl),
      hfront hi hlt (Nat.le_refl _)]
  · have hlast := lastIndex_eq h
    rw [h.holds.indexRange_eq hempty h.cache_consecutive]
    simp only [Bool.false_eq_true, false_or]
    by_cases hbelow : hi - 1 < cached + 1
    · rw [if_pos hbelow, hfront hi hlt (Nat.le_refl _)]
    rw [if_neg hbelow]
    have hlength := h.cached_length (by omega)
    by_cases habove : cached < lo
    · rw [if_pos ⟨habove, by omega⟩]
      exact readCache_window h (by omega) hlo habove (by omega)
    · -- the front comes from the reader, the rest from the cache
      rw [if_neg (by omega), if_pos ⟨by omega, by omega⟩]
      have hsplit : es.window dataOf lo (hi - lo) =
          es.window dataOf lo (cached + 1 - lo) ++
            es.window dataOf (cached + 1) (hi - (cached + 1)) := by
        have happend := window_append dataOf es (cached + 1 - lo) (hi - (cached + 1)) hlo
        rwa [show cached + 1 - lo + (hi - (cached + 1)) = hi - lo by omega,
          show lo + (cached + 1 - lo) = cached + 1 by omega] at happend
      have hlen : ((es.window dataOf lo (cached + 1 - lo)).map strip).length = cached + 1 - lo := by
        rw [length_map, window_length hlo (by omega)]
      have hoffset : cached + 1 - es.dummy.index - (lo - es.dummy.index) = cached + 1 - lo := by
        omega
      simp only [IndexRange.toOffsetIndex, Bool.false_eq_true, if_false, hoffset, hsplit,
        map_append, take_left' hlen, drop_left' hlen]
      rw [hfront (cached + 1) (by omega) (by omega), ok_bind,
        readCache_window h (by omega) (by omega) (Nat.lt_succ_self _) (by omega), ok_bind]
      rfl

end Reading

theorem takeWithin_prefix (size : Entry → Nat) (maxSize total : Nat) (ents : List Entry) :
    takeWithin size maxSize total ents <+: ents := by
  induction ents generalizing total with
  | nil => exact List.nil_prefix
  | cons e ents ih =>
    unfold takeWithin
    split
    · exact List.nil_prefix
    · exact cons_prefix_cons.mpr ⟨rfl, ih _⟩

theorem limitSize_spec (size : Entry → Nat) (maxSize : Nat) {ents : List Entry} (hne : ents ≠ []) :
    limitSize size maxSize ents <+: ents ∧ limitSize size maxSize ents ≠ [] := by
  cases ents with
  | nil => exact absurd rfl hne
  | cons e ents =>
    exact ⟨cons_prefix_cons.mpr ⟨rfl, takeWithin_prefix size maxSize _ ents⟩,
      cons_ne_nil _ _⟩

end EntryStorage

/-- What the log and the raft node do with the entry storage. `index` is what the log knows about
the entries it has written, or about those its replay has read back. -/
inductive StorageOp (T : Type)
  | save (st : HardState) (entries : List Entry) (index : List (EntryIndex T))
  | applySnapshot (snap : Snapshot)
  | compact (compactIndex : Nat)
  | restart (snapshot : Option Snapshot) (st : HardState) (index : List (EntryIndex T))

/-- The storage with the current commit and all entries saved so far, the oldest first. -/
structure StorageRun (T : Type) where
  storage : EntryStorage T
  commit : Nat
  saved : List Entry

def lastSaved (saved : List Entry) (i : Nat) : Option Entry :=
  saved.reverse.find? fun e => e.index = i

namespace StorageRun

def initial [Inhabited T] : StorageRun T := ⟨.newEntryStorage, 0, []⟩

/-- A call that fails leaves the storage as it is. -/
def step [Inhabited T] (s : StorageRun T) : StorageOp T → StorageRun T
  | .save st entries index =>
    match s.storage.save st entries index with
    | .error _ => s
    | .ok es => ⟨es, if isEmptyHardState st then s.commit else st.commit, s.saved ++ entries⟩
  | .applySnapshot snap =>
    match s.storage.applySnapshot snap with
    | .error _ => s
    | .ok es => { s with storage := es, commit := max s.commit snap.metadata.index }
  | .compact compactIndex =>
    match s.storage.compact compactIndex with
    | .error _ => s
    | .ok es => { s with storage := es }
  | .restart snapshot st index =>
    match ((EntryStorage.ofSnapshot snapshot).setHardState st).appendEntryIndex index with
    | .error _ => s
    | .ok es => { s with
        storage := es
        commit := max s.commit ((snapshot.map (·.metadata.index)).getD 0) }

end StorageRun

/-- A batch is consecutive, starts above the commit and at most behind the log, and the commit
never falls; only committed entries are compacted. A replay reads back the log above its snapshot,
with the most recent save of each index. -/
def StorageOp.Valid (dataOf : EntryIndex T → Bytes) (s : StorageRun T) : StorageOp T → Prop
  | .save st entries index =>
    index.map (·.entry dataOf) = entries ∧ (isEmptyHardState st ∨ s.commit ≤ st.commit) ∧
      ∀ e ∈ entries.head?, Consecutive Entry.index e.index entries ∧ s.commit < e.index ∧
        e.index ≤ s.storage.lastIndex + 1
  | .applySnapshot _ => True
  | .compact compactIndex => compactIndex ≤ s.commit
  | .restart snapshot _ index =>
    Consecutive EntryIndex.index ((snapshot.map (·.metadata.index)).getD 0 + 1) index ∧
      (snapshot.map (·.metadata.index)).getD 0 + index.length = s.storage.lastIndex ∧
      ∀ x ∈ index, lastSaved s.saved x.index = some (x.entry dataOf)

instance (dataOf : EntryIndex T → Bytes) (s : StorageRun T) (op : StorageOp T) :
    Decidable (op.Valid dataOf s) := by
  cases op <;> unfold StorageOp.Valid <;> infer_instance

/-- A batch does not start below the first cached entry, or it also ends below it. -/
def StorageOp.MeetsCache (s : StorageRun T) : StorageOp T → Prop
  | .save _ entries _ => ∀ e ∈ entries.head?,
      s.storage.cache.indexRange.empty = true ∨ s.storage.cache.indexRange.first ≤ e.index ∨
        e.index + entries.length ≤ s.storage.cache.indexRange.first
  | _ => True

instance (s : StorageRun T) (op : StorageOp T) : Decidable (op.MeetsCache s) := by
  cases op <;> unfold StorageOp.MeetsCache <;> infer_instance

theorem lastSaved_append (older newer : List Entry) (i : Nat) :
    lastSaved (older ++ newer) i = (lastSaved newer i).or (lastSaved older i) := by
  rw [lastSaved, reverse_append, find?_append]
  rfl

variable {e : Entry}

theorem lastSaved_of_mem (h : Consecutive Entry.index first entries) (he : e ∈ entries) :
    lastSaved entries e.index = some e := by
  obtain ⟨x, hx⟩ : ∃ x, lastSaved entries e.index = some x := by
    apply Option.isSome_iff_exists.mp
    rw [lastSaved, find?_isSome]
    exact ⟨e, mem_reverse.mpr he, decide_eq_true rfl⟩
  have hindex : x.index = e.index := by simpa using find?_some hx
  have hmem := mem_reverse.mp (mem_of_find?_eq_some hx)
  rw [hx, h.eq_of_mem hmem he hindex]

theorem lastSaved_eq_none (h : Consecutive Entry.index first entries) (hi : i < first) :
    lastSaved entries i = none := by
  rw [lastSaved, find?_eq_none]
  intro x hx
  have := h.le_index (mem_reverse.mp hx)
  simp only [decide_eq_true_eq]
  omega

theorem lastSaved_truncAppend {base : Nat} {live saved : List Entry}
    (hlive : Consecutive Entry.index (base + 1) live)
    (hlatest : ∀ e ∈ live, lastSaved saved e.index = some e)
    (hentries : Consecutive Entry.index first entries) (hlo : base < first)
    (he : e ∈ truncAppend Entry.index base live entries) :
    lastSaved (saved ++ entries) e.index = some e := by
  rw [lastSaved_append]
  by_cases hne : entries = []
  · subst hne
    exact hlatest e he
  rw [truncAppend_of_consecutive hne hentries, List.mem_append] at he
  rcases he with hold | hnew
  · have hlt := (hlive.take _).index_lt hold
    have hlen := length_take_le (first - base - 1) live
    rw [lastSaved_eq_none hentries (by omega), Option.none_or]
    exact hlatest e (mem_of_mem_take hold)
  · rw [lastSaved_of_mem hentries hnew, Option.some_or]

/-! ## What the steps keep -/

/-- The invariant: the live log and the cache share their entries, and the live entries are the most
recent saves of their indices. -/
structure Serves (dataOf : EntryIndex T → Bytes) (s : StorageRun T) : Prop where
  base_le_commit : s.storage.dummy.index ≤ s.commit
  latest : ∀ e ∈ s.storage.live dataOf, lastSaved s.saved e.index = some e
  shares : ∃ start cached all xs,
    Shares s.storage.dummy.index (s.storage.live dataOf) s.storage.cache start cached all xs

namespace Serves

variable {s : StorageRun T}

theorem initial [Inhabited T] : Serves dataOf (StorageRun.initial (T := T)) where
  base_le_commit := Nat.le_refl _
  latest := by
    intro e he
    exact absurd he not_mem_nil
  shares := ⟨_, _, _, _, Shares.of_empty consecutive_nil Cache.newCache_holds⟩

variable {st : HardState}

theorem setCommit (h : Serves dataOf s) (hcommit : isEmptyHardState st ∨ s.commit ≤ st.commit) :
    Serves dataOf { s with
      storage := if isEmptyHardState st then s.storage else s.storage.deleteCache st.commit
      commit := if isEmptyHardState st then s.commit else st.commit } := by
  by_cases hempty : isEmptyHardState st
  · simpa only [hempty, if_true] using h
  · obtain ⟨start, cached, all, xs, hshares⟩ := h.shares
    obtain ⟨cached', xs', hdelete⟩ := hshares.delete st.commit
    simp only [hempty]
    exact ⟨h.base_le_commit.trans (hcommit.resolve_left hempty), h.latest, start, cached', all,
      xs', hdelete⟩

variable {index : List (EntryIndex T)}

theorem append (h : Serves dataOf s) {rest : List Entry}
    (hindex : index.map (·.entry dataOf) = e :: rest)
    (hentries : Consecutive Entry.index e.index (e :: rest)) (hlo : s.commit < e.index)
    (hhi : e.index ≤ s.storage.lastIndex + 1)
    (hcache : s.storage.cache.indexRange.empty = true ∨
      s.storage.cache.indexRange.first ≤ e.index ∨
        e.index + (e :: rest).length ≤ s.storage.cache.indexRange.first) :
    ∃ es, s.storage.appendEntryIndex index = .ok es ∧
      Serves dataOf ⟨es.appendCache (e :: rest), s.commit, s.saved ++ e :: rest⟩ := by
  obtain ⟨start, cached, all, xs, hshares⟩ := h.shares
  have hbase := h.base_le_commit.trans_lt hlo
  have hconsecutive : Consecutive EntryIndex.index e.index index := by
    rwa [← hindex, consecutive_entry] at hentries
  have hlive : (truncAppend EntryIndex.index s.storage.dummy.index s.storage.ents index).map
      (·.entry dataOf) = truncAppend Entry.index s.storage.dummy.index (s.storage.live dataOf)
        (e :: rest) := by
    rw [← hindex, EntryStorage.live]
    apply truncAppend_map
    intro x
    rfl
  obtain ⟨cached', xs', happend⟩ := hshares.append (cons_ne_nil e rest) hentries hbase (by
    rwa [EntryStorage.live, length_map]) hcache
  refine ⟨_, EntryStorage.appendEntryIndex_eq hconsecutive hbase hhi, h.base_le_commit, ?_,
    start, cached', _, xs', hlive.symm ▸ happend⟩
  intro x hx
  exact lastSaved_truncAppend hshares.live_consecutive h.latest hentries hbase (hlive ▸ hx)

variable [Inhabited T]

theorem save (h : Serves dataOf s) (hvalid : (StorageOp.save st entries index).Valid dataOf s)
    (hmeets : (StorageOp.save st entries index).MeetsCache s) :
    Serves dataOf (s.step (.save st entries index)) := by
  obtain ⟨hindex, hcommit, hbatch⟩ := hvalid
  cases entries with
  | nil =>
    have hsave : s.storage.save st [] index =
        .ok (if isEmptyHardState st then s.storage else s.storage.deleteCache st.commit) := rfl
    simp only [StorageRun.step, hsave, append_nil]
    exact h.setCommit hcommit
  | cons e rest =>
    obtain ⟨hentries, hlo, hhi⟩ := hbatch e rfl
    obtain ⟨es, happend, hserves⟩ := h.append hindex hentries hlo hhi (hmeets e rfl)
    have hsave : s.storage.save st (e :: rest) index =
        .ok (if isEmptyHardState st then es.appendCache (e :: rest)
          else (es.appendCache (e :: rest)).deleteCache st.commit) := by
      rw [EntryStorage.save, if_neg (cons_ne_nil _ _), happend]
      rfl
    simp only [StorageRun.step, hsave]
    exact hserves.setCommit hcommit

theorem applySnapshot (h : Serves dataOf s) (snap : Snapshot) :
    Serves dataOf (s.step (.applySnapshot snap)) := by
  obtain ⟨start, cached, all, xs, hshares⟩ := h.shares
  unfold StorageRun.step EntryStorage.applySnapshot
  by_cases hold : snap.metadata.index ≤ s.storage.snapshot.metadata.index
  · simpa only [if_pos hold] using h
  · simp only [if_neg hold]
    refine ⟨Nat.le_max_right _ _, ?_, _, _, _, _, Shares.of_empty consecutive_nil
      (hshares.holds.clear hshares.cache_consecutive)⟩
    intro e he
    exact absurd he not_mem_nil

theorem compact (h : Serves dataOf s) {compactIndex : Nat} (hcommit : compactIndex ≤ s.commit) :
    Serves dataOf (s.step (.compact compactIndex)) := by
  obtain ⟨start, cached, all, xs, hshares⟩ := h.shares
  unfold StorageRun.step EntryStorage.compact
  by_cases hold : compactIndex ≤ s.storage.dummy.index
  · simpa only [if_pos hold] using h
  · simp only [if_neg hold]
    cases hget : s.storage.ents[compactIndex - s.storage.dummy.index - 1]? with
    | none => exact h
    | some x =>
      obtain ⟨hlt, hx⟩ := List.getElem?_eq_some_iff.mp hget
      have hindex : x.index = compactIndex := by
        have := (consecutive_entry.mp hshares.live_consecutive).getElem hlt
        rw [get_eq_getElem, hx] at this
        omega
      have hcompact := hshares.compact (i := compactIndex) (by omega) (by
        rw [EntryStorage.live, length_map]
        omega)
      refine ⟨by
        simpa only [EntryStorage.marker, hindex] using hcommit, ?_, start, cached, all, xs, ?_⟩
      · intro e he
        rw [EntryStorage.live, map_drop] at he
        exact h.latest e (mem_of_mem_drop he)
      · simpa only [EntryStorage.live, EntryStorage.marker, hindex, map_drop] using hcompact

theorem restart {snapshot : Option Snapshot}
    (hvalid : (StorageOp.restart snapshot st index).Valid dataOf s) :
    Serves dataOf (s.step (.restart snapshot st index)) := by
  obtain ⟨hconsecutive, -, hlatest⟩ := hvalid
  obtain ⟨hdummy, hents, -, hcache⟩ := EntryStorage.ofSnapshot_spec (T := T) snapshot
  rw [← hdummy] at hconsecutive
  have happend : ((EntryStorage.ofSnapshot (T := T) snapshot).setHardState st).appendEntryIndex
      index = _ :=
    EntryStorage.appendEntryIndex_eq hconsecutive (Nat.lt_succ_self _)
      (Nat.succ_le_succ (Nat.le_add_right _ _))
  have hlive : truncAppend EntryIndex.index (EntryStorage.ofSnapshot (T := T) snapshot).dummy.index
      (EntryStorage.ofSnapshot (T := T) snapshot).ents index = index := by
    rw [hents, truncAppend_nil]
  simp only [StorageRun.step, happend]
  simp only [EntryStorage.setHardState, hlive]
  refine ⟨hdummy ▸ Nat.le_max_right _ _, ?_, _, _, _, _,
    Shares.of_empty (consecutive_entry.mpr hconsecutive) hcache⟩
  intro e he
  obtain ⟨x, hx, rfl⟩ := mem_map.mp he
  exact hlatest x hx

theorem step (h : Serves dataOf s) {op : StorageOp T} (hvalid : op.Valid dataOf s)
    (hmeets : op.MeetsCache s) : Serves dataOf (s.step op) := by
  cases op with
  | save st entries index => exact h.save hvalid hmeets
  | applySnapshot snap => exact h.applySnapshot snap
  | compact compactIndex => exact h.compact hvalid
  | restart snapshot st index => exact restart hvalid

end Serves

/-! ## Reads after a run -/

/-- What `Entries` is for: `ents` are entries from `lo` on, before `hi`, each the most recent save
of its index. -/
structure LatestEntries (saved : List Entry) (lo hi : Nat) (ents : List Entry) : Prop where
  ne_nil : ents ≠ []
  length_le : lo + ents.length ≤ hi
  consecutive : Consecutive Entry.index lo ents
  latest : ∀ e ∈ ents, lastSaved saved e.index = some e

/-- In every run whose batches all meet the cache, a read in bounds succeeds and returns the most
recently saved entries. -/
theorem entries_latest [Inhabited T] (size : Entry → Nat) {reader : EntryDataReader T}
    {dataOf : EntryIndex T → Bytes}
    (hreader : ∀ xs, xs ≠ [] →
      reader xs (xs.map EntryStorage.blank) = .ok (xs.map (·.entry dataOf)))
    {ops : List (StorageOp T)}
    (hops : Along StorageRun.step (fun s op => op.Valid dataOf s ∧ op.MeetsCache s) .initial ops)
    {lo hi : Nat} (maxSize : Nat)
    (hlo : (ops.foldl StorageRun.step .initial).storage.firstIndex ≤ lo) (hlt : lo < hi)
    (hhi : hi ≤ (ops.foldl StorageRun.step .initial).storage.lastIndex + 1) :
    ∃ ents, (ops.foldl StorageRun.step .initial).storage.entries size reader lo hi maxSize =
        .ok ents ∧
      LatestEntries (ops.foldl StorageRun.step .initial).saved lo hi ents := by
  have hserves : Serves dataOf (ops.foldl StorageRun.step .initial) :=
    along_induction (fun h hop => h.step hop.1 hop.2) .initial hops
  revert hserves hlo hhi
  generalize ops.foldl StorageRun.step StorageRun.initial = s
  intro hlo hhi hserves
  obtain ⟨start, cached, all, xs, hshares⟩ := hserves.shares
  have hread := EntryStorage.readEntries_eq hshares (fun xs _ => hreader xs) hlo hlt hhi
  have hlen : (s.storage.window dataOf lo (hi - lo)).length = hi - lo :=
    EntryStorage.window_length hlo (by omega)
  have hne : s.storage.window dataOf lo (hi - lo) ≠ [] := by
    rw [← length_pos_iff, hlen]
    omega
  obtain ⟨hfront, hne'⟩ := EntryStorage.limitSize_spec size maxSize hne
  refine ⟨EntryStorage.limitSize size maxSize (s.storage.window dataOf lo (hi - lo)), ?_, hne', ?_,
    ?_, ?_⟩
  · rw [EntryStorage.entries, hread, ok_bind]
    rfl
  · have hle := hfront.length_le
    omega
  · rw [prefix_iff_eq_take.mp hfront]
    exact (EntryStorage.window_consecutive hshares hlo).take _
  · intro e he
    exact hserves.latest e (mem_of_mem_drop (mem_of_mem_take (hfront.subset he)))

/-- A log whose index entries carry the data themselves. Like the readers of the logs, it refuses
to read nothing. -/
def memoryReader : EntryDataReader Bytes :=
  fun xs _ => if xs = [] then .error .read else .ok (xs.map (·.entry EntryIndex.metadata))

def normalIndex (term index : Nat) (data : Bytes) : EntryIndex Bytes :=
  ⟨term, index, .normal, data⟩

def saveIndex (st : HardState) (index : List (EntryIndex Bytes)) : StorageOp Bytes :=
  .save st (index.map (·.entry EntryIndex.metadata)) index

/-- After the restart the cache holds entry 3 only, and the new leader's batch starts at 2. -/
def conflictAfterRestart : List (StorageOp Bytes) :=
  [saveIndex .empty [normalIndex 1 1 [10], normalIndex 1 2 [20]],
    .restart none .empty [normalIndex 1 1 [10], normalIndex 1 2 [20]],
    saveIndex .empty [normalIndex 1 3 [30]],
    saveIndex .empty [normalIndex 2 2 [21], normalIndex 2 3 [31]]]

theorem entries_stale_after_restart :
    Along StorageRun.step (StorageOp.Valid EntryIndex.metadata) .initial conflictAfterRestart ∧
      (conflictAfterRestart.foldl StorageRun.step .initial).storage.firstIndex = 1 ∧
      (conflictAfterRestart.foldl StorageRun.step .initial).storage.lastIndex = 3 ∧
      (conflictAfterRestart.foldl StorageRun.step .initial).storage.entries (fun _ => 1)
        memoryReader 2 4 10 = .ok [⟨2, 2, .normal, [21]⟩, ⟨2, 3, .normal, [30]⟩] ∧
      lastSaved (conflictAfterRestart.foldl StorageRun.step .initial).saved 3 =
        some ⟨2, 3, .normal, [31]⟩ := by
  refine ⟨by decide +kernel, by decide +kernel, by decide +kernel, by decide +kernel,
    by decide +kernel⟩

def conflictThenRestart : List (StorageOp Bytes) :=
  [saveIndex .empty [normalIndex 1 1 [10], normalIndex 1 2 [20], normalIndex 1 3 [30]],
    saveIndex ⟨2, 0, 1⟩ [normalIndex 2 2 [21], normalIndex 2 3 [31]],
    .restart (some ⟨[], ⟨.empty, 1, 1⟩⟩) ⟨2, 0, 1⟩ [normalIndex 2 2 [21], normalIndex 2 3 [31]],
    saveIndex ⟨2, 0, 3⟩ [normalIndex 2 4 [41]]]

theorem entries_latest_conflictThenRestart :
    ∃ ents, (conflictThenRestart.foldl StorageRun.step .initial).storage.entries (fun _ => 1)
        memoryReader 2 5 10 = .ok ents ∧
      LatestEntries (conflictThenRestart.foldl StorageRun.step .initial).saved 2 5 ents :=
  entries_latest (fun _ => 1) (fun _ hne => if_neg hne) (by decide +kernel) 10 (by decide +kernel)
    (by decide) (by decide +kernel)

end Babuza.Walbase
