import Babuza.Walbase.Reads

/-!
# Runs of the cache

Each method of `walbase.Cache` does to the ring what a list operation does to the list it holds: a
batch replaces the list from its first index on, `Delete` drops the front. This needs batches that
leave no gap behind the list and do not start below it.
-/

namespace Babuza.Walbase

open Lib List

inductive CacheOp
  | append (entries : List Entry)
  | delete (toIndex : Nat)
  | clear
  | readEntriesData (ents : List Entry)

namespace CacheOp

def exec (c : Cache) : CacheOp → Cache
  | append entries => c.append entries
  | delete toIndex => c.delete toIndex
  | clear => c.clear
  | readEntriesData _ => c

def onList (xs : List CacheEntryData) : CacheOp → List CacheEntryData
  | append [] => xs
  | append (e :: rest) => xs.filter (fun x => x.index < e.index) ++ (e :: rest).map .ofEntry
  | delete toIndex => xs.filter (fun x => toIndex < x.index)
  | clear => []
  | readEntriesData _ => xs

/-- A batch is consecutive, and it starts inside the list or right behind it. -/
def Valid (xs : List CacheEntryData) : CacheOp → Prop
  | append (e :: rest) => Consecutive Entry.index e.index (e :: rest) ∧
      (∀ x ∈ xs.head?, x.index ≤ e.index) ∧ ∀ x ∈ xs.getLast?, e.index ≤ x.index + 1
  | _ => True

def appended : CacheOp → List Entry
  | append entries => entries
  | _ => []

end CacheOp

/-- The entry with the data that was last appended for its index. -/
def fillLatest (saved : List Entry) (e : Entry) : Entry :=
  { e with data := (lastSaved saved e.index).elim [] Entry.data }

variable {c : Cache} {first : Nat} {xs : List CacheEntryData} {saved : List Entry}

/-- The cache holds the list, and the list the data last appended for its indices. -/
structure Cache.Mirrors (c : Cache) (first : Nat) (xs : List CacheEntryData) (saved : List Entry) :
    Prop where
  holds : c.Holds xs
  consecutive : Consecutive CacheEntryData.index first xs
  latest : ∀ x ∈ xs, (lastSaved saved x.index).elim [] Entry.data = x.data

namespace Cache.Mirrors

variable (h : c.Mirrors first xs saved)
include h

theorem append {e : Entry} {rest : List Entry} (hvalid : (CacheOp.append (e :: rest)).Valid xs) :
    ∃ first', (c.append (e :: rest)).Mirrors first' ((CacheOp.append (e :: rest)).onList xs)
      (saved ++ e :: rest) := by
  obtain ⟨hbatch, hhead, hlast⟩ := hvalid
  have hmap := Cache.consecutive_ofEntry.mpr hbatch
  have hlatest : ∀ x ∈ (CacheOp.append (e :: rest)).onList xs,
      (lastSaved (saved ++ e :: rest) x.index).elim [] Entry.data = x.data := by
    intro x hx
    rw [lastSaved_append]
    obtain hold | hnew := mem_append.mp hx
    · obtain ⟨hmem, hlt⟩ := mem_filter.mp hold
      rw [lastSaved_eq_none hbatch (of_decide_eq_true hlt), Option.none_or]
      exact h.latest x hmem
    · obtain ⟨e', he', rfl⟩ := mem_map.mp hnew
      rw [show (CacheEntryData.ofEntry e').index = e'.index from rfl, lastSaved_of_mem hbatch he']
      rfl
  cases xs with
  | nil => exact ⟨_, h.holds.append_of_empty _, hmap, hlatest⟩
  | cons x xs =>
    have hfirst := (consecutive_cons.mp h.consecutive).1
    have hend := h.consecutive.getLast (cons_ne_nil x xs)
    have hlo := hhead x rfl
    have hhi := hlast _ (getLast?_eq_some_getLast (cons_ne_nil x xs))
    have hcut := h.consecutive.filter_lt e.index
    have hholds := h.holds.append_of_le (cons_ne_nil x xs) h.consecutive hbatch (by omega)
      (by omega) (cons_ne_nil e rest)
    rw [← hcut] at hholds
    refine ⟨first, hholds, ?_, hlatest⟩
    rw [CacheOp.onList, hcut, consecutive_append, length_take_of_le (by omega),
      show first + (e.index - first) = e.index by omega]
    exact ⟨h.consecutive.take _, hmap⟩

theorem step {op : CacheOp} (hvalid : op.Valid xs) :
    ∃ first', (op.exec c).Mirrors first' (op.onList xs) (saved ++ op.appended) := by
  cases op with
  | append entries =>
    cases entries with
    | nil => exact ⟨first, (append_nil saved).symm ▸ h⟩
    | cons e rest => exact h.append hvalid
  | delete toIndex =>
    have hholds := h.holds.delete toIndex
    have hfront := h.consecutive.drop (toIndex + 1 - first)
    rw [h.consecutive.dropWhile_le, ← h.consecutive.filter_gt] at hholds
    rw [← h.consecutive.filter_gt] at hfront
    refine ⟨_, hholds, hfront, fun x hx => ?_⟩
    rw [show (CacheOp.delete toIndex).appended = [] from rfl, append_nil]
    exact h.latest x (mem_filter.mp hx).1
  | clear => exact ⟨0, h.holds.clear h.consecutive, consecutive_nil, nofun⟩
  | readEntriesData ents => exact ⟨first, (append_nil saved).symm ▸ h⟩

section

variable {lo : Nat} {ents : List Entry} (hents : Consecutive Entry.index lo ents)
include hents

theorem zipWith_fill (hlo : first ≤ lo) (hhi : lo + ents.length ≤ first + xs.length) :
    zipWith Cache.fill ents (xs.drop (lo - first)) = ents.map (fillLatest saved) := by
  refine ext_getElem (by simp; omega) fun i hi hi' => ?_
  rw [length_map] at hi'
  have hlt : lo - first + i < xs.length := by omega
  have hx := h.consecutive.getElem hlt
  have he := hents.getElem hi'
  have hdata := h.latest _ (getElem_mem hlt)
  simp only [get_eq_getElem] at hx he
  rw [show xs[lo - first + i].index = ents[i].index by omega] at hdata
  rw [getElem_zipWith, getElem_drop, getElem_map, Cache.fill, fillLatest, hdata]

/-- A read hits exactly if its range is not empty and inside the list. -/
theorem readEntriesData :
    c.readEntriesData ents = .ok
      (if ents ≠ [] ∧ first ≤ lo ∧ lo + ents.length ≤ first + xs.length then
        some (ents.map (fillLatest saved)) else none) := by
  split
  · rename_i hin
    rw [h.holds.readEntriesData_eq h.consecutive hin.1 hents hin.2.1 hin.2.2,
      h.zipWith_fill hents hin.2.1 hin.2.2]
  · rename_i hout
    cases ents with
    | nil => rfl
    | cons e rest =>
      by_cases hxs : xs = []
      · rw [Cache.readEntriesData, if_pos (h.holds.length_eq_zero_iff.mpr hxs)]
      · have hlast := hents.getLast (cons_ne_nil e rest)
        have hend := h.consecutive.getLast hxs
        simp only [ne_eq, reduceCtorEq, not_false_eq_true, true_and] at hout
        rw [Cache.readEntriesData, if_neg (mt h.holds.length_eq_zero_iff.mp hxs),
          h.holds.first_index hxs h.consecutive, h.holds.slot_last hxs,
          (consecutive_cons.mp hents).1, if_pos (by omega)]

end

theorem run {ops : List CacheOp} (hops : Along CacheOp.onList CacheOp.Valid xs ops) :
    ∃ first', (ops.foldl CacheOp.exec c).Mirrors first' (ops.foldl CacheOp.onList xs)
      (saved ++ ops.flatMap CacheOp.appended) := by
  induction ops generalizing c first xs saved with
  | nil => exact ⟨first, (append_nil saved).symm ▸ h⟩
  | cons op ops ih =>
    obtain ⟨_, hstep⟩ := h.step hops.1
    rw [flatMap_cons, ← append_assoc]
    exact ih hstep hops.2

end Cache.Mirrors

/-- After any operations the cache is the list the same operations make; a read hits exactly inside
the list and gives the data last appended. -/
theorem cache_refines_list {ops : List CacheOp} (h : Along CacheOp.onList CacheOp.Valid [] ops) :
    ∃ c xs first, c = ops.foldl CacheOp.exec .newCache ∧ xs = ops.foldl CacheOp.onList [] ∧
      c.Holds xs ∧ Consecutive CacheEntryData.index first xs ∧
      ∀ lo ents, Consecutive Entry.index lo ents → c.readEntriesData ents = .ok
        (if ents ≠ [] ∧ first ≤ lo ∧ lo + ents.length ≤ first + xs.length then
          some (ents.map (fillLatest (ops.flatMap CacheOp.appended))) else none) := by
  have hnew : Cache.newCache.Mirrors 0 [] [] := ⟨Cache.newCache_holds, consecutive_nil, nofun⟩
  obtain ⟨first, hrun⟩ := hnew.run h
  exact ⟨_, _, first, rfl, rfl, hrun.holds, hrun.consecutive, fun _ _ => hrun.readEntriesData⟩

theorem cache_refines_overwrite : ∃ c first,
    c = [CacheOp.append [⟨1, 5, .normal, [1]⟩, ⟨1, 6, .normal, [2]⟩],
      .append [⟨2, 6, .normal, [3]⟩], .delete 5].foldl CacheOp.exec .newCache ∧
    c.Holds [⟨6, [3]⟩] ∧ Consecutive CacheEntryData.index first [⟨6, [3]⟩] := by
  have hvalid : Along CacheOp.onList CacheOp.Valid [] [.append [⟨1, 5, .normal, [1]⟩,
      ⟨1, 6, .normal, [2]⟩], .append [⟨2, 6, .normal, [3]⟩], .delete 5] := by
    simp [Along, CacheOp.Valid, CacheOp.onList, CacheEntryData.ofEntry]
  obtain ⟨c, _, first, hc, rfl, hholds, hfirst, -⟩ := cache_refines_list hvalid
  exact ⟨c, first, hc, hholds, hfirst⟩

end Babuza.Walbase
