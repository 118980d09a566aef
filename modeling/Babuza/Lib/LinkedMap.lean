import Babuza.Lib.Keyed

/-!
# A map into a linked list

The two containers of a cache that evicts what was not used for longest: a map from keys to elements
of a list, and the list. `Linked` says that they agree, and each operation keeps it.
-/

namespace Babuza.Lib

open List

variable {κ α : Type}

/-- An element of a linked list; `ptr` is its address. -/
structure Element (α : Type) where
  ptr : Nat
  value : α

/-- `fresh` is the address of the next element. -/
structure LinkedMap (κ α : Type) where
  map : AList fun _ : κ => Element α
  list : List (Element α)
  fresh : Nat

namespace LinkedMap

def empty (fresh : Nat) : LinkedMap κ α := ⟨∅, [], fresh⟩

def keys (key : α → κ) (m : LinkedMap κ α) : List κ := m.list.map fun e => key e.value

theorem length_keys (key : α → κ) (m : LinkedMap κ α) : (m.keys key).length = m.list.length :=
  length_map _

def moveToFront (m : LinkedMap κ α) (e : Element α) : LinkedMap κ α :=
  { m with list := m.list.filter (·.ptr = e.ptr) ++ m.list.filter (·.ptr ≠ e.ptr) }

theorem moveToFront_perm (m : LinkedMap κ α) (e : Element α) :
    (m.moveToFront e).list.Perm m.list := by
  simpa [moveToFront] using filter_append_perm (fun e' : Element α => e'.ptr = e.ptr) m.list

variable [DecidableEq κ]

/-- The element is taken from the list, and the key from the map. -/
def remove (m : LinkedMap κ α) (e : Element α) (k : κ) : LinkedMap κ α :=
  { m with list := m.list.filter (·.ptr ≠ e.ptr), map := m.map.erase k }

def pushFront (m : LinkedMap κ α) (k : κ) (a : α) : LinkedMap κ α :=
  ⟨m.map.insert k ⟨m.fresh, a⟩, ⟨m.fresh, a⟩ :: m.list, m.fresh + 1⟩

def pushBack (m : LinkedMap κ α) (k : κ) (a : α) : LinkedMap κ α :=
  ⟨m.map.insert k ⟨m.fresh, a⟩, m.list ++ [⟨m.fresh, a⟩], m.fresh + 1⟩

/-- If there are too many elements, the last one is removed. -/
def evict (key : α → κ) (capacity : Int) (m : LinkedMap κ α) : LinkedMap κ α :=
  if capacity < m.list.length then
    match m.list.getLast? with
    | none => m
    | some e => m.remove e (key e.value)
  else m

variable {key : α → κ} {m : LinkedMap κ α} {e e' : Element α} {a : α} {k : κ}

/-- The map leads from each key to the one element with this key. -/
structure Linked (key : α → κ) (m : LinkedMap κ α) : Prop where
  nodup : (m.list.map Element.ptr).Nodup
  lt_fresh : ∀ e ∈ m.list, e.ptr < m.fresh
  lookup : ∀ k e, m.map.lookup k = some e ↔ e ∈ m.list ∧ key e.value = k

theorem linked_empty (key : α → κ) (fresh : Nat) : (empty fresh).Linked key :=
  ⟨nodup_nil, forall_mem_nil _, by simp [empty]⟩

section

variable (h : m.Linked key)
include h

theorem Linked.ptr_eq_iff (he : e ∈ m.list) (he' : e' ∈ m.list) :
    e.ptr = e'.ptr ↔ key e.value = key e'.value := by
  constructor
  · intro hptr
    rw [inj_on_of_nodup_map h.nodup he he' hptr]
  · intro hkey
    have hfound := (h.lookup (key e.value) e).mpr ⟨he, rfl⟩
    rw [hkey, (h.lookup (key e'.value) e').mpr ⟨he', rfl⟩] at hfound
    rw [Option.some.inj hfound]

theorem Linked.keys_nodup : (m.keys key).Nodup := by
  refine Nodup.map_on (fun e he e' he' hkey => ?_) (Nodup.of_map _ h.nodup)
  exact inj_on_of_nodup_map h.nodup he he' ((h.ptr_eq_iff he he').mpr hkey)

theorem Linked.lookup_eq_none : m.map.lookup k = none ↔ k ∉ m.keys key := by
  rw [Option.eq_none_iff_forall_ne_some]
  simp only [ne_eq, h.lookup, keys, mem_map]
  grind

theorem Linked.perm {list : List (Element α)} (hperm : list.Perm m.list) :
    { m with list := list }.Linked key where
  nodup := (hperm.map _).nodup_iff.mpr h.nodup
  lt_fresh e he := h.lt_fresh e (hperm.mem_iff.mp he)
  lookup k e := by simpa only [hperm.mem_iff] using h.lookup k e

theorem Linked.pushFront (ha : key a ∉ m.keys key) : (m.pushFront (key a) a).Linked key where
  nodup := nodup_cons.mpr ⟨fun hmem => by
    obtain ⟨e, he, heq⟩ := mem_map.mp hmem
    exact Nat.ne_of_lt (h.lt_fresh e he) heq, h.nodup⟩
  lt_fresh := forall_mem_cons.mpr
    ⟨Nat.lt_succ_self _, fun e he => Nat.lt_succ_of_lt (h.lt_fresh e he)⟩
  lookup k e := by
    have hlookup := h.lookup k e
    have hnew := h.lookup_eq_none.mpr ha
    simp only [LinkedMap.pushFront, alist_lookup_insert, mem_cons]
    grind

theorem Linked.pushBack (ha : key a ∉ m.keys key) : (m.pushBack (key a) a).Linked key :=
  (h.pushFront ha).perm perm_append_comm

theorem Linked.keys_remove (he : e ∈ m.list) :
    (m.remove e (key e.value)).keys key = (m.keys key).erase (key e.value) := by
  have hsame : m.list.filter (fun e' => e'.ptr ≠ e.ptr) =
      m.list.filter fun e' => key e'.value != key e.value :=
    filter_congr fun e' he' => by
      rw [Bool.eq_iff_iff]
      simp [h.ptr_eq_iff he' he]
  rw [h.keys_nodup.erase_eq_filter, keys, keys, LinkedMap.remove, hsame, filter_map]
  rfl

theorem Linked.remove (he : e ∈ m.list) : (m.remove e (key e.value)).Linked key where
  nodup := h.nodup.sublist (filter_sublist.map _)
  lt_fresh e' he' := h.lt_fresh e' (mem_filter.mp he').1
  lookup k e' := by
    have hlookup := h.lookup k e'
    have hsame := fun e' he' => h.ptr_eq_iff (e := e') he' he
    simp only [LinkedMap.remove, alist_lookup_erase, mem_filter, decide_eq_true_eq]
    grind

theorem Linked.moveToFront (e : Element α) : (m.moveToFront e).Linked key :=
  h.perm (m.moveToFront_perm e)

theorem Linked.keys_moveToFront (he : e ∈ m.list) :
    (m.moveToFront e).keys key = key e.value :: (m.keys key).erase (key e.value) := by
  have hsame : m.list.filter (fun e' => e'.ptr = e.ptr) =
      m.list.filter fun e' => key e'.value = key e.value :=
    filter_congr fun e' he' => by simp [h.ptr_eq_iff he' he]
  have hone : (m.keys key).filter (· = key e.value) = [key e.value] := by
    rw [filter_eq, count_eq_one_of_mem h.keys_nodup (mem_map_of_mem he), replicate_one]
  rw [keys, filter_map] at hone
  rw [← h.keys_remove he, keys, LinkedMap.moveToFront, map_append, hsame]
  exact congrArg (· ++ _) hone

theorem Linked.foldl_pushBack {as : List α} (has : (m.keys key ++ as.map key).Nodup) :
    (as.foldl (fun m a => m.pushBack (key a) a) m).Linked key ∧
      (as.foldl (fun m a => m.pushBack (key a) a) m).keys key = m.keys key ++ as.map key := by
  induction as generalizing m with
  | nil => exact ⟨h, (append_nil _).symm⟩
  | cons a as ih =>
    have ha : key a ∉ m.keys key := fun hmem => (nodup_append.mp has).2.2 _ hmem _ mem_cons_self rfl
    have hkeys : (m.pushBack (key a) a).keys key = m.keys key ++ [key a] := by
      simp [keys, LinkedMap.pushBack]
    rw [map_cons, append_cons, ← hkeys] at has ⊢
    exact ih (h.pushBack ha) has

theorem Linked.evict (capacity : Int) : (m.evict key capacity).Linked key ∧
    (m.evict key capacity).keys key =
      if capacity < (m.keys key).length then (m.keys key).dropLast else m.keys key := by
  rw [LinkedMap.evict, length_keys]
  split
  · cases hlast : m.list.getLast? with
    | none => exact ⟨h, by rw [keys, getLast?_eq_none_iff.mp hlast]; rfl⟩
    | some e =>
      obtain ⟨front, hfront⟩ := getLast?_eq_some_iff.mp hlast
      have he : e ∈ m.list := hfront ▸ mem_concat_self
      have hkeys : m.keys key = front.map (fun e => key e.value) ++ [key e.value] := by
        simp [keys, hfront]
      have hnot := disjoint_of_nodup_append (hkeys ▸ h.keys_nodup)
      refine ⟨h.remove he, ?_⟩
      rw [h.keys_remove he, hkeys, dropLast_concat,
        erase_append_right _ fun hin => hnot hin (mem_singleton_self _), erase_cons_head,
          append_nil]
  · exact ⟨h, rfl⟩

end

theorem mem_list_evict {capacity : Int} (he : e ∈ (m.evict key capacity).list) : e ∈ m.list := by
  unfold evict at he
  split at he
  · split at he
    · exact he
    · exact (mem_filter.mp he).1
  · exact he

end LinkedMap

end Babuza.Lib
