import Mathlib.Data.List.AList
import Mathlib.Data.List.Nodup

/-!
# Lists with distinct keys

A `Keyed key` is a list no two elements of which have the same key. It serves as a map whose order
counts, such as a list in the order of last use. `find?` is characterised by membership
(`find?_eq_some_iff`); what the operations do to it follows from that.
-/

namespace Babuza.Lib

open List

/-- A list whose elements have distinct keys. -/
structure Keyed {α κ : Type} (key : α → κ) where
  toList : List α
  nodup : (toList.map key).Nodup

namespace Keyed

variable {α κ : Type} {key : α → κ}

variable {l m : Keyed key}

@[ext] theorem ext (h : l.toList = m.toList) : l = m := by
  obtain ⟨xs, hxs⟩ := l
  obtain ⟨ys, hys⟩ := m
  cases h
  rfl

instance [DecidableEq α] : DecidableEq (Keyed key) := fun l m =>
  decidable_of_iff (l.toList = m.toList) ⟨ext, congrArg toList⟩

def empty : Keyed key := ⟨[], nodup_nil⟩

variable {a : α}

theorem eq_of_mem {b : α} (ha : a ∈ l.toList) (hb : b ∈ l.toList) (h : key a = key b) : a = b :=
  inj_on_of_nodup_map l.nodup ha hb h

def filter (l : Keyed key) (p : α → Bool) : Keyed key :=
  ⟨l.toList.filter p, l.nodup.sublist (filter_sublist.map key)⟩

def dropLast (l : Keyed key) : Keyed key :=
  ⟨l.toList.dropLast, l.nodup.sublist ((dropLast_sublist _).map key)⟩

def map (l : Keyed key) (f : α → α) (hf : ∀ a, key (f a) = key a) : Keyed key :=
  ⟨l.toList.map f, by
    have : key ∘ f = key := funext hf
    rw [map_map, this]
    exact l.nodup⟩

section Map

variable (f : α → α) (hf : ∀ a, key (f a) = key a)

theorem map_filter (l : Keyed key) {p q : α → Bool} (hpq : ∀ a ∈ l.toList, q (f a) = p a) :
    (l.filter p).map f hf = (l.map f hf).filter q := by
  apply ext
  simp only [map, filter, filter_map]
  congr 1
  apply filter_congr
  intro a ha
  exact (hpq a ha).symm

theorem map_dropLast (l : Keyed key) : l.dropLast.map f hf = (l.map f hf).dropLast := by
  apply ext
  exact List.map_dropLast

end Map

variable [DecidableEq κ]

def find? (l : Keyed key) (k : κ) : Option α := l.toList.find? fun a => key a = k

variable {k : κ}

theorem find?_eq_some_iff : l.find? k = some a ↔ a ∈ l.toList ∧ key a = k := by
  constructor
  · intro h
    exact ⟨mem_of_find?_eq_some h, by simpa using find?_some h⟩
  · rintro ⟨hmem, hkey⟩
    cases h : l.find? k with
    | none => exact absurd (decide_eq_true hkey) (find?_eq_none.mp h a hmem)
    | some b =>
      have hb : b ∈ l.toList ∧ key b = k :=
        ⟨mem_of_find?_eq_some h, by simpa using find?_some h⟩
      rw [eq_of_mem hmem hb.1 (hkey.trans hb.2.symm)]

theorem find?_eq_none_iff : l.find? k = none ↔ k ∉ l.toList.map key := by
  rw [find?, find?_eq_none, mem_map]
  constructor
  · rintro h ⟨a, hmem, rfl⟩
    exact h a hmem (decide_eq_true rfl)
  · intro h a hmem hkey
    exact h ⟨a, hmem, of_decide_eq_true hkey⟩

theorem key_of_find? (h : l.find? k = some a) : key a = k :=
  (find?_eq_some_iff.mp h).2

theorem find?_congr (h : ∀ a, key a = k → (a ∈ l.toList ↔ a ∈ m.toList)) :
    l.find? k = m.find? k := by
  apply Option.ext
  intro a
  rw [find?_eq_some_iff, find?_eq_some_iff]
  constructor
  · rintro ⟨hmem, hkey⟩
    exact ⟨(h a hkey).mp hmem, hkey⟩
  · rintro ⟨hmem, hkey⟩
    exact ⟨(h a hkey).mpr hmem, hkey⟩

@[simp] theorem find?_empty (k : κ) : (empty : Keyed key).find? k = none := rfl

theorem find?_filter (l : Keyed key) (p : α → Bool) (k : κ) :
    (l.filter p).find? k = (l.find? k).filter p := by
  apply Option.ext
  intro a
  rw [find?_eq_some_iff, Option.filter_eq_some_iff, find?_eq_some_iff]
  simp only [filter, mem_filter]
  tauto

theorem find?_map (l : Keyed key) (f : α → α) (hf : ∀ a, key (f a) = key a) (k : κ) :
    (l.map f hf).find? k = (l.find? k).map f := by
  apply Option.ext
  intro a
  rw [find?_eq_some_iff, Option.map_eq_some_iff]
  simp only [map, mem_map, find?_eq_some_iff]
  constructor
  · rintro ⟨⟨b, hmem, rfl⟩, hkey⟩
    exact ⟨b, ⟨hmem, (hf b).symm.trans hkey⟩, rfl⟩
  · rintro ⟨b, ⟨hmem, hkey⟩, rfl⟩
    exact ⟨⟨b, hmem, rfl⟩, (hf b).trans hkey⟩

theorem find?_of_dropLast (h : l.dropLast.find? k = some a) : l.find? k = some a := by
  obtain ⟨hmem, hkey⟩ := find?_eq_some_iff.mp h
  exact find?_eq_some_iff.mpr ⟨(dropLast_sublist _).subset hmem, hkey⟩

/-! ## By key -/

def erase (l : Keyed key) (k : κ) : Keyed key := l.filter fun a => key a ≠ k

@[simp] theorem find?_erase_self (l : Keyed key) (k : κ) : (l.erase k).find? k = none := by
  rw [erase, find?_filter]
  cases h : l.find? k with
  | none => rfl
  | some a => simp [Option.filter, key_of_find? h]

theorem find?_erase_ne (l : Keyed key) {k' : κ} (hne : k' ≠ k) :
    (l.erase k).find? k' = l.find? k' := by
  rw [erase, find?_filter]
  cases h : l.find? k' with
  | none => rfl
  | some a => simp [Option.filter, key_of_find? h, hne]

theorem erase_eq_self (h : l.find? k = none) : l.erase k = l := by
  apply ext
  rw [find?_eq_none_iff] at h
  refine filter_eq_self.mpr fun a ha => decide_eq_true ?_
  rintro rfl
  exact h (mem_map_of_mem ha)

def modify (l : Keyed key) (k : κ) (f : α → α) (hf : ∀ a, key (f a) = key a) : Keyed key :=
  l.map (fun a => if key a = k then f a else a) (by
    intro a
    split
    · exact hf a
    · rfl)

theorem find?_modify_self (l : Keyed key) (k : κ) (f : α → α) (hf : ∀ a, key (f a) = key a) :
    (l.modify k f hf).find? k = (l.find? k).map f := by
  rw [modify, find?_map]
  cases h : l.find? k with
  | none => rfl
  | some a => simp [key_of_find? h]

theorem find?_modify_ne (l : Keyed key) {k' : κ} (f : α → α) (hf : ∀ a, key (f a) = key a)
    (hne : k' ≠ k) : (l.modify k f hf).find? k' = l.find? k' := by
  rw [modify, find?_map]
  cases h : l.find? k' with
  | none => rfl
  | some a => simp [key_of_find? h, hne]

/-- Put `a` in front, in place of an element with its key. -/
def pushFront (l : Keyed key) (a : α) : Keyed key where
  toList := a :: (l.erase (key a)).toList
  nodup := by
    rw [map_cons, nodup_cons]
    exact ⟨find?_eq_none_iff.mp (find?_erase_self l (key a)), (l.erase (key a)).nodup⟩

@[simp] theorem find?_pushFront_self (l : Keyed key) (a : α) :
    (l.pushFront a).find? (key a) = some a :=
  find?_eq_some_iff.mpr ⟨mem_cons_self, rfl⟩

theorem find?_pushFront_ne (l : Keyed key) (hne : k ≠ key a) :
    (l.pushFront a).find? k = l.find? k := by
  rw [← find?_erase_ne l hne]
  apply find?_congr
  rintro b rfl
  exact ⟨fun h => (mem_cons.mp h).resolve_left fun heq => hne (heq ▸ rfl),
    mem_cons_of_mem a⟩

theorem toList_foldl_pushFront {xs : List α} (h : (xs.map key ++ l.toList.map key).Nodup) :
    (xs.foldl pushFront l).toList = xs.reverse ++ l.toList := by
  induction xs generalizing l with
  | nil => rfl
  | cons a xs ih =>
    obtain ⟨hnew, hrest⟩ := nodup_cons.mp h
    have hfree : l.find? (key a) = none :=
      find?_eq_none_iff.mpr fun hmem => hnew (mem_append_right _ hmem)
    have hpush : (l.pushFront a).toList = a :: l.toList :=
      congrArg (fun l' : Keyed key => a :: l'.toList) (erase_eq_self hfree)
    rw [foldl_cons, ih, hpush, reverse_cons, append_assoc, singleton_append]
    rw [hpush, map_cons]
    exact (perm_middle.nodup_iff).mpr h

def moveToFront (l : Keyed key) (k : κ) : Keyed key :=
  match l.find? k with
  | none => l
  | some a => l.pushFront a

@[simp] theorem find?_moveToFront (l : Keyed key) (k k' : κ) :
    (l.moveToFront k).find? k' = l.find? k' := by
  unfold moveToFront
  cases h : l.find? k with
  | none => rfl
  | some a =>
    have hkey := key_of_find? h
    by_cases heq : k' = key a
    · rw [heq, find?_pushFront_self, hkey, h]
    · exact find?_pushFront_ne l heq

/-! ## A list of keys and a heap -/

/-- The list has the keys `order`, and its elements are the objects with these keys. -/
structure Represents (order : List κ) (objects : κ → α) (l : Keyed key) : Prop where
  toList : l.toList = order.map objects
  key : ∀ k ∈ order, key (objects k) = k

namespace Represents

variable {order : List κ} {objects : κ → α} (h : l.Represents order objects)
include h

omit [DecidableEq κ] in
theorem map_key : l.toList.map key = order := by
  rw [h.toList, map_map]
  exact (map_congr_left fun k hk => h.key k hk).trans (map_id order)

theorem find?_of_mem (hk : k ∈ order) : l.find? k = some (objects k) :=
  find?_eq_some_iff.mpr ⟨h.toList ▸ mem_map_of_mem hk, h.key k hk⟩

theorem find?_of_not_mem (hk : k ∉ order) : l.find? k = none :=
  find?_eq_none_iff.mpr (h.map_key ▸ hk)

theorem erase (k : κ) : (l.erase k).Represents (order.erase k) objects where
  toList := by
    have hnodup : order.Nodup := h.map_key ▸ l.nodup
    change l.toList.filter (fun a => key a ≠ k) = _
    rw [h.toList, filter_map, hnodup.erase_eq_filter]
    congr 1
    refine filter_congr fun a ha => ?_
    simp only [Function.comp_apply, h.key a ha]
    rw [Bool.eq_iff_iff, decide_eq_true_iff, bne_iff_ne]
  key := fun a ha => h.key a (mem_of_mem_erase ha)

theorem moveToFront (hk : k ∈ order) :
    (l.moveToFront k).Represents (k :: order.erase k) objects where
  toList := by
    rw [Keyed.moveToFront, h.find?_of_mem hk]
    change objects k :: (l.erase (key (objects k))).toList = _
    rw [h.key k hk, (h.erase k).toList, map_cons]
  key := forall_mem_cons.mpr ⟨h.key k hk, (h.erase k).key⟩

theorem update_of_not_mem (hk : k ∉ order) (a : α) :
    l.Represents order (Function.update objects k a) := by
  have hsame : ∀ k' ∈ order, Function.update objects k a k' = objects k' := by
    intro k' hk'
    apply Function.update_of_ne
    rintro rfl
    exact hk hk'
  refine ⟨h.toList.trans (map_congr_left fun k' hk' => (hsame k' hk').symm), fun k' hk' => ?_⟩
  rw [hsame k' hk']
  exact h.key k' hk'

theorem pushFront (hk : key a ∉ order) :
    (l.pushFront a).Represents (key a :: order) (Function.update objects (key a) a) := by
  have hupdate := h.update_of_not_mem hk a
  have htoList : (l.pushFront a).toList = a :: l.toList :=
    congrArg (fun l' : Keyed key => a :: l'.toList) (erase_eq_self (h.find?_of_not_mem hk))
  constructor
  · rw [htoList, hupdate.toList, map_cons, Function.update_self]
  · refine forall_mem_cons.mpr ⟨?_, hupdate.key⟩
    rw [Function.update_self]

omit [DecidableEq κ] in
theorem dropLast : l.dropLast.Represents order.dropLast objects where
  toList := (congrArg List.dropLast h.toList).trans List.map_dropLast.symm
  key := fun k hk => h.key k ((dropLast_sublist _).subset hk)

theorem modify (k : κ) (f : α → α) (hf : ∀ a, key (f a) = key a) :
    (l.modify k f hf).Represents order (Function.update objects k (f (objects k))) := by
  have hobject : ∀ k' ∈ order, Function.update objects k (f (objects k)) k' =
      if key (objects k') = k then f (objects k') else objects k' := by
    intro k' hk'
    rw [h.key k' hk']
    split
    · rename_i heq
      rw [heq, Function.update_self]
    · exact Function.update_of_ne ‹_› _ _
  constructor
  · change l.toList.map (fun a => if key a = k then f a else a) = _
    rw [h.toList, map_map]
    exact map_congr_left fun k' hk' => (hobject k' hk').symm
  · intro k' hk'
    rw [hobject k' hk']
    split
    · rw [hf, h.key k' hk']
    · exact h.key k' hk'

end Represents

section Map

variable (f : α → α) (hf : ∀ a, key (f a) = key a)

variable (l : Keyed key)

theorem map_erase (k : κ) : (l.erase k).map f hf = (l.map f hf).erase k := by
  apply map_filter
  intro a _
  rw [hf]

theorem map_pushFront (a : α) : (l.pushFront a).map f hf = (l.map f hf).pushFront (f a) := by
  apply ext
  have herase := congrArg toList (map_erase f hf l (key a))
  simp only [map, pushFront, map_cons, hf] at herase ⊢
  rw [herase]

theorem map_moveToFront (k : κ) : (l.moveToFront k).map f hf = (l.map f hf).moveToFront k := by
  unfold moveToFront
  rw [find?_map]
  cases l.find? k with
  | none => rfl
  | some a => exact map_pushFront f hf l a

theorem map_modify (k : κ) {g g' : α → α} (hg : ∀ a, key (g a) = key a)
    (hg' : ∀ a, key (g' a) = key a) (hcomm : ∀ a, f (g a) = g' (f a)) :
    (l.modify k g hg).map f hf = (l.map f hf).modify k g' hg' := by
  apply ext
  simp only [modify, map, map_map]
  apply map_congr_left
  intro a _
  simp only [Function.comp_apply, hf]
  split
  · exact hcomm a
  · rfl

end Map

end Keyed

section

variable {κ β : Type} [DecidableEq κ] (s : AList fun _ : κ => β) (k : κ)

@[grind =] theorem alist_lookup_insert (v : β) (k' : κ) :
    (s.insert k v).lookup k' = if k' = k then some v else s.lookup k' := by
  by_cases hk : k' = k
  · rw [hk, AList.lookup_insert, if_pos rfl]
  · rw [AList.lookup_insert_ne hk, if_neg hk]

@[grind =] theorem alist_lookup_erase (k' : κ) :
    (s.erase k).lookup k' = if k' = k then none else s.lookup k' := by
  by_cases hk : k' = k
  · rw [hk, AList.lookup_erase, if_pos rfl]
  · rw [AList.lookup_erase_ne hk, if_neg hk]

end

/-- The map without the keys that satisfy `p`, deleted one after the other. -/
def eraseWhere {κ β : Type} [DecidableEq κ] (p : κ → Bool) (m : AList fun _ : κ => β) :
    AList fun _ : κ => β :=
  (m.keys.filter p).foldl (fun m k => m.erase k) m

theorem lookup_foldl_erase {κ β : Type} [DecidableEq κ] (ks : List κ) (m : AList fun _ : κ => β)
    (k : κ) :
    (ks.foldl (fun m k => m.erase k) m).lookup k = if k ∈ ks then none else m.lookup k := by
  induction ks generalizing m with
  | nil => simp
  | cons k' ks ih =>
    rw [foldl_cons, ih]
    by_cases hmem : k ∈ ks
    · simp [hmem]
    · by_cases heq : k = k'
      · subst heq
        simp [hmem, AList.lookup_erase]
      · simp [hmem, heq, AList.lookup_erase_ne heq]

theorem lookup_eraseWhere {κ β : Type} [DecidableEq κ] (p : κ → Bool) (m : AList fun _ : κ => β)
    (k : κ) : (eraseWhere p m).lookup k = if p k then none else m.lookup k := by
  rw [eraseWhere, lookup_foldl_erase]
  by_cases hp : p k
  · by_cases hmem : k ∈ m.keys
    · simp [hp, hmem]
    · simp [hp, AList.lookup_eq_none.mpr hmem]
  · simp [hp]

end Babuza.Lib
