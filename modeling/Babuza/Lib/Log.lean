import Mathlib.Data.List.DropRight
import Mathlib.Data.List.Nodup
import Mathlib.Data.List.Range

/-!
# Indexed logs

Lists whose elements carry consecutive indices, and the one way such a log is written to: a batch
cuts the log off at the batch's first index and is put behind what is left.

`base` is the index before the log's first element. `truncAppend` takes a whole batch at once; for
a consecutive batch it is the same as taking its elements one by one
(`foldl_truncAppend_singleton`).
-/

namespace Babuza.Lib

open List

variable {α : Type*} {index : α → Nat}

/-- The indices of `xs` are `first, first + 1, …`. -/
def Consecutive (index : α → Nat) (first : Nat) (xs : List α) : Prop :=
  xs.map index = List.range' first xs.length

/-- `batch` replaces the log from the index of its first element on. -/
def truncAppend (index : α → Nat) (base : Nat) (log : List α) : List α → List α
  | [] => log
  | e :: rest => log.take (index e - base - 1) ++ e :: rest

/-- The element replaces the one with its index; the others stay. -/
def storeAt (index : α → Nat) (log : List α) (e : α) : List α :=
  log.filter (fun x => index x < index e) ++ e :: log.filter (fun x => index e < index x)

instance (first : Nat) (xs : List α) : Decidable (Consecutive index first xs) :=
  inferInstanceAs (Decidable (_ = _))

/-! ## Consecutive indices -/

variable {base first i : Nat}

@[simp] theorem consecutive_nil : Consecutive index first [] := rfl

variable {x : α}

variable {log short xs : List α}

@[simp] theorem consecutive_cons :
    Consecutive index first (x :: xs) ↔ index x = first ∧ Consecutive index (first + 1) xs := by
  simp [Consecutive, List.range'_succ]

variable {ys : List α}

theorem consecutive_append :
    Consecutive index first (xs ++ ys) ↔
      Consecutive index first xs ∧ Consecutive index (first + xs.length) ys := by
  induction xs generalizing first with
  | nil => simp
  | cons x xs ih =>
    rw [cons_append, consecutive_cons, consecutive_cons, ih, length_cons, and_assoc,
      Nat.add_assoc, Nat.add_comm 1]

namespace Consecutive

section

variable (h : Consecutive index first xs)
include h

theorem take (n : Nat) : Consecutive index first (xs.take n) := by
  rw [← take_append_drop n xs, consecutive_append] at h
  exact h.1

theorem drop (n : Nat) : Consecutive index (first + n) (xs.drop n) := by
  rcases Nat.le_total n xs.length with hle | hge
  · rw [← take_append_drop n xs, consecutive_append] at h
    rw [length_take_of_le hle] at h
    exact h.2
  · rw [drop_eq_nil_of_le hge]
    exact consecutive_nil

theorem getElem (hi : i < xs.length) : index (xs.get ⟨i, hi⟩) = first + i := by
  have hmap : (xs.map index)[i]? = (List.range' first xs.length)[i]? := by rw [h]
  rw [getElem?_map, getElem?_eq_getElem hi, getElem?_range' hi] at hmap
  simpa using hmap

theorem getElem?_index (hx : x ∈ xs) : xs[index x - first]? = some x := by
  obtain ⟨i, hi, rfl⟩ := mem_iff_getElem.mp hx
  have hindex : index xs[i] = first + i := h.getElem hi
  rw [hindex, Nat.add_sub_cancel_left, getElem?_eq_getElem hi]

theorem getLast (hne : xs ≠ []) : index (xs.getLast hne) + 1 = first + xs.length := by
  have hpos := length_pos_iff.mpr hne
  have hlast := h.getElem (show xs.length - 1 < xs.length by omega)
  rw [getLast_eq_getElem]
  simp only [get_eq_getElem] at hlast
  omega

theorem eq_of_mem {y : α} (hx : x ∈ xs) (hy : y ∈ xs) (heq : index x = index y) : x = y := by
  have hnodup : (xs.map index).Nodup := h ▸ nodup_range'
  exact inj_on_of_nodup_map hnodup hx hy heq

theorem index_lt (hx : x ∈ xs) : index x < first + xs.length := by
  have hmem : index x ∈ xs.map index := mem_map_of_mem hx
  rw [h, mem_range'_1] at hmem
  exact hmem.2

theorem le_index (hx : x ∈ xs) : first ≤ index x := by
  have hmem : index x ∈ xs.map index := mem_map_of_mem hx
  rw [h, mem_range'_1] at hmem
  exact hmem.1

theorem exists_index (hlo : first ≤ i) (hhi : i < first + xs.length) : ∃ x ∈ xs, index x = i := by
  have hi : i - first < xs.length := by omega
  refine ⟨xs.get ⟨i - first, hi⟩, get_mem xs _, ?_⟩
  rw [h.getElem hi]
  omega

theorem of_infix (hys : ys <:+: xs) : ∃ n, Consecutive index n ys := by
  obtain ⟨front, back, rfl⟩ := hys
  rw [consecutive_append, consecutive_append] at h
  exact ⟨_, h.1.2⟩

theorem pairwise_lt : xs.Pairwise fun x y => index x < index y := by
  have hrange : (xs.map index).Pairwise (· < ·) := h ▸ pairwise_lt_range'
  exact pairwise_map.mp hrange

theorem dropWhile_le (toIndex : Nat) :
    xs.dropWhile (fun x => index x ≤ toIndex) = xs.drop (toIndex + 1 - first) := by
  induction xs generalizing first with
  | nil => simp
  | cons x xs ih =>
    obtain ⟨hx, hxs⟩ := consecutive_cons.mp h
    rw [dropWhile_cons]
    by_cases hle : first ≤ toIndex
    · rw [if_pos (by simpa [hx] using hle), ih hxs,
        show toIndex + 1 - first = (toIndex + 1 - (first + 1)) + 1 by omega, drop_succ_cons]
    · rw [if_neg (by simpa [hx] using hle), show toIndex + 1 - first = 0 by omega, drop_zero]

theorem rdropWhile_ge (toIndex : Nat) :
    xs.rdropWhile (fun x => toIndex ≤ index x) = xs.take (toIndex - first) := by
  induction xs using List.reverseRecOn generalizing toIndex with
  | nil => simp
  | append_singleton xs x ih =>
    obtain ⟨hxs, hx⟩ := consecutive_append.mp h
    have hindex : index x = first + xs.length := (consecutive_cons.mp hx).1
    by_cases hle : toIndex ≤ first + xs.length
    · rw [rdropWhile_concat_pos _ _ _ (by simpa [hindex] using hle), ih hxs,
        take_append_of_le_length (by omega)]
    · rw [rdropWhile_concat_neg _ _ _ (by simpa [hindex] using hle),
        take_of_length_le (by rw [length_append, length_singleton]; omega)]

end

end Consecutive

variable {batch : List α}

theorem truncAppend_of_consecutive (hne : batch ≠ []) (h : Consecutive index first batch) :
    truncAppend index base log batch = log.take (first - base - 1) ++ batch := by
  cases batch with
  | nil => exact absurd rfl hne
  | cons e rest =>
    rw [truncAppend, (consecutive_cons.mp h).1]

theorem truncAppend_nil (base : Nat) (batch : List α) :
    truncAppend index base [] batch = batch := by
  cases batch with
  | nil => rfl
  | cons e rest => rw [truncAppend, take_nil, nil_append]

theorem truncAppend_consecutive (hlog : Consecutive index (base + 1) log)
    (hbatch : Consecutive index first batch) (hbase : base < first)
    (hfirst : first ≤ base + log.length + 1) :
    Consecutive index (base + 1) (truncAppend index base log batch) := by
  by_cases hne : batch = []
  · rwa [hne]
  · rw [truncAppend_of_consecutive hne hbatch, consecutive_append, length_take]
    refine ⟨hlog.take _, ?_⟩
    rwa [show base + 1 + min (first - base - 1) log.length = first by omega]

theorem truncAppend_length (hne : batch ≠ []) (hbatch : Consecutive index first batch)
    (hbase : base < first) (hfirst : first ≤ base + log.length + 1) :
    base + (truncAppend index base log batch).length + 1 = first + batch.length := by
  rw [truncAppend_of_consecutive hne hbatch, length_append, length_take]
  omega

theorem truncAppend_map {β : Type*} {index' : β → Nat} {f : α → β}
    (hindex : ∀ x, index' (f x) = index x) (base : Nat) (log batch : List α) :
    (truncAppend index base log batch).map f =
      truncAppend index' base (log.map f) (batch.map f) := by
  cases batch with
  | nil => rfl
  | cons e rest =>
    rw [truncAppend, map_append, map_take, map_cons, truncAppend, hindex]

theorem truncAppend_drop {n : Nat} (hbatch : Consecutive index first batch) (hn : base + n < first)
    (hfirst : first ≤ base + log.length + 1) :
    (truncAppend index base log batch).drop n =
      truncAppend index (base + n) (log.drop n) batch := by
  by_cases hne : batch = []
  · rw [hne, truncAppend, truncAppend]
  · rw [truncAppend_of_consecutive hne hbatch, truncAppend_of_consecutive hne hbatch,
      drop_append_of_le_length (by rw [length_take]; omega), drop_take,
      show first - base - 1 - n = first - (base + n) - 1 by omega]

theorem foldl_truncAppend_singleton (hbatch : Consecutive index first batch) (hbase : base < first)
    (log : List α) (hfirst : first ≤ base + log.length + 1) :
    batch.foldl (fun log e => truncAppend index base log [e]) log =
      truncAppend index base log batch := by
  induction batch generalizing first log with
  | nil => rfl
  | cons e rest ih =>
    obtain ⟨he, hrest⟩ := consecutive_cons.mp hbatch
    have hlen : (log.take (first - base - 1)).length = first - base - 1 :=
      length_take_of_le (by omega)
    rw [foldl_cons, truncAppend, he, ih hrest (by omega) _ (by
      rw [length_append, hlen, length_singleton]
      omega)]
    by_cases hnil : rest = []
    · rw [hnil, truncAppend, truncAppend, he]
    · rw [truncAppend_of_consecutive hnil hrest, truncAppend, he,
        take_of_length_le (by
          rw [length_append, hlen, length_singleton]
          omega), append_assoc, singleton_append]

/-! ## Storing single elements -/

section StoreAt

variable {e : α}

theorem mem_storeAt : x ∈ storeAt index log e ↔ x = e ∨ x ∈ log ∧ index x ≠ index e := by
  simp only [storeAt, List.mem_append, mem_cons, mem_filter, decide_eq_true_eq]
  constructor
  · rintro (⟨hx, hlt⟩ | rfl | ⟨hx, hlt⟩)
    · exact .inr ⟨hx, by omega⟩
    · exact .inl rfl
    · exact .inr ⟨hx, by omega⟩
  · rintro (rfl | ⟨hx, hne⟩)
    · exact .inr (.inl rfl)
    · rcases Nat.lt_or_gt_of_ne hne with hlt | hgt
      · exact .inl ⟨hx, hlt⟩
      · exact .inr (.inr ⟨hx, hgt⟩)

theorem storeAt_pairwise (h : log.Pairwise fun x y => index x < index y) :
    (storeAt index log e).Pairwise fun x y => index x < index y := by
  rw [storeAt, pairwise_append, pairwise_cons]
  refine ⟨h.filter _, ⟨?_, h.filter _⟩, ?_⟩
  · intro y hy
    simpa using (mem_filter.mp hy).2
  · intro x hx y hy
    have hlt : index x < index e := by simpa using (mem_filter.mp hx).2
    rcases mem_cons.mp hy with rfl | hy
    · exact hlt
    · have hgt : index e < index y := by simpa using (mem_filter.mp hy).2
      omega

theorem Consecutive.filter_lt (h : Consecutive index first xs) (i : Nat) :
    xs.filter (fun x => index x < i) = xs.take (i - first) := by
  induction xs generalizing first with
  | nil => simp
  | cons x xs ih =>
    obtain ⟨hx, hxs⟩ := consecutive_cons.mp h
    rw [filter_cons]
    by_cases hlt : first < i
    · rw [if_pos (by simpa [hx] using hlt), ih hxs,
        show i - first = (i - (first + 1)) + 1 by omega, take_succ_cons]
    · rw [if_neg (by simpa [hx] using hlt), ih hxs, show i - (first + 1) = 0 by omega,
        show i - first = 0 by omega, take_zero, take_zero]

theorem Consecutive.filter_gt (h : Consecutive index first xs) (i : Nat) :
    xs.filter (fun x => i < index x) = xs.drop (i + 1 - first) := by
  induction xs generalizing first with
  | nil => simp
  | cons x xs ih =>
    obtain ⟨hx, hxs⟩ := consecutive_cons.mp h
    rw [filter_cons]
    by_cases hlt : i < first
    · rw [if_pos (by simpa [hx] using hlt), ih hxs, show i + 1 - (first + 1) = 0 by omega,
        show i + 1 - first = 0 by omega, drop_zero, drop_zero]
    · rw [if_neg (by simpa [hx] using hlt), ih hxs,
        show i + 1 - first = (i + 1 - (first + 1)) + 1 by omega, drop_succ_cons]

section

variable (hlog : Consecutive index (base + 1) log)
include hlog

theorem storeAt_of_consecutive :
    storeAt index log e = log.take (index e - base - 1) ++ e :: log.drop (index e - base) := by
  rw [storeAt, hlog.filter_lt, hlog.filter_gt, Nat.sub_sub, Nat.add_sub_add_right]

theorem storeAt_consecutive (hlo : base < index e) (hhi : index e ≤ base + log.length + 1) :
    Consecutive index (base + 1) (storeAt index log e) := by
  have hdrop := hlog.drop (index e - base)
  rw [storeAt_of_consecutive hlog, consecutive_append, consecutive_cons, length_take]
  refine ⟨hlog.take _, by omega, ?_⟩
  rwa [show base + 1 + min (index e - base - 1) log.length + 1 =
    base + 1 + (index e - base) by omega]

theorem truncAppend_prefix_storeAt (h : short <+: log) (hlo : base < index e)
    (hhi : index e ≤ base + short.length + 1) :
    truncAppend index base short [e] <+: storeAt index log e := by
  have htake : short.take (index e - base - 1) = log.take (index e - base - 1) := by
    rw [prefix_iff_eq_take.mp h, take_take]
    congr 1
    omega
  rw [truncAppend, storeAt_of_consecutive hlog, htake]
  exact (prefix_append_right_inj _).mpr (cons_prefix_cons.mpr ⟨rfl, List.nil_prefix⟩)

theorem foldl_storeAt (h : short <+: log) (hbatch : Consecutive index first batch)
    (hbase : base < first) (hfirst : first ≤ base + short.length + 1) :
    Consecutive index (base + 1) (batch.foldl (storeAt index) log) ∧
      truncAppend index base short batch <+: batch.foldl (storeAt index) log := by
  rw [← foldl_truncAppend_singleton hbatch hbase short hfirst]
  induction batch generalizing first short log with
  | nil => exact ⟨hlog, h⟩
  | cons e rest ih =>
    obtain ⟨he, hrest⟩ := consecutive_cons.mp hbatch
    have hle := h.length_le
    refine ih (storeAt_consecutive hlog (by omega) (by omega))
      (truncAppend_prefix_storeAt hlog h (by omega) (by omega)) hrest (by omega) ?_
    show first + 1 ≤ base + (short.take (index e - base - 1) ++ [e]).length + 1
    rw [length_append, length_take, length_singleton]
    omega

end

theorem mem_of_mem_foldl_storeAt (h : x ∈ batch.foldl (storeAt index) log) :
    x ∈ log ∨ x ∈ batch := by
  induction batch generalizing log with
  | nil => exact .inl h
  | cons e rest ih =>
    rcases ih h with hx | hx
    · rcases mem_storeAt.mp hx with rfl | ⟨hx, -⟩
      · exact .inr mem_cons_self
      · exact .inl hx
    · exact .inr (mem_cons_of_mem _ hx)

theorem exists_mem_foldl_storeAt (h : x ∈ log ∨ x ∈ batch) :
    ∃ y ∈ batch.foldl (storeAt index) log, index y = index x := by
  induction batch generalizing log x with
  | nil => exact ⟨x, h.resolve_right not_mem_nil, rfl⟩
  | cons e rest ih =>
    rcases h with hx | hx
    · by_cases heq : index x = index e
      · rw [heq]
        exact ih (.inl (mem_storeAt.mpr (.inl rfl)))
      · exact ih (.inl (mem_storeAt.mpr (.inr ⟨hx, heq⟩)))
    · rcases mem_cons.mp hx with rfl | hx
      · exact ih (.inl (mem_storeAt.mpr (.inl rfl)))
      · exact ih (.inr hx)

end StoreAt

end Babuza.Lib
