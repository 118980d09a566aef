import Mathlib.Data.List.Rotate
import Mathlib.Data.List.DropRight
import Mathlib.Data.Nat.ModEq

/-!
# Ring buffers

A list read cyclically. `Window buf start blank xs` says that the ring `buf`, read from position
`start` on, holds `xs` and then only `blank` slots. The lemmas say what happens to the window when
an element is stored behind it, when its first or last element is blanked out, and when a full
ring is copied into a larger one.
-/

namespace Babuza.Lib

open List

variable {α : Type*}

structure Window (buf : List α) (start : Nat) (blank : α) (xs : List α) : Prop where
  start_lt : start < buf.length
  length_le : xs.length ≤ buf.length
  rotate_eq : buf.rotate start = xs ++ List.replicate (buf.length - xs.length) blank

theorem rotate_set {buf : List α} (start : Nat) {k : Nat} (hk : k < buf.length) (x : α) :
    (buf.set ((start + k) % buf.length) x).rotate start = (buf.rotate start).set k x := by
  apply ext_getElem
  · simp
  intro i h₁ h₂
  have hi : i < buf.length := by simpa using h₁
  have hslot : (start + k) % buf.length = (i + start) % buf.length ↔ k = i := by
    constructor
    · intro h
      have hmod : Nat.ModEq buf.length (start + k) (start + i) := by
        rwa [Nat.add_comm start i]
      have := Nat.ModEq.add_left_cancel' start hmod
      rwa [Nat.ModEq, Nat.mod_eq_of_lt hk, Nat.mod_eq_of_lt hi] at this
    · rintro rfl
      rw [Nat.add_comm]
  simp only [getElem_rotate, getElem_set, length_set, hslot]

namespace Window

variable {buf : List α} {start : Nat} {blank : α} {xs : List α}

section

variable (h : Window buf start blank xs)
include h

theorem getElem? {i : Nat} (hi : i < xs.length) : buf[(start + i) % buf.length]? = xs[i]? := by
  have hlt : i < buf.length := by have := h.length_le; omega
  rw [Nat.add_comm, ← getElem?_rotate hlt, h.rotate_eq, getElem?_append_left hi]

theorem getElem?_blank {i : Nat} (hi : xs.length ≤ i) (hlt : i < buf.length) :
    buf[(start + i) % buf.length]? = some blank := by
  rw [Nat.add_comm, ← getElem?_rotate hlt, h.rotate_eq, getElem?_append_right hi,
    getElem?_replicate, if_pos (by omega)]

theorem push (hroom : xs.length < buf.length) (x : α) :
    Window (buf.set ((start + xs.length) % buf.length) x) start blank (xs ++ [x]) where
  start_lt := by simpa using h.start_lt
  length_le := by
    rwa [length_append, length_set]
  rotate_eq := by
    obtain ⟨n, hn⟩ : ∃ n, buf.length - xs.length = n + 1 := ⟨buf.length - xs.length - 1, by omega⟩
    rw [rotate_set start hroom, h.rotate_eq, hn, set_append_right _ _ (Nat.le_refl _),
      Nat.sub_self, replicate_succ, set_cons_zero, length_set, length_append,
      append_assoc, singleton_append, length_singleton,
      show buf.length - (xs.length + 1) = n by omega]

end

theorem popBack {x : α} (h : Window buf start blank (xs ++ [x])) :
    Window (buf.set ((start + xs.length) % buf.length) blank) start blank xs where
  start_lt := by simpa using h.start_lt
  length_le := by
    have := h.length_le
    rw [length_append] at this
    rw [length_set]
    omega
  rotate_eq := by
    have hle := h.length_le
    rw [length_append, length_singleton] at hle
    rw [rotate_set start (by omega), h.rotate_eq, append_assoc,
      set_append_right _ _ (Nat.le_refl _), Nat.sub_self, singleton_append,
      set_cons_zero, length_set, ← replicate_succ, length_append,
      length_singleton, show buf.length - (xs.length + 1) + 1 = buf.length - xs.length by omega]

theorem popFront {x : α} (h : Window buf start blank (x :: xs)) :
    Window (buf.set start blank) ((start + 1) % buf.length) blank xs where
  start_lt := by
    rw [length_set]
    exact Nat.mod_lt _ (Nat.zero_lt_of_lt h.start_lt)
  length_le := by
    have := h.length_le
    rw [length_cons] at this
    rw [length_set]
    omega
  rotate_eq := by
    have hle := h.length_le
    rw [length_cons] at hle
    have hset := rotate_set start (k := 0) (Nat.zero_lt_of_lt h.start_lt) blank
    rw [Nat.add_zero, Nat.mod_eq_of_lt h.start_lt, h.rotate_eq, cons_append,
      set_cons_zero] at hset
    have hmod := rotate_mod (buf.set start blank) (start + 1)
    rw [length_set] at hmod
    rw [hmod, ← rotate_rotate, hset, rotate_cons_succ, rotate_zero,
      append_assoc, ← replicate_succ', length_set, length_cons,
      show buf.length - (xs.length + 1) + 1 = buf.length - xs.length by omega]

theorem grow (h : Window buf start blank xs) (hfull : xs.length = buf.length) (n : Nat) :
    Window (buf.drop start ++ buf.take start ++ List.replicate n blank) 0 blank xs := by
  have hrotate := h.rotate_eq
  rw [hfull, Nat.sub_self, replicate_zero, append_nil,
    rotate_eq_drop_append_take h.start_lt.le] at hrotate
  have hpos := h.start_lt
  refine ⟨?_, ?_, ?_⟩
  · simp only [length_append, length_drop, length_take, length_replicate]
    omega
  · rw [hrotate, length_append]
    omega
  · rw [rotate_zero, hrotate, length_append, length_replicate,
      Nat.add_sub_cancel_left]

theorem replicate {n : Nat} (h : 0 < n) : Window (List.replicate n blank) 0 blank [] where
  start_lt := by simpa using h
  length_le := Nat.zero_le _
  rotate_eq := by simp

end Window

end Babuza.Lib
