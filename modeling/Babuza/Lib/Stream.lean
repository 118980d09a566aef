import Babuza.Lib.Bytes
import Babuza.Lib.Run
import Mathlib.Data.List.Forall2

/-!
# Decoding a stream

A decoder takes the bytes of a stream and returns a value with the rest. `readUint64` reads a number
of eight bytes, `readMany` a given number of values one after another. If each part that a loop
writes decodes to a known outcome, whatever follows it, all of them do (`readMany_flatten`).
-/

namespace Babuza.Lib

open List

variable {α β ε : Type}

/-- A number of eight bytes, the least significant first. -/
def readUint64 (stream : Bytes) : Except ReadError (Nat × Bytes) :=
  (readFull 8 stream).map fun read => (leNat read.1, read.2)

theorem readUint64_leBytes {n : Nat} (h : n < 2 ^ 64) (rest : Bytes) :
    readUint64 (leBytes 8 n ++ rest) = .ok (n, rest) := by
  have hread : readFull 8 (leBytes 8 n ++ rest) = .ok (leBytes 8 n, rest) := by
    have happend := readFull_append (leBytes 8 n) rest
    rwa [leBytes_length] at happend
  have hnat : leNat (leBytes 8 n) = n := leNat_leBytes (by omega)
  simp only [readUint64, hread, Except.map, hnat]

/-- `count` values, one after another. -/
def readMany (decode : Bytes → Except ε (β × Bytes)) : Nat → Bytes → Except ε (List β × Bytes)
  | 0, stream => .ok ([], stream)
  | count + 1, stream => do
    let (b, stream) ← decode stream
    let (bs, stream) ← readMany decode count stream
    .ok (b :: bs, stream)

/-- The part decodes to the outcome, whatever follows it. -/
def Decodes (decode : Bytes → Except ε (β × Bytes)) (part : Bytes) (out : Except ε β) : Prop :=
  ∀ rest, decode (part ++ rest) = out.map fun b => (b, rest)

variable {xs : List α} {f : α → Except ε β}

theorem mapM_eq_ok_iff {ys : List β} :
    xs.mapM f = .ok ys ↔ List.Forall₂ (fun x y => f x = .ok y) xs ys := by
  constructor
  · intro h
    induction xs generalizing ys with
    | nil =>
      cases h
      exact .nil
    | cons x xs ih =>
      rw [mapM_cons] at h
      obtain ⟨y, hy, h⟩ := bind_eq_ok.mp h
      obtain ⟨ys', hys, h⟩ := bind_eq_ok.mp h
      cases h
      exact .cons hy (ih hys)
  · intro h
    induction h with
    | nil => rfl
    | cons hx _ ih =>
      rw [mapM_cons, hx, ok_bind, ih]
      rfl

theorem exists_mapM_eq_ok (h : ∀ x ∈ xs, ∃ y, f x = .ok y) : ∃ ys, xs.mapM f = .ok ys := by
  induction xs with
  | nil => exact ⟨[], rfl⟩
  | cons x xs ih =>
    obtain ⟨⟨y, hy⟩, hxs⟩ := forall_mem_cons.mp h
    obtain ⟨ys, hys⟩ := ih hxs
    exact ⟨y :: ys, mapM_eq_ok_iff.mpr (.cons hy (mapM_eq_ok_iff.mp hys))⟩

theorem readMany_flatten {write : α → Except ε Bytes} {decode : Bytes → Except ε (β × Bytes)}
    {out : α → Except ε β} {parts : List Bytes} (h : xs.mapM write = .ok parts)
    (hround : ∀ x ∈ xs, ∀ part, write x = .ok part → Decodes decode part (out x)) :
    Decodes (readMany decode xs.length) parts.flatten (xs.mapM out) := by
  intro rest
  have hparts := (List.forall₂_and_left _ _).mpr ⟨hround, mapM_eq_ok_iff.mp h⟩
  clear h hround
  induction hparts with
  | nil => rfl
  | @cons x part xs parts hx hxs ih =>
    have hpart := hx.1 part hx.2
    rw [flatten_cons, append_assoc, length_cons, readMany, hpart, mapM_cons]
    cases hout : out x with
    | error e => rfl
    | ok b =>
      change (readMany decode xs.length (parts.flatten ++ rest) >>= fun read =>
        Except.ok (b :: read.1, read.2)) = _
      rw [ih]
      cases xs.mapM out <;> rfl

end Babuza.Lib
