import Mathlib.Data.List.Basic
import Mathlib.Tactic.Ring

/-!
# Byte strings, fixed-width integers and files

Byte strings are lists of `UInt8`. The first part is the little- and big-endian encoding of
a natural number in a given number of bytes. The second part is the content of a file seen
as a byte string: `writeAt` is a positioned write (a gap before the position reads as zero,
what lies after the written bytes stays), `zeroExtend` is a preallocation and `readFull` is a
read of an exact number of bytes that tells an empty rest from a short one.
-/

namespace Babuza.Lib

open List

abbrev Bytes := List UInt8

/-- The `width` low bytes of `n`, the least significant first. -/
def leBytes : (width : Nat) → (n : Nat) → Bytes
  | 0, _ => []
  | width + 1, n => UInt8.ofNat n :: leBytes width (n / 256)

/-- The number whose bytes, the least significant first, are given. -/
def leNat : Bytes → Nat
  | [] => 0
  | b :: rest => leNat rest * 256 + b.toNat

/-- The `width` low bytes of `n`, the most significant first. -/
def beBytes (width n : Nat) : Bytes := (leBytes width n).reverse

/-- The number whose bytes, the most significant first, are given. -/
def beNat (bs : Bytes) : Nat := leNat bs.reverse

@[simp] theorem leBytes_length (width n : Nat) : (leBytes width n).length = width := by
  induction width generalizing n with
  | zero => rfl
  | succ width ih => simp [leBytes, ih]

@[simp] theorem beBytes_length (width n : Nat) : (beBytes width n).length = width := by
  simp [beBytes]

theorem leNat_leBytes {width n : Nat} (h : n < 256 ^ width) : leNat (leBytes width n) = n := by
  induction width generalizing n with
  | zero => simp at h; simp [leBytes, leNat, h]
  | succ width ih =>
    have hq : n / 256 < 256 ^ width := by
      rw [pow_succ] at h
      exact Nat.div_lt_of_lt_mul (by omega)
    rw [leBytes, leNat, ih hq, UInt8.toNat_ofNat']
    omega

theorem leNat_lt (bs : Bytes) : leNat bs < 256 ^ bs.length := by
  induction bs with
  | nil => simp [leNat]
  | cons b rest ih =>
    have hb : b.toNat < 256 := b.toNat_lt
    rw [leNat, length_cons, pow_succ]
    omega

theorem leNat_eq_zero_of_zeros (n : Nat) : leNat (List.replicate n 0) = 0 := by
  induction n with
  | zero => rfl
  | succ n ih => simp [replicate_succ, leNat, ih]

theorem leNat_append (as bs : Bytes) :
    leNat (as ++ bs) = leNat as + 256 ^ as.length * leNat bs := by
  induction as with
  | nil => simp [leNat]
  | cons a as ih =>
    rw [cons_append, leNat, leNat, ih, length_cons, pow_succ]
    ring

def zeros (n : Nat) : Bytes := List.replicate n 0

@[simp] theorem zeros_length (n : Nat) : (zeros n).length = n := by simp [zeros]

@[simp] theorem zeros_zero : zeros 0 = [] := rfl

@[simp] theorem zeros_drop (n k : Nat) : (zeros n).drop k = zeros (n - k) := by simp [zeros]

@[simp] theorem zeros_take (n k : Nat) : (zeros n).take k = zeros (min k n) := by simp [zeros]

/-- A write of `data` at position `pos` of a file. -/
def writeAt (file : Bytes) (pos : Nat) (data : Bytes) : Bytes :=
  file.take pos ++ zeros (pos - file.length) ++ data ++ file.drop (pos + data.length)

/-- A file grown to at least `size` bytes, the new ones zero. -/
def zeroExtend (file : Bytes) (size : Nat) : Bytes := file ++ zeros (size - file.length)

theorem writeAt_append (front tail data : Bytes) :
    writeAt (front ++ tail) front.length data = front ++ data ++ tail.drop data.length := by
  simp [writeAt, drop_append]

theorem writeAt_zero (file data : Bytes) : writeAt file 0 data = data ++ file.drop data.length :=
  writeAt_append [] file data

variable {file : Bytes} {pos : Nat}

section

variable (h : pos ≤ file.length)
include h

theorem writeAt_nil : writeAt file pos [] = file := by
  simp [writeAt, Nat.sub_eq_zero_of_le h]

theorem writeAt_writeAt (a b : Bytes) :
    writeAt (writeAt file pos a) (pos + a.length) b = writeAt file pos (a ++ b) := by
  obtain ⟨front, tail, rfl, rfl⟩ : ∃ front tail, file = front ++ tail ∧ pos = front.length :=
    ⟨file.take pos, file.drop pos, by simp, by simp [h]⟩
  have hfront : front ++ a ++ tail.drop a.length = (front ++ a) ++ tail.drop a.length := rfl
  have hlen : front.length + a.length = (front ++ a).length := by simp
  rw [writeAt_append, writeAt_append, hfront, hlen, writeAt_append]
  simp [drop_drop]

theorem writeAt_length (data : Bytes) :
    (writeAt file pos data).length = max file.length (pos + data.length) := by
  simp only [writeAt, length_append, length_take, zeros_length, length_drop]
  omega

theorem writeAt_take (data : Bytes) :
    (writeAt file pos data).take (pos + data.length) = file.take pos ++ data := by
  obtain ⟨front, tail, rfl, rfl⟩ : ∃ front tail, file = front ++ tail ∧ pos = front.length :=
    ⟨file.take pos, file.drop pos, by simp, by simp [h]⟩
  have hlen : front.length + data.length = (front ++ data).length := by simp
  rw [writeAt_append, hlen, take_left, take_left]

end

inductive ReadError
  | eof
  | unexpectedEOF
  deriving DecidableEq

/-- The first `n` bytes of a stream and the rest. Nothing left is `eof`, too little left is
`unexpectedEOF`. -/
def readFull (n : Nat) (stream : Bytes) : Except ReadError (Bytes × Bytes) :=
  if n ≤ stream.length then .ok (stream.take n, stream.drop n)
  else if stream = [] then .error .eof
  else .error .unexpectedEOF

theorem readFull_append (data rest : Bytes) :
    readFull data.length (data ++ rest) = .ok (data, rest) := by
  simp [readFull]

theorem readFull_of_le {n : Nat} {stream : Bytes} (h : n ≤ stream.length) :
    readFull n stream = .ok (stream.take n, stream.drop n) := by
  simp [readFull, h]

theorem readFull_eq_ok {n : Nat} {stream : Bytes} {out : Bytes × Bytes}
    (h : readFull n stream = .ok out) : n ≤ stream.length ∧
      out = (stream.take n, stream.drop n) := by
  unfold readFull at h
  split at h
  · rename_i hle
    cases h
    exact ⟨hle, rfl⟩
  · split at h <;> cases h

end Babuza.Lib
