import Babuza.Lib.Bytes

/-!
# Checksums, varints and message codecs

* `crc32Update` extends a CRC-32C (polynomial `0x1EDC6F41`, reflected) over a byte string.
* `varint` and `readVarint` are the base-128 numbers of at most 64 bits, with the two ways in
  which reading one can fail.
* `MessageCodec` is a serialisation whose reader gives back every value its writer wrote. It is
  how a message type whose code is not at hand enters a development.
-/

namespace Babuza.Lib

open List

def crcPolynomial : UInt32 := 0x82f63b78

/-- `n` steps of the bitwise division, the lowest bit first. -/
def crcShift : Nat → UInt32 → UInt32
  | 0, crc => crc
  | n + 1, crc =>
    crcShift n (if crc &&& 1 = 1 then (crc >>> 1) ^^^ crcPolynomial else crc >>> 1)

def crcByte (crc : UInt32) (b : UInt8) : UInt32 := crcShift 8 (crc ^^^ b.toUInt32)

/-- The checksum `crc` extended by the bytes of `data`. -/
def crc32Update (crc : UInt32) (data : Bytes) : UInt32 := ~~~ data.foldl crcByte (~~~ crc)

@[simp] theorem crc32Update_nil (crc : UInt32) : crc32Update crc [] = crc := by
  simp [crc32Update]

example : crc32Update 0 [0x31, 0x32, 0x33, 0x34, 0x35, 0x36, 0x37, 0x38, 0x39] = 0xe3069283 := by
  decide +kernel

/-! ## Varints -/

inductive VarintError
  | intOverflow
  | unexpectedEOF
  deriving DecidableEq

/-- The base-128 bytes of `v`, the last group after at most `groups` continued ones. -/
def varintGroups : (groups : Nat) → (v : Nat) → Bytes
  | 0, v => [UInt8.ofNat v]
  | groups + 1, v =>
    if 128 ≤ v then UInt8.ofNat (v % 128 + 128) :: varintGroups groups (v / 128)
    else [UInt8.ofNat v]

def varint (v : Nat) : Bytes := varintGroups 9 v

/-- Read a number of 64 bits, the groups below `shift` being `acc`. -/
def readVarint (shift acc : Nat) : Bytes → Except VarintError (Nat × Bytes)
  | [] => .error (if 64 ≤ shift then .intOverflow else .unexpectedEOF)
  | b :: rest =>
    if 64 ≤ shift then .error .intOverflow
    else
      let acc := (acc ||| (b.toNat &&& 0x7f) <<< shift) % 2 ^ 64
      if b.toNat < 128 then .ok (acc, rest) else readVarint (shift + 7) acc rest

theorem varintGroups_ne_nil (groups v : Nat) : varintGroups groups v ≠ [] := by
  cases groups with
  | zero => simp [varintGroups]
  | succ groups => rw [varintGroups]; split <;> simp

theorem varintGroups_length (groups v : Nat) : (varintGroups groups v).length ≤ groups + 1 := by
  induction groups generalizing v with
  | zero => simp [varintGroups]
  | succ groups ih =>
    rw [varintGroups]
    split
    · have := ih (v / 128)
      simp only [length_cons]
      omega
    · simp

theorem varint_or {acc low shift : Nat} (hacc : acc < 2 ^ shift) :
    acc ||| low <<< shift = acc + low * 2 ^ shift := by
  rw [Nat.or_comm, ← Nat.shiftLeft_add_eq_or_of_lt hacc, Nat.shiftLeft_eq, Nat.add_comm]

theorem readVarint_varintGroups (groups : Nat) :
    ∀ (v shift acc : Nat) (rest : Bytes), v < 128 ^ (groups + 1) → shift + 7 * groups ≤ 63 →
      acc < 2 ^ shift → acc + v * 2 ^ shift < 2 ^ 64 →
      readVarint shift acc (varintGroups groups v ++ rest) = .ok (acc + v * 2 ^ shift, rest) := by
  induction groups with
  | zero =>
    intro v shift acc rest hv hshift hacc hfits
    have hv' : v < 128 := by simpa using hv
    have hb : (UInt8.ofNat v).toNat = v := by rw [UInt8.toNat_ofNat']; omega
    have hmask : v &&& 0x7f = v := by
      rw [show (0x7f : Nat) = 2 ^ 7 - 1 from rfl, Nat.and_two_pow_sub_one_eq_mod]
      omega
    have hlow : ¬ 64 ≤ shift := by omega
    simp only [varintGroups, singleton_append, readVarint, hlow, if_false, hb, hv', if_true,
      hmask, varint_or hacc, Nat.mod_eq_of_lt hfits]
  | succ groups ih =>
    intro v shift acc rest hv hshift hacc hfits
    have hlow : ¬ 64 ≤ shift := by omega
    rw [varintGroups]
    split
    · have hb : (UInt8.ofNat (v % 128 + 128)).toNat = v % 128 + 128 := by
        rw [UInt8.toNat_ofNat']
        omega
      have hmask : (v % 128 + 128) &&& 0x7f = v % 128 := by
        rw [show (0x7f : Nat) = 2 ^ 7 - 1 from rfl, Nat.and_two_pow_sub_one_eq_mod]
        omega
      have hpow : 2 ^ (shift + 7) = 128 * 2 ^ shift := by rw [Nat.pow_add, Nat.mul_comm]
      have hsplit : v * 2 ^ shift = v % 128 * 2 ^ shift + v / 128 * 2 ^ (shift + 7) := by
        conv_lhs => rw [← Nat.mod_add_div v 128]
        rw [hpow]
        ring
      have hlowpart : acc + v % 128 * 2 ^ shift < 2 ^ (shift + 7) := by
        have hmod : v % 128 ≤ 127 := by omega
        have := Nat.mul_le_mul_right (2 ^ shift) hmod
        omega
      have hlt : acc + v % 128 * 2 ^ shift < 2 ^ 64 := by omega
      have hnot : ¬ v % 128 + 128 < 128 := by omega
      simp only [cons_append, readVarint, hlow, if_false, hb, hmask, varint_or hacc,
        Nat.mod_eq_of_lt hlt, hnot]
      rw [ih _ _ _ rest (by rw [pow_succ] at hv; omega) (by omega) hlowpart (by omega), hsplit]
      congr 2
      omega
    · have hb : (UInt8.ofNat v).toNat = v := by rw [UInt8.toNat_ofNat']; omega
      have hmask : v &&& 0x7f = v := by
        rw [show (0x7f : Nat) = 2 ^ 7 - 1 from rfl, Nat.and_two_pow_sub_one_eq_mod]
        omega
      have hv' : v < 128 := by omega
      simp only [singleton_append, readVarint, hlow, if_false, hb, hv', if_true, hmask,
        varint_or hacc, Nat.mod_eq_of_lt hfits]

theorem readVarint_varint {v : Nat} (hv : v < 2 ^ 64) (rest : Bytes) :
    readVarint 0 0 (varint v ++ rest) = .ok (v, rest) := by
  have h := readVarint_varintGroups 9 v 0 0 rest (hv.trans (by decide)) (by decide) (by decide)
    (by simpa using hv)
  simpa [varint] using h

/-- A serialisation of `α` whose reader gives back every written value. -/
structure MessageCodec (α : Type) where
  marshal : α → Bytes
  unmarshal : Bytes → Option α
  unmarshal_marshal : ∀ a, unmarshal (marshal a) = some a

attribute [simp] MessageCodec.unmarshal_marshal

/-- Every number as that many ones, closed by a zero. -/
def unaries (ns : List Nat) : Bytes := ns.flatMap fun n => List.replicate n 1 ++ [0]

/-- The numbers in a byte string, of which `n` ones have been passed. -/
def readUnaries : (n : Nat) → Bytes → List Nat
  | _, [] => []
  | n, b :: bs => if b = 0 then n :: readUnaries 0 bs else readUnaries (n + 1) bs

theorem readUnaries_unary (m n : Nat) (rest : Bytes) :
    readUnaries m (List.replicate n 1 ++ 0 :: rest) = (m + n) :: readUnaries 0 rest := by
  induction n generalizing m with
  | zero => simp [readUnaries]
  | succ n ih =>
    rw [replicate_succ, cons_append, readUnaries, if_neg (by decide), ih]
    congr 1
    omega

theorem readUnaries_unaries (ns : List Nat) : readUnaries 0 (unaries ns) = ns := by
  induction ns with
  | nil => rfl
  | cons n ns ih =>
    rw [unaries, flatMap_cons, append_assoc, singleton_append, readUnaries_unary,
      Nat.zero_add, ← unaries, ih]

/-- The codec of a type whose values are given by lists of numbers. -/
def MessageCodec.ofNats {α : Type} (toNats : α → List Nat) (ofNats : List Nat → Option α)
    (h : ∀ a, ofNats (toNats a) = some a) : MessageCodec α where
  marshal a := unaries (toNats a)
  unmarshal bs := ofNats (readUnaries 0 bs)
  unmarshal_marshal a := by rw [readUnaries_unaries, h]

end Babuza.Lib
