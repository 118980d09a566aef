import Babuza.Lib.Wire

/-!
# `pb.WalNextEntry`

The generated marshaller and unmarshaller of the message that carries the term and index of the
next entry of a log file (`pkg/wal/babuzawal/pb/wal.pb.go`), the skipping of unknown fields
included. `unmarshal_marshal` is the round trip for values of 64 bits.
-/

namespace Babuza.Babuzawal

open Lib List

structure WalNextEntry where
  nextTerm : Nat
  nextIndex : Nat
  deriving DecidableEq

inductive PbError
  | intOverflow
  | unexpectedEOF
  | invalidLength
  | endGroup
  | illegalTag (fieldNum wire : Nat)
  | wrongWireType (wireType : Nat)
  | illegalWireType (wireType : Nat)
  deriving DecidableEq

def PbError.ofVarint : VarintError → PbError
  | .intOverflow => .intOverflow
  | .unexpectedEOF => .unexpectedEOF

def getVarint (bs : Bytes) : Except PbError (Nat × Bytes) :=
  (readVarint 0 0 bs).mapError .ofVarint

namespace WalNextEntry

/-- `WalNextEntry.MarshalTo`: a proto3 message leaves out a field that is zero. -/
def marshal (m : WalNextEntry) : Bytes :=
  (if m.nextTerm ≠ 0 then 0x8 :: varint m.nextTerm else []) ++
    (if m.nextIndex ≠ 0 then 0x10 :: varint m.nextIndex else [])

end WalNextEntry

mutual

/-- `skipWal`: the number of bytes of the field at the start of `bs`. -/
def skipWal : (fuel : Nat) → (bs : Bytes) → Except PbError Nat
  | 0, _ => .error .unexpectedEOF
  | fuel + 1, bs => do
    let (wire, rest) ← getVarint bs
    let pos := bs.length - rest.length
    match wire &&& 7 with
    | 0 => do
      let (_, rest) ← getVarint rest
      return bs.length - rest.length
    | 1 => return pos + 8
    | 2 => do
      let (length, rest) ← getVarint rest
      let pos := bs.length - rest.length
      if 2 ^ 63 ≤ length ∨ 2 ^ 63 ≤ pos + length then throw .invalidLength
      return pos + length
    | 3 => skipWalGroup fuel bs pos
    | 4 => return pos
    | 5 => return pos + 4
    | wireType => throw (.illegalWireType wireType)

def skipWalGroup : (fuel : Nat) → (bs : Bytes) → (pos : Nat) → Except PbError Nat
  | 0, _, _ => .error .unexpectedEOF
  | fuel + 1, bs, pos => do
    let (innerWire, rest) ← getVarint (bs.drop pos)
    if innerWire &&& 7 = 4 then return bs.length - rest.length
    let next ← skipWal fuel (bs.drop pos)
    if 2 ^ 63 ≤ pos + next then throw .invalidLength
    skipWalGroup fuel bs (pos + next)

end

def unmarshalField (m : WalNextEntry) (bs : Bytes) : Except PbError (WalNextEntry × Bytes) := do
  let (wire, rest) ← getVarint bs
  let fieldNum := (wire >>> 3) % 2 ^ 32
  let wireType := wire &&& 7
  if wireType = 4 then throw .endGroup
  if fieldNum = 0 ∨ 2 ^ 31 ≤ fieldNum then throw (.illegalTag fieldNum wire)
  if fieldNum = 1 then
    if wireType ≠ 0 then throw (.wrongWireType wireType)
    let (v, rest) ← getVarint rest
    return ({ m with nextTerm := v }, rest)
  if fieldNum = 2 then
    if wireType ≠ 0 then throw (.wrongWireType wireType)
    let (v, rest) ← getVarint rest
    return ({ m with nextIndex := v }, rest)
  let skippy ← skipWal (bs.length + 1) bs
  if bs.length < skippy then throw .unexpectedEOF
  return (m, bs.drop skippy)

/-- The loop of `WalNextEntry.Unmarshal`; every field takes at least one byte. -/
def unmarshalLoop : (fuel : Nat) → (m : WalNextEntry) → (bs : Bytes) → Except PbError WalNextEntry
  | _, m, [] => .ok m
  | 0, _, _ :: _ => .error .unexpectedEOF
  | fuel + 1, m, b :: bs => do
    let (m, rest) ← unmarshalField m (b :: bs)
    unmarshalLoop fuel m rest

namespace WalNextEntry

def unmarshal (bs : Bytes) : Except PbError WalNextEntry := unmarshalLoop bs.length ⟨0, 0⟩ bs

def Fits (m : WalNextEntry) : Prop := m.nextTerm < 2 ^ 64 ∧ m.nextIndex < 2 ^ 64

instance (m : WalNextEntry) : Decidable m.Fits := inferInstanceAs (Decidable (_ ∧ _))

end WalNextEntry

theorem getVarint_varint {v : Nat} (hv : v < 2 ^ 64) (rest : Bytes) :
    getVarint (varint v ++ rest) = .ok (v, rest) := by
  rw [getVarint, readVarint_varint hv]
  rfl

theorem getVarint_tag (tag : UInt8) (ht : tag.toNat < 128) (rest : Bytes) :
    getVarint (tag :: rest) = .ok (tag.toNat, rest) := by
  have hmask : tag.toNat &&& 0x7f = tag.toNat := by
    rw [show (0x7f : Nat) = 2 ^ 7 - 1 from rfl, Nat.and_two_pow_sub_one_eq_mod]
    omega
  have hlt : tag.toNat < 2 ^ 64 := by omega
  simp only [getVarint, readVarint, ht, hmask, Nat.shiftLeft_zero, Nat.zero_or,
    Nat.mod_eq_of_lt hlt, if_true]
  rfl

variable {m : WalNextEntry}

theorem unmarshalField_term {v : Nat} (hv : v < 2 ^ 64) (rest : Bytes) :
    unmarshalField m (0x8 :: (varint v ++ rest)) = .ok ({ m with nextTerm := v }, rest) := by
  simp [unmarshalField, getVarint_tag 0x8 (by decide), getVarint_varint hv, bind,
    Except.bind, pure, Except.pure]

theorem unmarshalField_index {v : Nat} (hv : v < 2 ^ 64) (rest : Bytes) :
    unmarshalField m (0x10 :: (varint v ++ rest)) = .ok ({ m with nextIndex := v }, rest) := by
  simp [unmarshalField, getVarint_tag 0x10 (by decide), getVarint_varint hv, bind,
    Except.bind, pure, Except.pure]

theorem unmarshalLoop_field {fuel : Nat} {m' : WalNextEntry} {bs rest : Bytes} (hne : bs ≠ [])
    (h : unmarshalField m bs = .ok (m', rest)) :
    unmarshalLoop (fuel + 1) m bs = unmarshalLoop fuel m' rest := by
  obtain ⟨b, tail, rfl⟩ := exists_cons_of_ne_nil hne
  rw [unmarshalLoop, h]
  rfl

theorem unmarshalLoop_nil (fuel : Nat) (m : WalNextEntry) : unmarshalLoop fuel m [] = .ok m := by
  cases fuel <;> rfl

theorem WalNextEntry.unmarshal_marshal (h : m.Fits) : WalNextEntry.unmarshal m.marshal = .ok m := by
  obtain ⟨term, index⟩ := m
  obtain ⟨hterm, hindex⟩ := h
  have hvarint : ∀ v, 1 ≤ (varint v).length := fun v =>
    length_pos_iff.mpr (varintGroups_ne_nil 9 v)
  -- the two fields are present or absent independently of each other
  by_cases ht : term = 0 <;> by_cases hi : index = 0
  · subst ht hi
    rfl
  · subst ht
    have hlen : (0x10 :: varint index).length = (varint index).length - 1 + 1 + 1 := by
      have := hvarint index
      simp only [length_cons]
      omega
    have hfield := unmarshalField_index (m := ⟨0, 0⟩) hindex []
    rw [append_nil] at hfield
    simp only [unmarshal, marshal, ne_eq, not_true_eq_false, if_false, hi, not_false_eq_true,
      if_true, nil_append]
    rw [hlen, unmarshalLoop_field (by simp) hfield, unmarshalLoop_nil]
  · subst hi
    have hlen : (0x8 :: varint term).length = (varint term).length - 1 + 1 + 1 := by
      have := hvarint term
      simp only [length_cons]
      omega
    have hfield := unmarshalField_term (m := ⟨0, 0⟩) hterm []
    rw [append_nil] at hfield
    simp only [unmarshal, marshal, ne_eq, not_true_eq_false, if_false, ht, not_false_eq_true,
      if_true, append_nil]
    rw [hlen, unmarshalLoop_field (by simp) hfield, unmarshalLoop_nil]
  · have hlen : (0x8 :: (varint term ++ 0x10 :: varint index)).length =
        (varint term ++ varint index).length + 1 + 1 := by
      simp only [length_cons, length_append]
      omega
    have hfirst := unmarshalField_term (m := ⟨0, 0⟩) hterm (0x10 :: varint index)
    have hsecond := unmarshalField_index (m := ⟨term, 0⟩) hindex []
    rw [append_nil] at hsecond
    simp only [unmarshal, marshal, ne_eq, ht, hi, not_false_eq_true, if_true, cons_append]
    rw [hlen, unmarshalLoop_field (by simp) hfirst, unmarshalLoop_field (by simp) hsecond,
      unmarshalLoop_nil]

end Babuza.Babuzawal
