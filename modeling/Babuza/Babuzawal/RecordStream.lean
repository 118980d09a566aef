import Babuza.Babuzawal.Codec
import Babuza.Lib.Drain

/-!
# Streams of records

What `Encode` writes for a list of records and `Decode` reads back from it, with the preallocated
space of a file behind. The decoder takes a header without size, padding and checksum for that
space, so a record with an empty body ends the stream when its checksum is zero, whatever its type
is. Space that is too short for a header ends it with an error.
-/

namespace Babuza.Babuzawal

open Lib Allocator List

structure HandlerCall where
  logType : Nat
  logBuf : Bytes
  logSizeWithPadding : Nat
  logCrc : UInt32
  deriving DecidableEq

/-- The records with their types, encoded one after the other from the running checksum `crc` on. -/
def encodeStream (pool : ByteSlicePool) : (crc : UInt32) → List (Nat × EncodeLog) →
    Except WalError (Bytes × UInt32)
  | crc, [] => .ok ([], crc)
  | crc, r :: records => do
    let (bytes, crc) ← encode pool crc r.1 r.2
    let (rest, crc) ← encodeStream pool crc records
    return (bytes ++ rest, crc)

/-- One call of `Decode` that ends in a call of the handler. -/
def decodeCall (pool : ByteSlicePool) (stream : Bytes) : Except WalError (HandlerCall × Bytes) :=
  (decode pool stream).map fun d => (⟨d.logType, d.logBuf, d.logSizeWithPadding, d.logCrc⟩, d.rest)

/-- `Decode` until it returns an error. -/
def decodeStream (pool : ByteSlicePool) (stream : Bytes) : List HandlerCall × Option WalError :=
  drain (decodeCall pool) (stream.length + 1) stream

def handlerCalls : (crc : UInt32) → List (Nat × EncodeLog) → List HandlerCall
  | _, [] => []
  | crc, r :: records =>
    ⟨r.1, r.2.body, headerSize + r.2.body.length + calcPadding r.2.body.length, r.2.encode crc⟩ ::
      handlerCalls (r.2.encode crc) records

/-- The records and `n` zero bytes behind them are read back to the end of the file. -/
def StreamRoundTrips (pool : ByteSlicePool) (crc : UInt32) (records : List (Nat × EncodeLog))
    (n : Nat) : Prop :=
  ∃ bytes last, encodeStream pool crc records = .ok (bytes, last) ∧
    decodeStream pool (bytes ++ zeros n) = (handlerCalls crc records, some .eof)

/-- The pool can hold the record. -/
def EncodeLog.FitsPool (pool : ByteSlicePool) (log : EncodeLog) : Prop :=
  (pool.acquire (headerSize + log.body.length + calcPadding log.body.length)).isSome

instance (pool : ByteSlicePool) (log : EncodeLog) : Decidable (log.FitsPool pool) :=
  inferInstanceAs (Decidable (_ = true))

/-- No record with an empty body meets a running checksum of zero. -/
def NoneHidden : (crc : UInt32) → List (Nat × EncodeLog) → Prop
  | _, [] => True
  | crc, r :: records => (r.2.body = [] → r.2.encode crc ≠ 0) ∧ NoneHidden (r.2.encode crc) records

variable {pool : ByteSlicePool} {crc : UInt32} {records : List (Nat × EncodeLog)} {bytes : Bytes}
  {last : UInt32}

variable {logType : Nat}

theorem encode_eq_ok_iff {log : EncodeLog} {out : Bytes × UInt32}
    (hsize : log.body.length ≤ maxLogSize) :
    encode pool crc logType log = .ok out ↔
      log.FitsPool pool ∧ out = (frame logType log.body (log.encode crc), log.encode crc) := by
  rw [encode, if_neg (Nat.not_lt.mpr hsize), EncodeLog.FitsPool]
  cases pool.acquire (headerSize + log.body.length + calcPadding log.body.length) with
  | none => simp
  | some level => simp [eq_comm]

theorem encodeStream_cons_eq_ok {r : Nat × EncodeLog} (hsize : r.2.body.length ≤ maxLogSize) :
    encodeStream pool crc (r :: records) = .ok (bytes, last) ↔
      r.2.FitsPool pool ∧ ∃ rest, encodeStream pool (r.2.encode crc) records = .ok (rest, last) ∧
        bytes = frame r.1 r.2.body (r.2.encode crc) ++ rest := by
  rw [encodeStream]
  constructor
  · intro h
    obtain ⟨out, hout, h⟩ := bind_eq_ok.mp h
    obtain ⟨hfits, rfl⟩ := (encode_eq_ok_iff hsize).mp hout
    obtain ⟨⟨rest, last'⟩, hrest, hpure⟩ := bind_eq_ok.mp h
    cases hpure
    exact ⟨hfits, rest, hrest, rfl⟩
  · rintro ⟨hfits, rest, hrest, rfl⟩
    rw [(encode_eq_ok_iff hsize).mpr ⟨hfits, rfl⟩, ok_bind]
    exact bind_eq_ok.mpr ⟨_, hrest, rfl⟩

theorem exists_encodeStream_iff (hsize : ∀ r ∈ records, r.2.body.length ≤ maxLogSize) :
    (∃ bytes last, encodeStream pool crc records = .ok (bytes, last)) ↔
      ∀ r ∈ records, r.2.FitsPool pool := by
  induction records generalizing crc with
  | nil => simp [encodeStream]
  | cons r records ih =>
    obtain ⟨hr, hrecords⟩ := forall_mem_cons.mp hsize
    rw [forall_mem_cons, ← ih hrecords]
    simp only [encodeStream_cons_eq_ok hr]
    constructor
    · rintro ⟨bytes, last, hfits, rest, hrest, -⟩
      exact ⟨hfits, rest, last, hrest⟩
    · rintro ⟨hfits, rest, last, hrest⟩
      exact ⟨_, last, hfits, rest, hrest, rfl⟩

/-! ## Decoding -/

theorem decode_hidden (hlt : logType < 32) (rest : Bytes) :
    decode pool (frame logType [] 0 ++ rest) = .error .eof := by
  have hempty : ([] : Bytes).length ≤ maxLogSize := Nat.zero_le _
  obtain ⟨hsize, hpad, -, hcrc⟩ := frame_fields hlt hempty 0 rest
  rw [decode_eq, if_pos ⟨hsize, hpad, hcrc⟩]
  rw [length_append]
  exact Nat.le_add_right_of_le (headerSize_le_frame_length _ _ _)

theorem decodeCall_frame {body rest : Bytes} (hlt : logType < 32) (hsize : body.length ≤ maxLogSize)
    (hpool : (pool.acquire (headerSize + body.length + calcPadding body.length)).isSome)
    (hseen : body = [] → crc ≠ 0) :
    decodeCall pool (frame logType body crc ++ rest) =
      .ok (⟨logType, body, headerSize + body.length + calcPadding body.length, crc⟩, rest) := by
  rw [decodeCall, decode_frame hlt hsize hpool hseen, ← frame_length logType body crc]
  rfl

theorem delivers_encoded (htype : ∀ r ∈ records, r.1 < 32)
    (hsize : ∀ r ∈ records, r.2.body.length ≤ maxLogSize)
    (hencode : encodeStream pool crc records = .ok (bytes, last)) (rest : Bytes) :
    ∃ calls t, Delivers (decodeCall pool) (bytes ++ rest) calls t ∧
      (NoneHidden crc records ∧ calls = handlerCalls crc records ∧ t = rest ∨
        ¬ NoneHidden crc records ∧ decodeCall pool t = .error .eof ∧
          calls.length < records.length) := by
  induction records generalizing crc bytes with
  | nil =>
    cases hencode
    exact ⟨[], rest, .nil rest, .inl ⟨trivial, rfl, rfl⟩⟩
  | cons r records ih =>
    obtain ⟨htr, htrecords⟩ := forall_mem_cons.mp htype
    obtain ⟨hr, hrecords⟩ := forall_mem_cons.mp hsize
    obtain ⟨hfits, rest', hrest, rfl⟩ := (encodeStream_cons_eq_ok hr).mp hencode
    rw [append_assoc]
    by_cases hseen : r.2.body = [] → r.2.encode crc ≠ 0
    · obtain ⟨calls, t, hdelivers, hcases⟩ := ih htrecords hrecords hrest
      refine ⟨_, t, .cons (decodeCall_frame htr hr hfits hseen) hdelivers, ?_⟩
      rcases hcases with ⟨hnone, rfl, rfl⟩ | ⟨hhidden, hend, hlt⟩
      · exact .inl ⟨⟨hseen, hnone⟩, rfl, rfl⟩
      · exact .inr ⟨fun h => hhidden h.2, hend, Nat.succ_lt_succ hlt⟩
    · refine ⟨[], _, .nil _, .inr ⟨fun h => hseen h.1, ?_, Nat.zero_lt_succ _⟩⟩
      rw [Classical.not_imp, not_not] at hseen
      rw [hseen.1, hseen.2, decodeCall, decode_hidden htr]
      rfl

theorem delivers_of_noneHidden (htype : ∀ r ∈ records, r.1 < 32)
    (hsize : ∀ r ∈ records, r.2.body.length ≤ maxLogSize) (hseen : NoneHidden crc records)
    (hencode : encodeStream pool crc records = .ok (bytes, last)) (rest : Bytes) :
    Delivers (decodeCall pool) (bytes ++ rest) (handlerCalls crc records) rest := by
  obtain ⟨_, _, hdelivers, ⟨-, rfl, rfl⟩ | ⟨hhidden, -⟩⟩ :=
    delivers_encoded htype hsize hencode rest
  · exact hdelivers
  · exact absurd hseen hhidden

theorem handlerCalls_length (crc : UInt32) (records : List (Nat × EncodeLog)) :
    (handlerCalls crc records).length = records.length := by
  induction records generalizing crc with
  | nil => rfl
  | cons r records ih => rw [handlerCalls, length_cons, ih, length_cons]

theorem length_le_of_encodeStream (hsize : ∀ r ∈ records, r.2.body.length ≤ maxLogSize)
    (hencode : encodeStream pool crc records = .ok (bytes, last)) :
    records.length ≤ bytes.length := by
  induction records generalizing crc bytes with
  | nil => exact Nat.zero_le _
  | cons r records ih =>
    obtain ⟨hr, hrecords⟩ := forall_mem_cons.mp hsize
    obtain ⟨-, rest, hrest, rfl⟩ := (encodeStream_cons_eq_ok hr).mp hencode
    have hframe := headerSize_le_frame_length r.1 r.2.body (r.2.encode crc)
    have hle := ih hrecords hrest
    rw [headerSize] at hframe
    rw [length_append, length_cons]
    omega

/-- A list of records is read back up to the end of the file exactly if the pool holds each of them,
none is hidden and the space behind them is empty or has room for a header. -/
theorem streamRoundTrips_iff {n : Nat} (htype : ∀ r ∈ records, r.1 < 32)
    (hsize : ∀ r ∈ records, r.2.body.length ≤ maxLogSize) :
    StreamRoundTrips pool crc records n ↔
      (∀ r ∈ records, r.2.FitsPool pool) ∧ NoneHidden crc records ∧ (n = 0 ∨ headerSize ≤ n) := by
  rw [← exists_encodeStream_iff hsize]
  constructor
  · rintro ⟨bytes, last, hencode, hdecode⟩
    have hlength := length_le_of_encodeStream hsize hencode
    have hcalls := handlerCalls_length crc records
    have hseen : NoneHidden crc records := by
      by_contra hhidden
      obtain ⟨calls, t, hdelivers, ⟨hseen, -⟩ | ⟨-, hend, hlt⟩⟩ :=
        delivers_encoded htype hsize hencode (zeros n)
      · exact hhidden hseen
      rw [decodeStream, drain_of_delivers hdelivers hend (by rw [length_append]; omega)]
        at hdecode
      have hsame := congrArg (fun x => x.1.length) hdecode
      dsimp only at hsame
      omega
    refine ⟨⟨bytes, last, hencode⟩, hseen, ?_⟩
    have hdelivers := delivers_of_noneHidden htype hsize hseen hencode (zeros n)
    by_contra hshort
    have hend : decodeCall pool (zeros n) = .error .unexpectedEOF := by
      rw [decodeCall, decode_zeros, if_pos (by omega)]
      rfl
    rw [decodeStream, drain_of_delivers hdelivers hend (by rw [length_append]; omega)]
      at hdecode
    cases congrArg Prod.snd hdecode
  · rintro ⟨⟨bytes, last, hencode⟩, hseen, hn⟩
    have hlength := length_le_of_encodeStream hsize hencode
    have hcalls := handlerCalls_length crc records
    have hend : decodeCall pool (zeros n) = .error .eof := by
      rw [decodeCall, decode_zeros, if_neg (by omega)]
      rfl
    exact ⟨bytes, last, hencode, drain_of_delivers
      (delivers_of_noneHidden htype hsize hseen hencode (zeros n)) hend
      (by rw [length_append]; omega)⟩

theorem empty_record_not_read :
    ¬ StreamRoundTrips ⟨[64]⟩ 0 [(LogType.normalEntry.code, .sliceBytes [])] 8 := by
  rintro ⟨bytes, last, hencode, hdecode⟩
  have hbytes : encodeStream ⟨[64]⟩ 0 [(LogType.normalEntry.code, .sliceBytes [])] =
      .ok (zeros 8, 0) := by decide +kernel
  cases hbytes.symm.trans hencode
  exact absurd hdecode (by decide +kernel)

theorem streamRoundTrips_small :
    (∀ r ∈ [(26, EncodeLog.crcLog 5), (0, .sliceBytes [1, 2, 3]), (1, .sliceBytes [])], r.1 < 32) ∧
      StreamRoundTrips ⟨[64]⟩ 7
        [(26, .crcLog 5), (0, .sliceBytes [1, 2, 3]), (1, .sliceBytes [])] 16 := by
  refine ⟨by decide, (streamRoundTrips_iff (by decide) (by decide)).mpr ⟨by decide, ?_, by decide⟩⟩
  exact ⟨by decide, by decide, by decide +kernel, trivial⟩

end Babuza.Babuzawal
