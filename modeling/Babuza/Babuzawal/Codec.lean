import Babuza.Utility.Allocator
import Babuza.Babuzawal.Pb
import Babuza.Walbase.Storage

/-!
# The record codec of the native log

`pkg/wal/babuzawal/codec`. A record is an eight byte header (three bytes size, five bits type,
three bits padding, then the running checksum), the body and zero bytes up to a multiple of
eight. `encode` and `decode` follow the source; `frame` is the byte string that `encode` writes
and `decode_frame` reads it back. A header of zeros is where preallocated space begins, so an
empty body under a zero checksum is the one frame that is not read back.

A panic of the Go code is the error `WalError.panic`.
-/

namespace Babuza.Babuzawal

open Lib Allocator List

inductive WalError
  | eof
  | unexpectedEOF
  | logSizeExceedLimit
  | crcMismatchForCrcMessage
  | crcMismatchForOthersMessage
  | notSupportMessage
  | notFoundNextEntry
  | notMaximumRepairedFileId
  | notImplementedOp
  | unmarshal
  | entryOutOfRange
  | missingConfState
  | entryStorage (e : Walbase.StorageError)
  | fileNotExist
  | magicHeaderMismatch
  | unrecognizedVersion (version : Nat)
  | idNotContinuous (expect real : Nat)
  | unexpectedLogId (expect real : Nat)
  | logFileNotFound (id : Nat)
  | notFoundValidLogFiles
  | panic
  deriving DecidableEq

def WalError.ofRead : ReadError → WalError
  | .eof => .eof
  | .unexpectedEOF => .unexpectedEOF

/-- `pb.LogType`, the values the log uses. -/
inductive LogType
  | normalEntry
  | confChangeEntry
  | confChangeV2Entry
  | crc
  | metadata
  | hardState
  | snapshot
  | nextEntry
  deriving DecidableEq

namespace LogType

def code : LogType → Nat
  | normalEntry => 0
  | confChangeEntry => 1
  | confChangeV2Entry => 2
  | crc => 26
  | metadata => 27
  | hardState => 28
  | snapshot => 29
  | nextEntry => 30

def ofCode? : Nat → Option LogType
  | 0 => some normalEntry
  | 1 => some confChangeEntry
  | 2 => some confChangeV2Entry
  | 26 => some crc
  | 27 => some metadata
  | 28 => some hardState
  | 29 => some snapshot
  | 30 => some nextEntry
  | _ => none

def ofEntryType : EntryType → LogType
  | .normal => normalEntry
  | .confChange => confChangeEntry
  | .confChangeV2 => confChangeV2Entry

theorem code_lt (t : LogType) : t.code < 32 := by cases t <;> decide

@[simp] theorem ofCode?_code (t : LogType) : ofCode? t.code = some t := by cases t <;> rfl

theorem code_injective : Function.Injective code := by
  intro t t' h
  simpa using congrArg ofCode? h

end LogType

def headerSize : Nat := 8
def logSizeShift : Nat := 8
def logTypeShift : Nat := 3
def paddingMask : Nat := 7
/-- `^uint32(logSizeShift)`. -/
def logSizeMask : Nat := 0xfffffff7
def logTypeMask : Nat := 0xf8
def maxLogSize : Nat := 0xffffff

/-- What a record is made from: `CrcLog`, or a body whose bytes extend the checksum
(`SliceBytes`, `HardStateLog`, `WalSnapshotLog` and `WalNextEntryLog` once marshalled). -/
inductive EncodeLog
  | crcLog (crc : UInt32)
  | sliceBytes (data : Bytes)

namespace EncodeLog

def body : EncodeLog → Bytes
  | crcLog crc => leBytes 4 crc.toNat
  | sliceBytes data => data

def encode (lastCrc : UInt32) : EncodeLog → UInt32
  | crcLog crc => crc
  | sliceBytes data => crc32Update lastCrc data

end EncodeLog

def calcPadding (logSize : Nat) : Nat := (8 - (headerSize + logSize) % 8) % 8

def recordHeader (logType logSize padding : Nat) : Nat :=
  ((logSize <<< logSizeShift) ||| (logType <<< logTypeShift) ||| (padding &&& paddingMask)) % 2 ^ 32

/-- The bytes of a record with the given body and checksum. -/
def frame (logType : Nat) (body : Bytes) (crc : UInt32) : Bytes :=
  leBytes 4 (recordHeader logType body.length (calcPadding body.length)) ++ leBytes 4 crc.toNat ++
    body ++ zeros (calcPadding body.length)

/-- `Encode`: the bytes handed to the writer and the new running checksum. -/
def encode (pool : ByteSlicePool) (currentCrc : UInt32) (logType : Nat) (log : EncodeLog) :
    Except WalError (Bytes × UInt32) :=
  if maxLogSize < log.body.length then .error .logSizeExceedLimit
  else
    match pool.acquire (headerSize + log.body.length + calcPadding log.body.length) with
    | none => .error .panic
    | some _ => .ok (frame logType log.body (log.encode currentCrc), log.encode currentCrc)

/-- What `Decoder.Decode` hands to its handler, and the rest of the stream. -/
structure Decoded where
  logType : Nat
  logBuf : Bytes
  logSizeWithPadding : Nat
  logCrc : UInt32
  rest : Bytes
  deriving DecidableEq

/-- `Decoder.Decode` up to the call of the handler. -/
def decode (pool : ByteSlicePool) (stream : Bytes) : Except WalError Decoded :=
  match readFull headerSize stream with
  | .error e => .error (.ofRead e)
  | .ok (headerBuf, rest) =>
    let h := leNat (headerBuf.take 4)
    let logSize := (h &&& logSizeMask) >>> logSizeShift
    let padding := h &&& paddingMask
    let logType := (h &&& logTypeMask) >>> logTypeShift
    let crc := UInt32.ofNat (leNat (headerBuf.drop 4))
    let nextReadSize := logSize + padding
    -- the header of preallocated space
    if logSize = 0 ∧ padding = 0 ∧ crc = 0 then .error .eof
    else if nextReadSize = 0 then .ok ⟨logType, [], headerSize, crc, rest⟩
    else
      match pool.acquire nextReadSize with
      | none => .error .panic
      | some _ =>
        match readFull nextReadSize rest with
        | .error _ => .error .unexpectedEOF
        | .ok (buffer, rest) =>
          .ok ⟨logType, buffer.take logSize, headerSize + nextReadSize, crc, rest⟩

theorem calcPadding_lt (logSize : Nat) : calcPadding logSize < 8 := by
  unfold calcPadding
  omega

theorem recordHeader_eq {logType logSize padding : Nat} (ht : logType < 32)
    (hs : logSize ≤ maxLogSize) (hp : padding < 8) :
    recordHeader logType logSize padding = logSize * 256 + logType * 8 + padding := by
  have hs' : logSize ≤ 0xffffff := hs
  have hmask : padding &&& paddingMask = padding := by
    rw [show paddingMask = 2 ^ 3 - 1 from rfl, Nat.and_two_pow_sub_one_eq_mod]
    omega
  have htype : logType <<< 3 < 2 ^ 8 := by rw [Nat.shiftLeft_eq]; omega
  have hupper : logSize <<< 8 + logType <<< 3 = (logSize <<< 5 + logType) <<< 3 := by
    omega
  unfold recordHeader
  rw [hmask, show logSizeShift = 8 from rfl, show logTypeShift = 3 from rfl,
    ← Nat.shiftLeft_add_eq_or_of_lt htype, hupper,
    ← Nat.shiftLeft_add_eq_or_of_lt (show padding < 2 ^ 3 by omega)]
  omega

theorem headerLogSize_eq (h : Nat) : (h &&& logSizeMask) >>> logSizeShift = h / 256 % 2 ^ 24 := by
  rw [Nat.shiftRight_and_distrib,
    show logSizeMask >>> logSizeShift = 2 ^ 24 - 1 from rfl, Nat.and_two_pow_sub_one_eq_mod,
    Nat.shiftRight_eq_div_pow]
  rfl

theorem headerLogType_eq (h : Nat) : (h &&& logTypeMask) >>> logTypeShift = h / 8 % 32 := by
  rw [Nat.shiftRight_and_distrib,
    show logTypeMask >>> logTypeShift = 2 ^ 5 - 1 from rfl, Nat.and_two_pow_sub_one_eq_mod,
    Nat.shiftRight_eq_div_pow]
  rfl

theorem headerPadding_eq (h : Nat) : h &&& paddingMask = h % 8 := by
  rw [show paddingMask = 2 ^ 3 - 1 from rfl, Nat.and_two_pow_sub_one_eq_mod]

/-! ## The decoder in terms of the header -/

/-- The fields of the header at the front of a stream. -/
def headerLogSize (stream : Bytes) : Nat := (leNat (stream.take 4) &&& logSizeMask) >>> logSizeShift

def headerPadding (stream : Bytes) : Nat := leNat (stream.take 4) &&& paddingMask

def headerLogType (stream : Bytes) : Nat := (leNat (stream.take 4) &&& logTypeMask) >>> logTypeShift

def headerCrc (stream : Bytes) : UInt32 := UInt32.ofNat (leNat ((stream.take headerSize).drop 4))

/-- The bytes of the body and the padding. -/
def nextReadSize (stream : Bytes) : Nat := headerLogSize stream + headerPadding stream

theorem headerLogSize_le (stream : Bytes) : headerLogSize stream ≤ nextReadSize stream :=
  Nat.le_add_right _ _

/-- There is a header at the front, and not that of preallocated space. -/
def HasRecord (stream : Bytes) : Prop :=
  headerSize ≤ stream.length ∧
    ¬ (headerLogSize stream = 0 ∧ headerPadding stream = 0 ∧ headerCrc stream = 0)

instance (stream : Bytes) : Decidable (HasRecord stream) := inferInstanceAs (Decidable (_ ∧ _))

/-- The complete record at the front of a stream. -/
def recordAt (stream : Bytes) : Decoded where
  logType := headerLogType stream
  logBuf := (stream.drop headerSize).take (headerLogSize stream)
  logSizeWithPadding := headerSize + nextReadSize stream
  logCrc := headerCrc stream
  rest := stream.drop (headerSize + nextReadSize stream)

section Decode

variable {pool : ByteSlicePool} {stream : Bytes}

theorem decode_eq (hlen : headerSize ≤ stream.length) :
    decode pool stream =
      if headerLogSize stream = 0 ∧ headerPadding stream = 0 ∧ headerCrc stream = 0 then .error .eof
      else if nextReadSize stream = 0 then
        .ok ⟨headerLogType stream, [], headerSize, headerCrc stream, stream.drop headerSize⟩
      else
        match pool.acquire (nextReadSize stream) with
        | none => .error .panic
        | some _ =>
          match readFull (nextReadSize stream) (stream.drop headerSize) with
          | .error _ => .error .unexpectedEOF
          | .ok (buffer, rest) =>
            .ok ⟨headerLogType stream, buffer.take (headerLogSize stream),
              headerSize + nextReadSize stream, headerCrc stream, rest⟩ := by
  have htake : (stream.take headerSize).take 4 = stream.take 4 := by
    rw [take_take]
    rfl
  rw [decode, readFull_of_le hlen]
  simp only [htake]
  rfl

theorem decode_of_hasRecord (h : HasRecord stream) :
    decode pool stream =
      if nextReadSize stream ≠ 0 ∧ pool.acquire (nextReadSize stream) = none then .error .panic
      else if headerSize + nextReadSize stream ≤ stream.length then .ok (recordAt stream)
      else .error .unexpectedEOF := by
  obtain ⟨hlen, hspace⟩ := h
  rw [decode_eq hlen, if_neg hspace]
  by_cases hzero : nextReadSize stream = 0
  · have hsize : headerLogSize stream = 0 := Nat.eq_zero_of_add_eq_zero_right hzero
    simp [hzero, hlen, recordAt, hsize]
  · rw [if_neg hzero]
    cases hacquire : pool.acquire (nextReadSize stream) with
    | none => simp [hzero]
    | some level =>
      by_cases hcomplete : headerSize + nextReadSize stream ≤ stream.length
      · have hle : nextReadSize stream ≤ (stream.drop headerSize).length := by
          rw [length_drop]
          omega
        have hbuf : ((stream.drop headerSize).take (nextReadSize stream)).take
            (headerLogSize stream) = (stream.drop headerSize).take (headerLogSize stream) := by
          rw [take_take, Nat.min_eq_left (headerLogSize_le stream)]
        simp only [readFull_of_le hle, hbuf, drop_drop, hcomplete, if_true, reduceCtorEq,
          and_false, if_false, recordAt]
      · have hlt : ¬ nextReadSize stream ≤ (stream.drop headerSize).length := by
          rw [length_drop]
          omega
        have hshort : ∃ e, readFull (nextReadSize stream) (stream.drop headerSize) = .error e := by
          unfold readFull
          rw [if_neg hlt]
          split
          all_goals exact ⟨_, rfl⟩
        obtain ⟨e, he⟩ := hshort
        simp [he, hcomplete]

theorem decode_of_not_hasRecord (pool : ByteSlicePool) (h : ¬ HasRecord stream) :
    decode pool stream = .error .eof ∨ decode pool stream = .error .unexpectedEOF := by
  by_cases hlen : headerSize ≤ stream.length
  · have hspace : headerLogSize stream = 0 ∧ headerPadding stream = 0 ∧ headerCrc stream = 0 := by
      by_contra hother
      exact h ⟨hlen, hother⟩
    rw [decode_eq hlen, if_pos hspace]
    exact .inl rfl
  · rw [decode, readFull, if_neg hlen]
    by_cases hnil : stream = []
    · rw [if_pos hnil]
      exact .inl rfl
    · rw [if_neg hnil]
      exact .inr rfl

theorem decode_eq_ok {d : Decoded} (h : decode pool stream = .ok d) :
    HasRecord stream ∧ ¬ (nextReadSize stream ≠ 0 ∧ pool.acquire (nextReadSize stream) = none) ∧
      headerSize + nextReadSize stream ≤ stream.length ∧ d = recordAt stream := by
  by_cases hrecord : HasRecord stream
  · rw [decode_of_hasRecord hrecord] at h
    split at h
    · cases h
    next hpool =>
      split at h
      next hcomplete =>
        cases h
        exact ⟨hrecord, hpool, hcomplete, rfl⟩
      · cases h
  · rcases decode_of_not_hasRecord pool hrecord with heq | heq
    all_goals cases heq.symm.trans h

end Decode

/-! ## Round trip -/

theorem frame_length (logType : Nat) (body : Bytes) (crc : UInt32) :
    (frame logType body crc).length = headerSize + body.length + calcPadding body.length := by
  simp only [frame, length_append, leBytes_length, zeros_length, headerSize]

theorem headerSize_le_frame_length (logType : Nat) (body : Bytes) (crc : UInt32) :
    headerSize ≤ (frame logType body crc).length := by
  rw [frame_length]
  omega

theorem frame_split (logType : Nat) (body : Bytes) (crc : UInt32) (rest : Bytes) :
    frame logType body crc ++ rest =
      (leBytes 4 (recordHeader logType body.length (calcPadding body.length)) ++
        leBytes 4 crc.toNat) ++ ((body ++ zeros (calcPadding body.length)) ++ rest) := by
  simp [frame]

theorem frame_fields {logType : Nat} {body : Bytes} (ht : logType < 32)
    (hs : body.length ≤ maxLogSize) (crc : UInt32) (rest : Bytes) :
    headerLogSize (frame logType body crc ++ rest) = body.length ∧
      headerPadding (frame logType body crc ++ rest) = calcPadding body.length ∧
      headerLogType (frame logType body crc ++ rest) = logType ∧
      headerCrc (frame logType body crc ++ rest) = crc := by
  have hs' : body.length ≤ 0xffffff := hs
  have hp := calcPadding_lt body.length
  have hheader := recordHeader_eq ht hs hp
  have hlow : leNat ((frame logType body crc ++ rest).take 4) =
      body.length * 256 + logType * 8 + calcPadding body.length := by
    rw [frame_split, append_assoc, take_left' (leBytes_length 4 _),
      leNat_leBytes (by rw [hheader]; omega), hheader]
  have hhigh : ((frame logType body crc ++ rest).take headerSize).drop 4 = leBytes 4 crc.toNat := by
    rw [frame_split, take_left' (by simp [headerSize]), drop_left' (leBytes_length 4 _)]
  rw [headerLogSize, headerPadding, headerLogType, headerCrc, hlow, hhigh, headerLogSize_eq,
    headerLogType_eq, headerPadding_eq, leNat_leBytes (by have := crc.toNat_lt; omega)]
  exact ⟨by omega, by omega, by omega, UInt32.ofNat_toNat⟩

theorem decode_frame {pool : ByteSlicePool} {logType : Nat} {body : Bytes} {crc : UInt32}
    (ht : logType < 32) (hs : body.length ≤ maxLogSize)
    (hpool : (pool.acquire (headerSize + body.length + calcPadding body.length)).isSome)
    (hvisible : body = [] → crc ≠ 0) (rest : Bytes) :
    decode pool (frame logType body crc ++ rest) =
      .ok ⟨logType, body, (frame logType body crc).length, crc, rest⟩ := by
  obtain ⟨hsize, hpad, htype, hcrc⟩ := frame_fields ht hs crc rest
  have hlen := frame_length logType body crc
  have hnext : headerSize + nextReadSize (frame logType body crc ++ rest) =
      (frame logType body crc).length := by
    rw [nextReadSize, hsize, hpad, hlen, Nat.add_assoc]
  have hrecord : HasRecord (frame logType body crc ++ rest) := by
    refine ⟨by rw [length_append]; omega, ?_⟩
    rw [hsize, hpad, hcrc]
    rintro ⟨hzero, -, hcrc⟩
    exact hvisible (eq_nil_of_length_eq_zero hzero) hcrc
  rw [decode_of_hasRecord hrecord, hnext, if_neg, if_pos]
  · have hbody : ((frame logType body crc ++ rest).drop headerSize).take body.length = body := by
      rw [frame_split, drop_left' (by simp [headerSize]), append_assoc, take_left]
    rw [recordAt, hnext, htype, hsize, hcrc, hbody, drop_left]
  · rw [length_append]
    exact Nat.le_add_right _ _
  · rintro ⟨hne, hnone⟩
    have hacquire := ByteSlicePool.acquire_isSome_mono (Nat.pos_of_ne_zero hne) (by omega) hpool
    rw [hnone] at hacquire
    cases hacquire

theorem decode_zeros (pool : ByteSlicePool) (n : Nat) :
    decode pool (zeros n) = .error (if 0 < n ∧ n < headerSize then .unexpectedEOF else .eof) := by
  by_cases hlong : headerSize ≤ n
  · have hlen : headerSize ≤ (zeros n).length := by rwa [zeros_length]
    have hlow : leNat (((zeros n).take headerSize).take 4) = 0 := by
      rw [zeros_take, zeros_take, zeros]
      exact leNat_eq_zero_of_zeros _
    have hhigh : leNat (((zeros n).take headerSize).drop 4) = 0 := by
      rw [zeros_take, zeros_drop, zeros]
      exact leNat_eq_zero_of_zeros _
    rw [decode, readFull_of_le hlen, if_neg (by omega)]
    simp only [hlow, hhigh]
    rw [if_pos (by decide)]
  · have hlen : ¬ headerSize ≤ (zeros n).length := by rwa [zeros_length]
    rcases Nat.eq_zero_or_pos n with rfl | hpos
    · rfl
    · have hne : zeros n ≠ [] := by
        rwa [← length_pos_iff, zeros_length]
      rw [decode, readFull, if_neg hlen, if_neg hne, if_pos ⟨hpos, Nat.not_le.mp hlong⟩]
      rfl

theorem decode_rest_length {pool : ByteSlicePool} {stream : Bytes} {d : Decoded}
    (h : decode pool stream = .ok d) : d.rest.length < stream.length := by
  obtain ⟨⟨hlen, -⟩, -, -, rfl⟩ := decode_eq_ok h
  rw [headerSize] at hlen
  rw [recordAt, length_drop, headerSize]
  omega

/-! ## Records -/

/-- The records a log is made of, with what they are encoded from. -/
inductive Record
  | crc (value : UInt32)
  | metadata (data : Bytes)
  | hardState (st : HardState)
  | snapshot (snap : WalSnapshot)
  | nextEntry (e : WalNextEntry)
  | entry (type : EntryType) (data : Bytes)
  deriving DecidableEq

namespace Record

variable (codecs : RaftCodecs)

def logType : Record → LogType
  | crc _ => .crc
  | metadata _ => .metadata
  | hardState _ => .hardState
  | snapshot _ => .snapshot
  | nextEntry _ => .nextEntry
  | entry type _ => .ofEntryType type

def log : Record → EncodeLog
  | crc value => .crcLog value
  | metadata data => .sliceBytes data
  | hardState st => .sliceBytes (codecs.hardState.marshal st)
  | snapshot snap => .sliceBytes (codecs.walSnapshot.marshal snap)
  | nextEntry e => .sliceBytes e.marshal
  | entry _ data => .sliceBytes data

def snapshot? : Record → Option WalSnapshot
  | snapshot snap => some snap
  | _ => none

def body (r : Record) : Bytes := (r.log codecs).body

def nextCrc (crc : UInt32) (r : Record) : UInt32 := (r.log codecs).encode crc

def bytes (crc : UInt32) (r : Record) : Bytes :=
  frame r.logType.code (r.body codecs) (r.nextCrc codecs crc)

/-- The record is within the size limit and the pool can hold it. -/
def Fits (pool : ByteSlicePool) (r : Record) : Prop :=
  (r.body codecs).length ≤ maxLogSize ∧
    (pool.acquire
      (headerSize + (r.body codecs).length + calcPadding (r.body codecs).length)).isSome

def Visible (crc : UInt32) (r : Record) : Prop :=
  r.body codecs = [] → r.nextCrc codecs crc ≠ 0

instance (pool : ByteSlicePool) (r : Record) : Decidable (r.Fits codecs pool) :=
  inferInstanceAs (Decidable (_ ∧ _))

instance (crc : UInt32) (r : Record) : Decidable (r.Visible codecs crc) :=
  inferInstanceAs (Decidable (_ → _))

variable {codecs} {pool : ByteSlicePool} {crc : UInt32} {r : Record}

theorem headerSize_le_bytes : headerSize ≤ (r.bytes codecs crc).length :=
  headerSize_le_frame_length _ _ _

theorem encode_eq (h : r.Fits codecs pool) :
    encode pool crc r.logType.code (r.log codecs) =
      .ok (r.bytes codecs crc, r.nextCrc codecs crc) := by
  obtain ⟨hsize, hpool⟩ := h
  obtain ⟨level, hlevel⟩ := Option.isSome_iff_exists.mp hpool
  rw [body] at hsize hlevel
  rw [encode, if_neg (Nat.not_lt.mpr hsize), hlevel]
  rfl

theorem fits_of_encode {out : Bytes × UInt32}
    (h : encode pool crc r.logType.code (r.log codecs) = .ok out) : r.Fits codecs pool := by
  rw [encode] at h
  split at h
  · cases h
  rename_i hsize
  split at h
  · cases h
  rename_i level hlevel
  exact ⟨Nat.not_lt.mp hsize, by rw [body, hlevel]; rfl⟩

def decoded (codecs : RaftCodecs) (crc : UInt32) (r : Record) (rest : Bytes) : Decoded :=
  ⟨r.logType.code, r.body codecs, (r.bytes codecs crc).length, r.nextCrc codecs crc, rest⟩

theorem decode_bytes (hfits : r.Fits codecs pool) (hvisible : r.Visible codecs crc) (rest : Bytes) :
    decode pool (r.bytes codecs crc ++ rest) = .ok (r.decoded codecs crc rest) :=
  decode_frame r.logType.code_lt hfits.1 hfits.2 hvisible rest

end Record

section

variable (codecs : RaftCodecs)

def encodeRecords : (crc : UInt32) → List Record → Bytes
  | _, [] => []
  | crc, r :: rs => r.bytes codecs crc ++ encodeRecords (r.nextCrc codecs crc) rs

def crcAfter (crc : UInt32) (rs : List Record) : UInt32 := rs.foldl (Record.nextCrc codecs) crc

def AllVisible : (crc : UInt32) → List Record → Prop
  | _, [] => True
  | crc, r :: rs => r.Visible codecs crc ∧ AllVisible (r.nextCrc codecs crc) rs

instance decidableAllVisible : (crc : UInt32) → (rs : List Record) →
    Decidable (AllVisible codecs crc rs)
  | _, [] => .isTrue trivial
  | crc, r :: rs =>
    have := decidableAllVisible (r.nextCrc codecs crc) rs
    inferInstanceAs (Decidable (_ ∧ _))

variable {codecs}

variable (crc : UInt32)

@[simp] theorem encodeRecords_nil : encodeRecords codecs crc [] = [] := rfl

@[simp] theorem crcAfter_nil : crcAfter codecs crc [] = crc := rfl

@[simp] theorem crcAfter_cons (r : Record) (rs : List Record) :
    crcAfter codecs crc (r :: rs) = crcAfter codecs (r.nextCrc codecs crc) rs := rfl

theorem crcAfter_append (rs rs' : List Record) :
    crcAfter codecs crc (rs ++ rs') = crcAfter codecs (crcAfter codecs crc rs) rs' :=
  foldl_append

theorem encodeRecords_append (rs rs' : List Record) :
    encodeRecords codecs crc (rs ++ rs') =
      encodeRecords codecs crc rs ++ encodeRecords codecs (crcAfter codecs crc rs) rs' := by
  induction rs generalizing crc with
  | nil => rfl
  | cons r rs ih => rw [cons_append, encodeRecords, ih, encodeRecords, append_assoc,
      crcAfter_cons]

theorem allVisible_append {crc : UInt32} {rs rs' : List Record} :
    AllVisible codecs crc (rs ++ rs') ↔
      AllVisible codecs crc rs ∧ AllVisible codecs (crcAfter codecs crc rs) rs' := by
  induction rs generalizing crc with
  | nil => simp [AllVisible]
  | cons r rs ih => rw [cons_append, AllVisible, AllVisible, ih, crcAfter_cons, and_assoc]

end

end Babuza.Babuzawal
