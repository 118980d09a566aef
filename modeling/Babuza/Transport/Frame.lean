import Babuza.Lib.Drain
import Babuza.Lib.Reader
import Babuza.Lib.Wire
import Babuza.Utility.Allocator

/-!
# Frames of the TCP protocol

`frame.Writer` puts the size and the type of a message and its checksum in front of it,
`frame.Reader` takes the frames off a connection again (`pkg/transport/protocol/tcp/conn/frame`).
The connection delivers the bytes in pieces of any size, which `io.ReadFull` hides. A stream that
ends between two frames ends cleanly, one that ends inside a frame with an error.
-/

namespace Babuza.Transport

open Lib Allocator List

namespace Frame

def headerSize : Nat := 8
def msgSizeShift : Nat := 8
def msgSizeMask : Nat := 0xfffffff7
def msgTypeMask : Nat := 0xff
def maxMessageSize : Nat := 0xffffff

end Frame

open Transport.Frame

inductive FrameError
  /-- The stream ends in front of a frame. -/
  | eof
  | unexpectedEOF
  | read
  | crcMismatch
  | messageSizeExceeded
  | bufferTooSmall
  | panic
  deriving DecidableEq

/-- `frame.EncodeSize`: the buffer a message needs. -/
def encodeSize (msgSize : Nat) : Except FrameError Nat :=
  if maxMessageSize < msgSize then .error .panic else .ok (headerSize + msgSize)

def frameHeader (msgType msgSize : Nat) : Nat :=
  ((msgSize <<< msgSizeShift) ||| (msgType &&& msgTypeMask)) % 2 ^ 32

/-- `Writer.Encode` with a buffer of `bufSize` bytes: what is written to the connection. -/
def encodeFrame (bufSize msgType : Nat) (msg : Bytes) : Except FrameError Bytes :=
  if maxMessageSize < msg.length then .error .messageSizeExceeded
  else if bufSize < headerSize + msg.length then .error .bufferTooSmall
  else .ok (leBytes 4 (frameHeader msgType msg.length) ++ leBytes 4 (crc32Update 0 msg).toNat ++
    msg)

/-- `Reader.ReadFrameOrEOF` up to the call of the handler: its arguments and the connection behind
the frame. -/
def readFrameOrEOF (conn : Reader) : Except FrameError ((Nat × Bytes) × Reader) :=
  match conn.readFull headerSize with
  | .error .eof => .error .eof
  | .error .unexpectedEOF => .error .unexpectedEOF
  | .error .failed => .error .read
  | .ok (headerBuf, conn) =>
    let h := leNat (headerBuf.take 4)
    let crc := UInt32.ofNat (leNat (headerBuf.drop 4))
    let msgSize := (h &&& msgSizeMask) >>> msgSizeShift
    if 0 < msgSize then
      match defaultByteSlicePool.acquire msgSize with
      | none => .error .panic
      | some _ =>
        match conn.readFull msgSize with
        | .error .eof | .error .unexpectedEOF => .error .unexpectedEOF
        | .error .failed => .error .read
        | .ok (messageBuf, conn) =>
          if crc32Update 0 messageBuf ≠ crc then .error .crcMismatch
          else .ok ((h &&& msgTypeMask, messageBuf), conn)
    else if crc ≠ 0 then .error .crcMismatch
    else .ok ((h &&& msgTypeMask, []), conn)

/-- The calls of the handler up to the end of the connection, and how it ends. -/
def readFrames (conn : Reader) : List (Nat × Bytes) × Option FrameError :=
  drain readFrameOrEOF (conn.bytes.length + 1) conn

/-! ## One frame -/

def frameOf (m : Nat × Bytes) : Bytes :=
  leBytes 4 (frameHeader m.1 m.2.length) ++ leBytes 4 (crc32Update 0 m.2).toNat ++ m.2

theorem encodeFrame_eq {bufSize : Nat} {m : Nat × Bytes} (hsize : m.2.length ≤ maxMessageSize)
    (hbuf : headerSize + m.2.length ≤ bufSize) : encodeFrame bufSize m.1 m.2 = .ok (frameOf m) := by
  rw [encodeFrame, if_neg (Nat.not_lt.mpr hsize), if_neg (Nat.not_lt.mpr hbuf)]
  rfl

theorem frameOf_length (m : Nat × Bytes) : (frameOf m).length = headerSize + m.2.length := by
  simp only [frameOf, length_append, leBytes_length, headerSize]

theorem frameHeader_eq {msgType msgSize : Nat} (ht : msgType < 256)
    (hs : msgSize ≤ maxMessageSize) : frameHeader msgType msgSize = msgSize * 256 + msgType := by
  have hs' : msgSize ≤ 0xffffff := hs
  have hmask : msgType &&& msgTypeMask = msgType := by
    rw [show msgTypeMask = 2 ^ 8 - 1 from rfl, Nat.and_two_pow_sub_one_eq_mod]
    omega
  rw [frameHeader, hmask, show msgSizeShift = 8 from rfl,
    ← Nat.shiftLeft_add_eq_or_of_lt (show msgType < 2 ^ 8 by omega), Nat.shiftLeft_eq]
  omega

theorem headerMsgSize_eq (h : Nat) : (h &&& msgSizeMask) >>> msgSizeShift = h / 256 % 2 ^ 24 := by
  rw [Nat.shiftRight_and_distrib,
    show msgSizeMask >>> msgSizeShift = 2 ^ 24 - 1 from rfl, Nat.and_two_pow_sub_one_eq_mod,
    Nat.shiftRight_eq_div_pow]
  rfl

theorem headerMsgType_eq (h : Nat) : h &&& msgTypeMask = h % 256 := by
  rw [show msgTypeMask = 2 ^ 8 - 1 from rfl, Nat.and_two_pow_sub_one_eq_mod]

variable {conn : Reader} {m : Nat × Bytes}

theorem readFrameOrEOF_header {behind : Bytes} (ht : m.1 < 256) (hs : m.2.length ≤ maxMessageSize)
    (hbytes : conn.bytes = leBytes 4 (frameHeader m.1 m.2.length) ++
      leBytes 4 (crc32Update 0 m.2).toNat ++ behind) :
    (conn.skip headerSize).bytes = behind ∧
      readFrameOrEOF conn =
        if 0 < m.2.length then
          match (conn.skip headerSize).readFull m.2.length with
          | .error .eof | .error .unexpectedEOF => .error .unexpectedEOF
          | .error .failed => .error .read
          | .ok (messageBuf, conn) =>
            if crc32Update 0 messageBuf ≠ crc32Update 0 m.2 then .error .crcMismatch
            else .ok ((m.1, messageBuf), conn)
        else .ok (m, conn.skip headerSize) := by
  have hs' : m.2.length ≤ 0xffffff := hs
  have hheader := frameHeader_eq ht hs
  have hread : leNat (leBytes 4 (frameHeader m.1 m.2.length)) = m.2.length * 256 + m.1 := by
    rw [leNat_leBytes (by rw [hheader]; omega), hheader]
  have hcrc : UInt32.ofNat (leNat (leBytes 4 (crc32Update 0 m.2).toNat)) = crc32Update 0 m.2 := by
    rw [leNat_leBytes (by have := (crc32Update 0 m.2).toNat_lt; omega), UInt32.ofNat_toNat]
  have hlength : (leBytes 4 (frameHeader m.1 m.2.length) ++
      leBytes 4 (crc32Update 0 m.2).toNat).length = headerSize := by
    simp [headerSize]
  have hsize : (m.2.length * 256 + m.1) / 256 % 2 ^ 24 = m.2.length := by omega
  have htype : (m.2.length * 256 + m.1) % 256 = m.1 := by omega
  have hfull : conn.readFull headerSize = .ok (leBytes 4 (frameHeader m.1 m.2.length) ++
      leBytes 4 (crc32Update 0 m.2).toNat, conn.skip headerSize) := by
    rw [Reader.readFull_of_le (by rw [hbytes, length_append, hlength]; omega), hbytes,
      take_left' hlength]
  refine ⟨by rw [Reader.bytes_skip, hbytes, drop_left' hlength], ?_⟩
  rw [readFrameOrEOF, hfull]
  simp only [take_left' (leBytes_length 4 _), drop_left' (leBytes_length 4 _), hread, hcrc,
    headerMsgSize_eq, headerMsgType_eq, hsize, htype]
  by_cases hpos : 0 < m.2.length
  · have hacquire : (defaultByteSlicePool.acquire m.2.length).isSome :=
      (acquire_default_isSome_iff _).mpr ⟨by omega, by omega⟩
    obtain ⟨level, hlevel⟩ := Option.isSome_iff_exists.mp hacquire
    rw [if_pos hpos, if_pos hpos, hlevel]
  · have hempty : m.2 = [] := List.length_eq_zero_iff.mp (by omega)
    have hzero : ¬ crc32Update 0 m.2 ≠ 0 := by
      rw [hempty, crc32Update_nil, not_not]
    rw [if_neg hpos, if_neg hpos, if_neg hzero, ← hempty]

theorem readFrameOrEOF_frame {rest : Bytes} (ht : m.1 < 256) (hs : m.2.length ≤ maxMessageSize)
    (hbytes : conn.bytes = frameOf m ++ rest) :
    ∃ conn', readFrameOrEOF conn = .ok (m, conn') ∧ conn'.bytes = rest ∧
      conn'.ending = conn.ending := by
  rw [frameOf, append_assoc] at hbytes
  obtain ⟨hbehind, hread⟩ := readFrameOrEOF_header ht hs hbytes
  by_cases hpos : 0 < m.2.length
  · refine ⟨(conn.skip headerSize).skip m.2.length, ?_, ?_, ?_⟩
    · rw [hread, if_pos hpos, Reader.readFull_of_le (by rw [hbehind, length_append]; omega),
        hbehind, take_left]
      simp
    · rw [Reader.bytes_skip, hbehind, drop_left]
    · rw [Reader.ending_skip, Reader.ending_skip]
  · have hempty : m.2 = [] := List.length_eq_zero_iff.mp (by omega)
    refine ⟨conn.skip headerSize, ?_, ?_, Reader.ending_skip _ _⟩
    · rw [hread, if_neg hpos]
    · rw [hbehind, hempty, nil_append]

theorem readFrameOrEOF_cut {k : Nat} (ht : m.1 < 256) (hs : m.2.length ≤ maxMessageSize)
    (heof : conn.ending = .eof) (hpos : 0 < k) (hk : k < (frameOf m).length)
    (hbytes : conn.bytes = (frameOf m).take k) : readFrameOrEOF conn = .error .unexpectedEOF := by
  have hlength : conn.bytes.length = k := by rw [hbytes, length_take, Nat.min_eq_left hk.le]
  rw [frameOf_length] at hk
  by_cases hheader : k < headerSize
  · have hne : conn.bytes ≠ [] := length_pos_iff.mp (by omega)
    rw [readFrameOrEOF, Reader.readFull_of_eof heof (by omega), if_neg hne]
  · have hsplit : (leBytes 4 (frameHeader m.1 m.2.length) ++
        leBytes 4 (crc32Update 0 m.2).toNat).length = headerSize := by
      simp [headerSize]
    rw [frameOf, take_append, hsplit, take_of_length_le (by omega)] at hbytes
    obtain ⟨hbehind, hread⟩ := readFrameOrEOF_header ht hs hbytes
    have hshort : (conn.skip headerSize).bytes.length < m.2.length := by
      rw [hbehind, length_take]
      omega
    rw [hread, if_pos (by omega), Reader.readFull_of_eof (by rw [Reader.ending_skip, heof]) hshort]
    by_cases hempty : (conn.skip headerSize).bytes = []
    · rw [if_pos hempty]
    · rw [if_neg hempty]

/-! ## Streams of frames -/

theorem delivers_frames {msgs : List (Nat × Bytes)} {rest : Bytes} (ht : ∀ m ∈ msgs, m.1 < 256)
    (hs : ∀ m ∈ msgs, m.2.length ≤ maxMessageSize)
    (hbytes : conn.bytes = (msgs.map frameOf).flatten ++ rest) :
    ∃ conn', Delivers readFrameOrEOF conn msgs conn' ∧ conn'.bytes = rest ∧
      conn'.ending = conn.ending := by
  induction msgs generalizing conn with
  | nil => exact ⟨conn, .nil conn, hbytes, rfl⟩
  | cons m msgs ih =>
    obtain ⟨htm, htmsgs⟩ := forall_mem_cons.mp ht
    obtain ⟨hsm, hsmsgs⟩ := forall_mem_cons.mp hs
    rw [map_cons, flatten_cons, append_assoc] at hbytes
    obtain ⟨conn₁, hread, hbytes₁, hending₁⟩ := readFrameOrEOF_frame htm hsm hbytes
    obtain ⟨conn', hdelivers, hbytes', hending'⟩ := ih htmsgs hsmsgs hbytes₁
    exact ⟨conn', .cons hread hdelivers, hbytes', hending'.trans hending₁⟩

theorem length_le_flatten (msgs : List (Nat × Bytes)) :
    msgs.length ≤ (msgs.map frameOf).flatten.length := by
  induction msgs with
  | nil => exact Nat.zero_le _
  | cons m msgs ih =>
    rw [map_cons, flatten_cons, length_append, frameOf_length, length_cons,
      headerSize]
    omega

/-- The frames of a list of messages, whatever the pieces in which the connection delivers them: all
messages and then a clean end, or, when the stream is cut inside a frame, the messages in front of
it and then an error. -/
theorem readFrames_round_trip (bufSize : Nat × Bytes → Nat) (msgs : List (Nat × Bytes))
    (ht : ∀ m ∈ msgs, m.1 < 256) (hs : ∀ m ∈ msgs, m.2.length ≤ maxMessageSize)
    (hbuf : ∀ m ∈ msgs, ∀ n, encodeSize m.2.length = .ok n → n ≤ bufSize m) :
    ∃ frames, msgs.mapM (fun m => encodeFrame (bufSize m) m.1 m.2) = .ok frames ∧
      (∀ conn : Reader, conn.ending = .eof → conn.bytes = frames.flatten →
        readFrames conn = (msgs, some .eof)) ∧
      ∀ (conn : Reader) (front : List Bytes) (frame : Bytes) (behind : List Bytes) (k : Nat),
        conn.ending = .eof → frames = front ++ frame :: behind → 0 < k → k < frame.length →
        conn.bytes = front.flatten ++ frame.take k →
        readFrames conn = (msgs.take front.length, some .unexpectedEOF) := by
  have hencode : ∀ m ∈ msgs, encodeFrame (bufSize m) m.1 m.2 = .ok (frameOf m) := by
    intro m hm
    have hsize : encodeSize m.2.length = .ok (headerSize + m.2.length) :=
      if_neg (Nat.not_lt.mpr (hs m hm))
    exact encodeFrame_eq (hs m hm) (hbuf m hm _ hsize)
  refine ⟨msgs.map frameOf, mapM_eq_ok hencode, ?_, ?_⟩
  · intro conn heof hbytes
    have hall : conn.bytes = (msgs.map frameOf).flatten ++ [] := by rw [hbytes, append_nil]
    obtain ⟨conn', hdelivers, hbytes', hending⟩ := delivers_frames ht hs hall
    have hend : readFrameOrEOF conn' = .error .eof := by
      rw [readFrameOrEOF, Reader.readFull_of_eof (hending.trans heof)
        (by rw [hbytes', headerSize]; simp), if_pos hbytes']
    have hlength := length_le_flatten msgs
    exact drain_of_delivers hdelivers hend (by rw [hbytes]; omega)
  · intro conn front frame behind k heof hframes hpos hk hbytes
    obtain ⟨pre, rest, rfl, rfl, hrest⟩ := map_eq_append_iff.mp hframes
    obtain ⟨m, post, rfl, rfl, rfl⟩ := map_eq_cons_iff.mp hrest
    have hm : m ∈ pre ++ m :: post := by simp
    obtain ⟨conn', hdelivers, hbytes', hending⟩ := delivers_frames
      (fun x hx => ht x (mem_append_left _ hx)) (fun x hx => hs x (mem_append_left _ hx))
      hbytes
    have hend := readFrameOrEOF_cut (ht m hm) (hs m hm) (hending.trans heof) hpos hk hbytes'
    have hlength := length_le_flatten pre
    rw [length_map, take_left]
    exact drain_of_delivers hdelivers hend (by rw [hbytes, length_append]; omega)

def byteByByte (bytes : Bytes) : Reader where
  pieces := bytes.map ([·])
  pieces_ne_nil := by simp
  ending := .eof
  early := false
  endsEmpty := true

/-- An empty message in front of another one, whole and without the last byte. -/
theorem readFrames_round_trip_two :
    ∃ frames, [(3, []), (1, [7, 8])].mapM (fun m => encodeFrame 64 m.1 m.2) = .ok frames ∧
      readFrames (byteByByte frames.flatten) = ([(3, []), (1, [7, 8])], some .eof) ∧
      readFrames (byteByByte (frames.flatten.take 17)) = ([(3, [])], some .unexpectedEOF) := by
  obtain ⟨frames, hencode, hwhole, hcut⟩ := readFrames_round_trip (fun _ => 64)
    [(3, []), (1, [7, 8])] (by decide) (by decide) (by decide)
  have hframes : [(3, []), (1, [7, 8])].mapM (fun m => encodeFrame 64 m.1 m.2) =
      .ok [frameOf (3, []), frameOf (1, [7, 8])] := by decide +kernel
  cases hframes.symm.trans hencode
  refine ⟨_, hframes, hwhole _ rfl (by decide +kernel), ?_⟩
  exact hcut _ [frameOf (3, [])] (frameOf (1, [7, 8])) [] 9 rfl rfl (by decide) (by decide +kernel)
    (by decide +kernel)

/-! ## `SendFrame` -/

/-- `FrameConnection.SendFrame` on a connection that takes what is written: the bytes written. -/
def sendFrame (msgType : Nat) (msg : Bytes) : Except FrameError Bytes := do
  let size ← encodeSize msg.length
  match defaultByteSlicePool.acquire size with
  | none => throw .panic
  | some bufSize => encodeFrame bufSize msgType msg

theorem sendFrame_eq (msgType : Nat) (msg : Bytes) :
    sendFrame msgType msg =
      if headerSize + msg.length ≤ 16 * 1024 * 1024 then .ok (frameOf (msgType, msg))
      else .error .panic := by
  by_cases hmax : maxMessageSize < msg.length
  · have hfit : ¬ headerSize + msg.length ≤ 16 * 1024 * 1024 := by
      rw [maxMessageSize] at hmax
      rw [headerSize]
      omega
    rw [sendFrame, encodeSize, if_pos hmax, if_neg hfit]
    rfl
  rw [sendFrame, encodeSize, if_neg hmax, ok_bind]
  by_cases hfit : headerSize + msg.length ≤ 16 * 1024 * 1024
  · obtain ⟨bufSize, hacquire⟩ := Option.isSome_iff_exists.mp
      ((acquire_default_isSome_iff (headerSize + msg.length)).mpr
        ⟨by rw [headerSize]; omega, hfit⟩)
    have hbuf : headerSize + msg.length ≤ bufSize := ByteSlicePool.acquire_le hacquire
    rw [hacquire, if_pos hfit]
    exact encodeFrame_eq (m := (msgType, msg)) (Nat.not_lt.mp hmax) hbuf
  · have hnone : defaultByteSlicePool.acquire (headerSize + msg.length) = none := by
      rw [← Option.not_isSome_iff_eq_none, acquire_default_isSome_iff]
      exact fun h => hfit h.2
    rw [hnone, if_neg hfit]
    rfl

/-- The message is written as one frame, or is refused without a panic when it is too large. -/
def SentOrRefused (msgType : Nat) (msg : Bytes) : Prop :=
  (msg.length ≤ maxMessageSize → sendFrame msgType msg = .ok (frameOf (msgType, msg))) ∧
    (maxMessageSize < msg.length → ∃ e, sendFrame msgType msg = .error e ∧ e ≠ .panic)

/-- Where the frame fits the pool's largest slice. -/
theorem sentOrRefused_iff (msgType : Nat) (msg : Bytes) :
    SentOrRefused msgType msg ↔ headerSize + msg.length ≤ 16 * 1024 * 1024 := by
  rw [SentOrRefused, sendFrame_eq]
  constructor
  · rintro ⟨hsmall, hlarge⟩
    by_contra hfit
    simp only [if_neg hfit] at hsmall hlarge
    rcases Nat.lt_or_ge maxMessageSize msg.length with hlt | hle
    · obtain ⟨e, he, hne⟩ := hlarge hlt
      cases he
      exact hne rfl
    · exact nomatch hsmall hle
  · intro hfit
    refine ⟨fun _ => if_pos hfit, fun hlt => ?_⟩
    rw [headerSize] at hfit
    rw [maxMessageSize] at hlt
    omega

/-- The largest message of the format panics, and so does one that is larger by a byte. -/
theorem largest_message_panics :
    sendFrame 1 (replicate maxMessageSize 0) = .error .panic ∧
      sendFrame 1 (replicate (maxMessageSize + 1) 0) = .error .panic := by
  rw [sendFrame_eq, sendFrame_eq, length_replicate, length_replicate]
  exact ⟨rfl, rfl⟩

end Babuza.Transport
