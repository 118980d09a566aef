import Babuza.Lib.Bytes
import Babuza.Utility.Allocator
import Mathlib.Data.UInt

/-!
# The metadata file of a snapshot

`Metadata.Encode` writes the size, the checksum and the marshalled metadata, `Metadata.Decode` reads
them back (`pkg/snapshot/fs/codec/metadata.go`). `Decode` asks the allocator for as many bytes as
the size field says, before anything is checked, and `Encode` returns nil when `Marshal` fails.
-/

namespace Babuza.Snapshot

open Lib Allocator List

abbrev FileTag := List Char

inductive SnapshotFileType
  | cluster
  | session
  | stateMachine
  | metadata
  | unknown (value : Int)
  deriving DecidableEq

structure SnapshotFileDesc where
  fileType : SnapshotFileType
  tag : FileTag
  fileSize : Int
  fileCrc64 : UInt64
  isExternal : Bool
  locationUri : List Char
  metadata : Bytes
  deriving DecidableEq

/-- Version, position and files of a snapshot. A map without entries arrives as nil. Configuration,
data and compression are only carried along. -/
structure SnapshotMetadata where
  version : Nat
  term : Nat
  index : Nat
  files : List SnapshotFileDesc
  deriving DecidableEq

structure MetadataCodec where
  marshal : SnapshotMetadata → Option Bytes
  unmarshal : Bytes → Option SnapshotMetadata

structure CodecConfig where
  codec : MetadataCodec
  crc64 : Bytes → UInt64
  pool : ByteSlicePool

inductive DecodeFailure
  | panic
  | failed
  deriving DecidableEq

namespace CodecConfig

/-- Size, checksum and data. -/
def frame (cfg : CodecConfig) (d : Bytes) : Bytes :=
  leBytes 8 d.length ++ leBytes 8 (cfg.crc64 d).toNat ++ d

/-- `Metadata.Encode`: what is written when it returns nil. `written k` is whether the `k`th `Write`
of the destination succeeds. -/
def encode (cfg : CodecConfig) (written : Nat → Bool) (m : SnapshotMetadata) : Except Unit Bytes :=
  match cfg.codec.marshal m with
  | none => .ok []
  | some d =>
    if !written 0 then .error ()
    else if !written 1 then .error ()
    else if !written 2 then .error ()
    else .ok (cfg.frame d)

end CodecConfig

/-- What `Metadata.Encode` writes if every `Write` succeeds. -/
def encodeMetadata (cfg : CodecConfig) (m : SnapshotMetadata) : Bytes :=
  (cfg.codec.marshal m).elim [] cfg.frame

def decodeMetadata (cfg : CodecConfig) (file : Bytes) : Except DecodeFailure SnapshotMetadata :=
  match readFull 8 file with
  | .error _ => .error .failed
  | .ok (size, rest) => match readFull 8 rest with
    | .error _ => .error .failed
    | .ok (crc, rest) =>
      -- as an `int` the size is negative from `2 ^ 63` on
      if 2 ^ 63 ≤ leNat size then .error .panic
      else match cfg.pool.acquire (leNat size) with
        | none => .error .panic
        | some _ => match readFull (leNat size) rest with
          | .error _ => .error .failed
          | .ok (data, _) =>
            if leNat crc ≠ (cfg.crc64 data).toNat then .error .failed
            else match cfg.codec.unmarshal data with
              | none => .error .failed
              | some m => .ok m

/-- The metadata can be marshalled and unmarshalled, and the allocator has a slice for it. -/
def CodecConfig.Reads (cfg : CodecConfig) (m : SnapshotMetadata) : Prop :=
  ∃ d, cfg.codec.marshal m = some d ∧ cfg.codec.unmarshal d = some m ∧ d.length < 2 ^ 63 ∧
    (cfg.pool.acquire d.length).isSome

variable {cfg : CodecConfig} {m : SnapshotMetadata}

theorem decode_frame {d : Bytes} (hsize : d.length < 2 ^ 63) (rest : Bytes) :
    decodeMetadata cfg (cfg.frame d ++ rest) = match cfg.pool.acquire d.length with
      | none => .error .panic
      | some _ => match cfg.codec.unmarshal d with
        | none => .error .failed
        | some m => .ok m := by
  have hlen : leNat (leBytes 8 d.length) = d.length := leNat_leBytes (by omega)
  have hcrc : leNat (leBytes 8 (cfg.crc64 d).toNat) = (cfg.crc64 d).toNat :=
    leNat_leBytes (UInt64.toNat_lt _)
  have hfirst : ∀ (n : Nat) (rest : Bytes), readFull 8 (leBytes 8 n ++ rest) =
      .ok (leBytes 8 n, rest) := by
    intro n rest
    have h := readFull_append (leBytes 8 n) rest
    rwa [leBytes_length] at h
  unfold decodeMetadata CodecConfig.frame
  simp only [append_assoc, hfirst, hlen, hcrc, readFull_append, if_neg (not_le.mpr hsize), ne_eq,
    not_true_eq_false, if_false]

theorem decode_encode (h : cfg.Reads m) (rest : Bytes) :
    decodeMetadata cfg (encodeMetadata cfg m ++ rest) = .ok m := by
  obtain ⟨d, hmarshal, hunmarshal, hsize, hpool⟩ := h
  obtain ⟨level, hlevel⟩ := Option.isSome_iff_exists.mp hpool
  rw [encodeMetadata, hmarshal, Option.elim_some, decode_frame hsize, hlevel, hunmarshal]

theorem decode_writeAt (h : cfg.Reads m) (old : Bytes) :
    decodeMetadata cfg (writeAt old 0 (encodeMetadata cfg m)) = .ok m := by
  rw [writeAt_zero]
  exact decode_encode h _

/-- The generated code, with the allocator of the package. -/
structure MetadataFormat extends CodecConfig where
  pool_eq : pool = defaultByteSlicePool
  unmarshal_marshal : ∀ {m d}, codec.marshal m = some d → codec.unmarshal d = some m
  marshal_length : ∀ {m d}, codec.marshal m = some d → d.length < 2 ^ 63

namespace MetadataFormat

def RoundTrips (f : MetadataFormat) (m : SnapshotMetadata) : Prop :=
  ∀ file, f.encode (fun _ => true) m = .ok file → decodeMetadata f.toCodecConfig file = .ok m

/-- A failure, of `Marshal` or of a `Write`, is reported. -/
def Reports (f : MetadataFormat) (written : Nat → Bool) (m : SnapshotMetadata) : Prop :=
  (f.codec.marshal m = none ∨ ∃ k < 3, written k = false) → f.encode written m = .error ()

/-- A size for which the allocator has a slice. -/
def Allocatable (size : Nat) : Prop := 0 < size ∧ size ≤ 16 * 1024 * 1024

variable (f : MetadataFormat)

theorem acquire_isSome_iff {size : Nat} : (f.pool.acquire size).isSome ↔ Allocatable size := by
  rw [f.pool_eq, acquire_default_isSome_iff, Allocatable, Nat.pos_iff_ne_zero]

theorem decode_eq_panic_iff (file : Bytes) :
    decodeMetadata f.toCodecConfig file = .error .panic ↔
      16 ≤ file.length ∧ ¬ Allocatable (leNat (file.take 8)) := by
  by_cases hlen : 16 ≤ file.length
  · have hrest : 8 ≤ (file.drop 8).length := by
      rw [length_drop]
      omega
    rw [decodeMetadata, readFull_of_le (by omega)]
    simp only [readFull_of_le hrest]
    by_cases hsize : 2 ^ 63 ≤ leNat (file.take 8)
    · rw [if_pos hsize]
      exact iff_of_true rfl ⟨hlen, fun h => absurd h.2 (by omega)⟩
    rw [if_neg hsize, ← f.acquire_isSome_iff]
    cases hacquire : f.pool.acquire (leNat (file.take 8)) with
    | none => simp [hlen]
    | some level =>
      simp only [Option.isSome_some, not_true_eq_false, and_false, iff_false]
      intro h
      split at h
      · cases h
      split at h
      · cases h
      · split at h <;> cases h
  · refine iff_of_false (fun h => ?_) fun h => hlen h.1
    rw [decodeMetadata] at h
    split at h
    · cases h
    rename_i hfirst
    obtain ⟨-, hout⟩ := readFull_eq_ok hfirst
    cases hout
    split at h
    · cases h
    rename_i hsecond
    have hrest := (readFull_eq_ok hsecond).1
    rw [length_drop] at hrest
    omega

theorem encode_of_some {d : Bytes} (hmarshal : f.codec.marshal m = some d) :
    f.encode (fun _ => true) m = .ok (f.frame d) := by
  simp [CodecConfig.encode, hmarshal]

/-- Metadata for which the allocator has no slice is encoded, and not decoded. -/
theorem decode_frame_eq_panic {d : Bytes} (hmarshal : f.codec.marshal m = some d)
    (h : ¬ Allocatable d.length) : decodeMetadata f.toCodecConfig (f.frame d) = .error .panic := by
  have hlength := f.marshal_length hmarshal
  refine (f.decode_eq_panic_iff _).mpr ⟨by simp [CodecConfig.frame]; omega, ?_⟩
  rwa [CodecConfig.frame, append_assoc, take_append_of_le_length (by simp),
    take_of_length_le (by simp), leNat_leBytes (by omega)]

theorem roundTrips_iff (m : SnapshotMetadata) :
    f.RoundTrips m ↔ ∃ d, f.codec.marshal m = some d ∧ Allocatable d.length := by
  cases hmarshal : f.codec.marshal m with
  | none =>
    refine iff_of_false (fun h => ?_) (by simp)
    have hdecode := h [] (by simp [CodecConfig.encode, hmarshal])
    cases hdecode
  | some d =>
    constructor
    · intro h
      refine ⟨d, rfl, by_contra fun hnot => ?_⟩
      cases (f.decode_frame_eq_panic hmarshal hnot).symm.trans (h _ (f.encode_of_some hmarshal))
    · rintro ⟨_, hd, hsize⟩ file hfile
      cases hd
      cases (f.encode_of_some hmarshal).symm.trans hfile
      have hreads : f.Reads m := ⟨d, hmarshal, f.unmarshal_marshal hmarshal,
        f.marshal_length hmarshal, f.acquire_isSome_iff.mpr hsize⟩
      simpa [encodeMetadata, hmarshal] using decode_encode hreads []

theorem reports_of_some {written : Nat → Bool} {d : Bytes}
    (hmarshal : f.codec.marshal m = some d) : f.Reports written m := by
  rintro (hnone | ⟨k, hk, hfail⟩)
  · rw [hmarshal] at hnone
    cases hnone
  · rw [CodecConfig.encode, hmarshal]
    obtain rfl | rfl | rfl : k = 0 ∨ k = 1 ∨ k = 2 := by omega
    all_goals simp [hfail]

/-- The format is read back, its failures are reported and a file is decoded without a panic,
exactly when the metadata can be marshalled and the allocator has a slice for the sizes. -/
theorem metadata_codec_iff (written : Nat → Bool) (m : SnapshotMetadata) (file : Bytes) :
    (f.RoundTrips m ∧ f.Reports written m ∧
        decodeMetadata f.toCodecConfig file ≠ .error .panic) ↔
      (∃ d, f.codec.marshal m = some d ∧ Allocatable d.length) ∧
        (file.length < 16 ∨ Allocatable (leNat (file.take 8))) := by
  rw [f.roundTrips_iff, ne_eq, f.decode_eq_panic_iff, not_and_or, not_le, not_not]
  constructor
  · rintro ⟨hsize, -, hfile⟩
    exact ⟨hsize, hfile⟩
  · rintro ⟨⟨d, hmarshal, hsize⟩, hfile⟩
    exact ⟨⟨d, hmarshal, hsize⟩, f.reports_of_some hmarshal, hfile⟩

/-- A file of zeros, and metadata of more than 16 MiB, which `Encode` writes without an error. -/
theorem codec_panics :
    Nonempty MetadataFormat ∧
    (∀ f : MetadataFormat, decodeMetadata f.toCodecConfig (zeros 16) = .error .panic) ∧
    ∀ (f : MetadataFormat) (m : SnapshotMetadata) (d : Bytes), f.codec.marshal m = some d →
      16 * 1024 * 1024 < d.length → ∃ file, f.encode (fun _ => true) m = .ok file ∧
        decodeMetadata f.toCodecConfig file = .error .panic := by
  refine ⟨⟨⟨⟨⟨fun _ => none, fun _ => none⟩, fun _ => 0, _⟩, rfl, nofun, nofun⟩⟩, ?_, ?_⟩
  · intro f
    exact (f.decode_eq_panic_iff _).mpr ⟨by decide, fun h => absurd h.1 (by decide)⟩
  · intro f m d hmarshal hlarge
    exact ⟨_, f.encode_of_some hmarshal,
      f.decode_frame_eq_panic hmarshal fun h => absurd h.2 (by omega)⟩

end MetadataFormat

end Babuza.Snapshot
