import Babuza.Babuzawal.Native
import Babuza.Babuzawal.Segments

/-!
# Replaying arbitrary bytes

The size and the type of a record come from its header before any checksum has been looked at. The
memory pool panics for a size that it cannot serve, and the handler reads four bytes of the body of
a checksum record, however long it is. All other bytes end in a result or an error. A repair cuts
the last file behind the records that were accepted, and the second pass over it ends cleanly.
-/

namespace Babuza.Babuzawal

open Lib Allocator Walbase List

/-! ## Headers -/

/-- The header asks for no more than the default memory pool has, and the body of a complete
checksum record has four bytes. -/
def CalmHeader (stream : Bytes) : Prop :=
  HasRecord stream → nextReadSize stream ≤ walMaxEntryBufferSize ∧
    (headerLogType stream = LogType.crc.code → headerSize + nextReadSize stream ≤ stream.length →
      4 ≤ headerLogSize stream)

instance (stream : Bytes) : Decidable (CalmHeader stream) :=
  inferInstanceAs (Decidable (_ → _ ∧ (_ → _ → _)))

section Decode

variable {pool : ByteSlicePool} {stream : Bytes}

theorem calmHeader_iff (stream : Bytes) :
    CalmHeader stream ↔ decode defaultMemPool stream ≠ .error .panic ∧
      ∀ d, decode defaultMemPool stream = .ok d → d.logType = LogType.crc.code →
        4 ≤ d.logBuf.length := by
  have hnone : defaultMemPool.acquire (nextReadSize stream) = none ↔
      ¬ (nextReadSize stream ≠ 0 ∧ nextReadSize stream ≤ walMaxEntryBufferSize) := by
    rw [← acquire_defaultMemPool_isSome_iff, Option.not_isSome_iff_eq_none]
  unfold CalmHeader
  by_cases hrecord : HasRecord stream
  · simp only [hrecord, true_imp_iff]
    constructor
    · rintro ⟨hsize, hcrc⟩
      refine ⟨?_, fun d hd htype => ?_⟩
      · rw [decode_of_hasRecord hrecord, if_neg (by rw [hnone]; omega)]
        split <;> simp
      · obtain ⟨-, -, hcomplete, rfl⟩ := decode_eq_ok hd
        have hfour := hcrc htype hcomplete
        simp only [recordAt, length_take, length_drop]
        rw [nextReadSize] at hcomplete
        omega
    · rintro ⟨hpanic, hcrc⟩
      rw [decode_of_hasRecord hrecord] at hpanic hcrc
      have hpool : ¬ (nextReadSize stream ≠ 0 ∧
          defaultMemPool.acquire (nextReadSize stream) = none) := fun h => hpanic (if_pos h)
      rw [if_neg hpool] at hcrc
      refine ⟨?_, fun htype hcomplete => ?_⟩
      · rw [hnone] at hpool
        omega
      · have hfour := hcrc _ (if_pos hcomplete) htype
        simp only [recordAt, length_take] at hfour
        omega
  · simp only [hrecord, false_imp_iff, true_iff]
    rcases decode_of_not_hasRecord defaultMemPool hrecord with heq | heq
    all_goals
      rw [heq]
      exact ⟨by simp, fun d hd => by cases hd⟩

theorem decode_append {d : Decoded} (h : decode pool stream = .ok d) :
    ∃ front, stream = front ++ d.rest ∧ front.length = d.logSizeWithPadding ∧
      ∀ rest, decode pool (front ++ rest) = .ok { d with rest := rest } := by
  obtain ⟨⟨hlen, hspace⟩, hpool, hcomplete, rfl⟩ := decode_eq_ok h
  have hfront : (stream.take (headerSize + nextReadSize stream)).length =
      headerSize + nextReadSize stream := by
    rw [length_take, Nat.min_eq_left hcomplete]
  refine ⟨stream.take (headerSize + nextReadSize stream), ?_, hfront, fun rest => ?_⟩
  · exact (take_append_drop _ _).symm
  · have hbytes : ∀ n ≤ headerSize,
        (stream.take (headerSize + nextReadSize stream) ++ rest).take n = stream.take n := by
      intro n hn
      rw [take_append_of_le_length (by rw [hfront]; omega), take_take,
        Nat.min_eq_left (by omega)]
    have hfour := hbytes 4 (by decide)
    have hheader := hbytes headerSize (Nat.le_refl _)
    have hsize : headerLogSize (stream.take (headerSize + nextReadSize stream) ++ rest) =
        headerLogSize stream := by rw [headerLogSize, hfour, headerLogSize]
    have hpadding : headerPadding (stream.take (headerSize + nextReadSize stream) ++ rest) =
        headerPadding stream := by rw [headerPadding, hfour, headerPadding]
    have htype : headerLogType (stream.take (headerSize + nextReadSize stream) ++ rest) =
        headerLogType stream := by rw [headerLogType, hfour, headerLogType]
    have hcrc : headerCrc (stream.take (headerSize + nextReadSize stream) ++ rest) =
        headerCrc stream := by rw [headerCrc, hheader, headerCrc]
    have hnext : nextReadSize (stream.take (headerSize + nextReadSize stream) ++ rest) =
        nextReadSize stream := by rw [nextReadSize, hsize, hpadding, nextReadSize]
    have hrecord : HasRecord (stream.take (headerSize + nextReadSize stream) ++ rest) := by
      refine ⟨?_, by rwa [hsize, hpadding, hcrc]⟩
      rw [length_append, hfront]
      omega
    have hbody : ((stream.take (headerSize + nextReadSize stream) ++ rest).drop headerSize).take
        (headerLogSize stream) = (stream.drop headerSize).take (headerLogSize stream) := by
      rw [drop_append_of_le_length (by rw [hfront]; omega), drop_take,
        Nat.add_sub_cancel_left, take_append_of_le_length, take_take,
        Nat.min_eq_left (headerLogSize_le stream)]
      rw [length_take, length_drop, nextReadSize]
      rw [nextReadSize] at hcomplete
      omega
    rw [decode_of_hasRecord hrecord, hnext, if_neg hpool, if_pos]
    · simp only [recordAt, htype, hsize, hnext, hcrc, hbody, drop_left' hfront]
    · rw [length_append, hfront]
      omega

end Decode

/-! ## The handler -/

variable {capacity fuel snapIndex : Nat} {r r' : ReplayResult} {type : EntryType} {logBuf : Bytes}

section Handler

variable {codecs : RaftCodecs} {snapshotIndex : Nat} {p q : Parser} {d : Decoded} {e : WalError}

theorem decodeEntry_error (h : r.decodeEntry snapshotIndex type logBuf capacity = .error e) :
    e ≠ .panic := by
  unfold ReplayResult.decodeEntry at h
  dsimp only at h
  split at h
  · split at h <;> cases h
    simp
  · split at h <;> cases h
    simp
  · cases h
    simp

theorem decodeEntry_ok (h : r.decodeEntry snapshotIndex type logBuf capacity = .ok r') :
    r'.lastValidLogOffset = r.lastValidLogOffset ∧
      r'.entryCollection.clearEntries = r.entryCollection.clearEntries := by
  unfold ReplayResult.decodeEntry at h
  dsimp only at h
  split at h
  next entries hentries =>
    split at h <;> cases h
    exact ⟨rfl, by rw [hentries]; rfl⟩
  next entries hentries =>
    split at h <;> cases h
    exact ⟨rfl, by rw [hentries]; rfl⟩
  · cases h

/-- The handler of a record's body leaves the position alone and does not panic. -/
def KeepsPosition (p : Parser) : Except WalError Parser → Prop
  | .error e => e ≠ .panic
  | .ok q => q.result.lastValidLogOffset = p.result.lastValidLogOffset ∧
      q.result.entryCollection.clearEntries = p.result.entryCollection.clearEntries

theorem handleEntry_keepsPosition (p : Parser) (type : EntryType) (d : Decoded) :
    KeepsPosition p (p.handleEntry snapshotIndex type d) := by
  unfold Parser.handleEntry
  split
  · exact ⟨rfl, rfl⟩
  · split
    · cases hdecode : p.result.decodeEntry snapshotIndex type d.logBuf
          (d.logSizeWithPadding - headerSize) with
      | error e => exact decodeEntry_error hdecode
      | ok r => exact decodeEntry_ok hdecode
    · simp [KeepsPosition]

theorem unmarshalError_ne (endsEarly : Bool) : Parser.unmarshalError endsEarly ≠ .panic := by
  cases endsEarly <;> simp [Parser.unmarshalError]

theorem handleBody_keepsPosition (codecs : RaftCodecs) (snapshotIndex : Nat) (p : Parser)
    (d : Decoded) : KeepsPosition p (p.handleBody codecs snapshotIndex d) := by
  unfold Parser.handleBody
  split
  · split
    · exact unmarshalError_ne _
    · exact ⟨rfl, rfl⟩
  · exact handleEntry_keepsPosition p _ d
  · exact handleEntry_keepsPosition p _ d
  · exact handleEntry_keepsPosition p _ d
  · exact ⟨rfl, rfl⟩
  · split
    · exact unmarshalError_ne _
    · exact ⟨rfl, rfl⟩
  · split
    · exact unmarshalError_ne _
    · exact ⟨rfl, rfl⟩
  all_goals simp [KeepsPosition]

structure Handled (p : Parser) (d : Decoded) (out : Parser × Option WalError) : Prop where
  offset_eq : out.1.result.lastValidLogOffset =
    p.result.lastValidLogOffset + if out.2 = none then d.logSizeWithPadding else 0
  clear_eq : out.1.result.entryCollection.clearEntries = p.result.entryCollection.clearEntries
  panic_iff : out.2 = some .panic ↔ d.logType = LogType.crc.code ∧ d.logBuf.length < 4

theorem logHandler_handled (codecs : RaftCodecs) (snapshotIndex : Nat) (p : Parser) (d : Decoded) :
    Handled p d (p.logHandler codecs snapshotIndex d) := by
  unfold Parser.logHandler
  by_cases htype : d.logType = LogType.crc.code
  · rw [if_pos htype]
    by_cases hshort : d.logBuf.length < 4
    · rw [if_pos hshort]
      exact ⟨rfl, rfl, by simp [htype, hshort]⟩
    · rw [if_neg hshort]
      dsimp only
      split
      all_goals exact ⟨rfl, rfl, by simp [hshort]⟩
  · rw [if_neg htype]
    dsimp only
    split
    · exact ⟨rfl, rfl, by simp [htype]⟩
    · have hbody := handleBody_keepsPosition codecs snapshotIndex
        (p.setCrc (crc32Update p.result.lastValidLogCrc d.logBuf)) d
      split
      next e he =>
        rw [he] at hbody
        have hne : e ≠ .panic := hbody
        exact ⟨rfl, rfl, by simp [htype, hne]⟩
      next q hq =>
        rw [hq] at hbody
        refine ⟨?_, hbody.2, by simp [htype]⟩
        exact congrArg (· + d.logSizeWithPadding) hbody.1

end Handler

variable {dir : Directory} {desc : LogFileDesc} {e : WalError}

theorem getLogFileReader_error (h : getLogFileReader dir desc = .error e) : e ≠ .panic := by
  unfold getLogFileReader at h
  split at h
  · cases h
    simp
  next file _ =>
    unfold openLogFileHandle at h
    dsimp only at h
    split at h
    · cases h
      simp
    · split at h
      · cases h
        simp
      · split at h <;> cases h
        simp

/-! ## The places that are reached -/

def Parser.reached (codecs : RaftCodecs) (pool : ByteSlicePool) (snapshotIndex : Nat) :
    (fuel : Nat) → Parser → Bytes → List Bytes
  | 0, _, _ => []
  | fuel + 1, p, stream =>
    stream :: match decode pool stream with
      | .error _ => []
      | .ok d =>
        match p.logHandler codecs snapshotIndex d with
        | (_, some _) => []
        | (q, none) => reached codecs pool snapshotIndex fuel q d.rest

def Player.reached (codecs : RaftCodecs) (pool : ByteSlicePool) (snapshotIndex : Nat)
    (dir : Directory) : Parser → List LogFileDesc → List Bytes
  | _, [] => []
  | p, desc :: files =>
    match getLogFileReader dir desc with
    | .error _ => []
    | .ok stream =>
      (p.start desc).reached codecs pool snapshotIndex (stream.length + 1) stream ++
        match p.parse codecs pool snapshotIndex desc stream with
        | (q, .eof) => reached codecs pool snapshotIndex dir q files
        | _ => []

section Loop

variable {codecs : RaftCodecs} {snapshotIndex : Nat} {p q : Parser}

variable {stream : Bytes}

theorem parseLoop_panic_iff (h : stream.length < fuel) :
    (Parser.parseLoop codecs defaultMemPool snapshotIndex fuel p stream).2 ≠ .panic ↔
      ∀ t ∈ p.reached codecs defaultMemPool snapshotIndex fuel stream, CalmHeader t := by
  induction fuel generalizing p stream with
  | zero => exact absurd h (Nat.not_lt_zero _)
  | succ fuel ih =>
    rw [Parser.parseLoop, Parser.reached, forall_mem_cons, calmHeader_iff]
    cases hdecode : decode defaultMemPool stream with
    | error e => simp
    | ok d =>
      have hhandled := logHandler_handled codecs snapshotIndex p d
      have hshort := decode_rest_length hdecode
      cases hout : p.logHandler codecs snapshotIndex d with
      | mk q err =>
        rw [hout] at hhandled
        have hpanic := hhandled.panic_iff
        cases err with
        | some e =>
          simp only [Option.some.injEq] at hpanic
          simp only [hout, ne_eq, hpanic, reduceCtorEq, not_false_eq_true, Except.ok.injEq,
            true_and, forall_eq', not_mem_nil, false_imp_iff, implies_true, and_true, not_and,
            not_lt]
        | none =>
          have hcalm : d.logType = LogType.crc.code → 4 ≤ d.logBuf.length :=
            fun htype => Nat.not_lt.mp fun hlt => absurd (hpanic.mpr ⟨htype, hlt⟩) (by simp)
          have hrest : d.rest.length < fuel := by omega
          simp only [hout, ih hrest, ne_eq, reduceCtorEq, not_false_eq_true, Except.ok.injEq,
            true_and, forall_eq', and_iff_right hcalm]

theorem parseLoop_accepted (pool : ByteSlicePool)
    (h : Parser.parseLoop codecs pool snapshotIndex fuel p stream = (q, e)) :
    q.result.entryCollection.clearEntries = p.result.entryCollection.clearEntries ∧
      ∃ n ≤ stream.length, q.result.lastValidLogOffset = p.result.lastValidLogOffset + n ∧
        ∃ q', Parser.parseLoop codecs pool snapshotIndex fuel p (stream.take n) = (q', .eof) := by
  induction fuel generalizing p stream with
  | zero =>
    cases h
    exact ⟨rfl, 0, Nat.zero_le _, rfl, _, rfl⟩
  | succ fuel ih =>
    have hnil : Parser.parseLoop codecs pool snapshotIndex (fuel + 1) p (stream.take 0) =
        (p, .eof) := rfl
    rw [Parser.parseLoop] at h
    cases hdecode : decode pool stream with
    | error e =>
      rw [hdecode] at h
      cases h
      exact ⟨rfl, 0, Nat.zero_le _, rfl, _, hnil⟩
    | ok d =>
      rw [hdecode] at h
      have hhandled := logHandler_handled codecs snapshotIndex p d
      cases hout : p.logHandler codecs snapshotIndex d with
      | mk q₁ err =>
        rw [hout] at hhandled
        simp only [hout] at h
        cases err with
        | some e =>
          cases h
          exact ⟨hhandled.clear_eq, 0, Nat.zero_le _, hhandled.offset_eq, p, hnil⟩
        | none =>
          obtain ⟨hclear, n, hn, hoffset, q', hq'⟩ := ih h
          obtain ⟨front, hstream, hlength, hfront⟩ := decode_append hdecode
          refine ⟨hclear.trans hhandled.clear_eq, front.length + n, ?_, ?_, q', ?_⟩
          · rw [hstream, length_append]
            omega
          · rw [hoffset, hhandled.offset_eq, if_pos rfl, hlength, Nat.add_assoc]
          · have htake : stream.take (front.length + n) = front ++ d.rest.take n := by
              rw [hstream, take_length_add_append]
            rw [htake, Parser.parseLoop, hfront]
            simp only [show p.logHandler codecs snapshotIndex { d with rest := d.rest.take n } =
              (q₁, none) from hout]
            exact hq'

variable {pool : ByteSlicePool} (files : List LogFileDesc)

theorem replayFiles_cons (hreader : getLogFileReader dir desc = .ok stream)
    (hparse : p.parse codecs pool snapshotIndex desc stream = (q, e)) :
    Player.replayFiles codecs pool snapshotIndex dir p (desc :: files) =
      if e = .eof then Player.replayFiles codecs pool snapshotIndex dir q files
      else (q, some (desc, e)) := by
  rw [Player.replayFiles, hreader]
  simp only [hparse]
  cases e <;> rfl

theorem reached_cons (hreader : getLogFileReader dir desc = .ok stream)
    (hparse : p.parse codecs pool snapshotIndex desc stream = (q, e)) :
    Player.reached codecs pool snapshotIndex dir p (desc :: files) =
      (p.start desc).reached codecs pool snapshotIndex (stream.length + 1) stream ++
        if e = .eof then Player.reached codecs pool snapshotIndex dir q files else [] := by
  rw [Player.reached, hreader]
  simp only [hparse]
  cases e <;> rfl

theorem replayFiles_panic_iff (dir : Directory) (p : Parser) (files : List LogFileDesc) :
    (Player.replayFiles codecs defaultMemPool snapshotIndex dir p files).2.map Prod.snd ≠
        some .panic ↔
      ∀ t ∈ Player.reached codecs defaultMemPool snapshotIndex dir p files, CalmHeader t := by
  induction files generalizing p with
  | nil => simp [Player.replayFiles, Player.reached]
  | cons desc files ih =>
    cases hreader : getLogFileReader dir desc with
    | error e =>
      have hne : e ≠ .panic := getLogFileReader_error hreader
      simp [Player.replayFiles, Player.reached, hreader, hne]
    | ok stream =>
      cases hparse : p.parse codecs defaultMemPool snapshotIndex desc stream with
      | mk q e =>
        have hloop : e ≠ .panic ↔ ∀ t ∈ (p.start desc).reached codecs defaultMemPool snapshotIndex
            (stream.length + 1) stream, CalmHeader t := by
          rw [← parseLoop_panic_iff (Nat.lt_succ_self _)]
          change _ ↔ (p.parse codecs defaultMemPool snapshotIndex desc stream).2 ≠ .panic
          rw [hparse]
        rw [replayFiles_cons files hreader hparse, reached_cons files hreader hparse,
          forall_mem_append, ← hloop]
        by_cases heof : e = .eof
        · rw [if_pos heof, if_pos heof, ih, heof]
          simp
        · rw [if_neg heof, if_neg heof]
          simp

theorem replayFiles_eq_some {files : List LogFileDesc}
    (h : Player.replayFiles codecs pool snapshotIndex dir p files = (q, some (desc, e)))
    (hreader : ∀ f ∈ files, ∃ stream, getLogFileReader dir f = .ok stream) :
    ∃ front behind p₁ stream, files = front ++ desc :: behind ∧
      getLogFileReader dir desc = .ok stream ∧
      p₁.parse codecs pool snapshotIndex desc stream = (q, e) ∧ e ≠ .eof ∧
      p₁.result.entryCollection.clearEntries = p.result.entryCollection.clearEntries ∧
      ∀ dir' rest, (∀ f ∈ front, getLogFileReader dir' f = getLogFileReader dir f) →
        Player.replayFiles codecs pool snapshotIndex dir' p (front ++ rest) =
          Player.replayFiles codecs pool snapshotIndex dir' p₁ rest := by
  induction files generalizing p with
  | nil => cases h
  | cons f files ih =>
    obtain ⟨⟨stream, hstream⟩, hreaders⟩ := forall_mem_cons.mp hreader
    cases hparse : p.parse codecs pool snapshotIndex f stream with
    | mk q₁ e₁ =>
      rw [replayFiles_cons files hstream hparse] at h
      by_cases heof : e₁ = .eof
      · rw [if_pos heof] at h
        obtain ⟨front, behind, p₁, stream', rfl, hreader', hparse', hne, hclear, hpass⟩ :=
          ih h hreaders
        refine ⟨f :: front, behind, p₁, stream', rfl, hreader', hparse', hne, ?_, ?_⟩
        · exact hclear.trans (parseLoop_accepted pool hparse).1
        · intro dir' rest hsame
          obtain ⟨hf, hfront⟩ := forall_mem_cons.mp hsame
          rw [cons_append, replayFiles_cons _ (hf.trans hstream) hparse, if_pos heof]
          exact hpass dir' rest hfront
      · rw [if_neg heof] at h
        cases h
        exact ⟨[], files, p, stream, rfl, hstream, hparse, heof, rfl, fun _ _ _ => rfl⟩

end Loop

/-! ## The second pass -/

theorem validLogFiles_sublist {nextSeq : Nat} {files found read : List LogFileDesc}
    (h : validLogFiles snapIndex files nextSeq found = .ok read) :
    read.Sublist (files.reverse ++ found) := by
  induction files generalizing nextSeq found with
  | nil =>
    cases h
    exact List.Sublist.refl _
  | cons f files ih =>
    rw [validLogFiles] at h
    rw [reverse_cons, append_assoc, singleton_append]
    split at h
    · cases h
    · split at h
      · cases h
        exact sublist_append_right _ _
      · exact ih h

theorem create_logFiles {pool : ByteSlicePool} {p : Player}
    (h : Player.create dir snapIndex pool = .ok p) :
    p.memPool = pool ∧ p.startSnapshotIndex = snapIndex ∧
      (p.logFiles.map LogFileDesc.getLogFileName).Nodup := by
  obtain ⟨files, hfiles, hpure⟩ := bind_eq_ok.mp h
  cases hpure
  have hsub := validLogFiles_sublist hfiles
  rw [reverse_reverse, append_nil] at hsub
  have hnodup : (logFiles dir).Nodup :=
    (perm_insertionSort _ _).nodup_iff.mpr (parsed_nodup dir)
  have hname : ∀ f ∈ files, f = ⟨f.id, f.startLogIndex, false⟩ := by
    intro f hf
    obtain ⟨name, -, hparse⟩ := mem_filterMap.mp
      ((perm_insertionSort _ _).mem_iff.mp (hsub.subset hf))
    obtain ⟨-, htemp⟩ := parseLogFileName_eq_some.mp hparse
    rw [← htemp]
  refine ⟨rfl, rfl, (hnodup.sublist hsub).map_on fun f hf g hg heq => ?_⟩
  rw [hname f hf, hname g hg]
  rw [LogFileDesc.getLogFileName, LogFileDesc.getLogFileName, FileName.mk.injEq] at heq
  rw [heq.2.1, heq.2.2]

theorem repairLogFile_lookup {rest : Bytes} (offset : Nat)
    (h : dir.lookup desc.getLogFileName = some (logFileHeader ++ rest)) :
    ∃ dir', repairLogFile dir desc offset = .ok dir' ∧
      dir'.lookup desc.getLogFileName =
        some ((zeroExtend (logFileHeader ++ rest) offset).take offset) ∧
      ∀ f : LogFileDesc, f.getLogFileName ≠ desc.getLogFileName →
        getLogFileReader dir' f = getLogFileReader dir f := by
  refine ⟨(dir.insert ⟨.broken, desc.id, desc.startLogIndex⟩ (logFileHeader ++ rest)).insert
    desc.getLogFileName ((zeroExtend (logFileHeader ++ rest) offset).take offset), ?_, ?_, ?_⟩
  · simp only [repairLogFile, h, openLogFileHandle_header]
    rfl
  · exact AList.lookup_insert _
  · intro f hf
    have hbroken : f.getLogFileName ≠ ⟨.broken, desc.id, desc.startLogIndex⟩ :=
      fun heq => by cases congrArg FileName.kind heq
    rw [getLogFileReader, AList.lookup_insert_ne hf, AList.lookup_insert_ne hbroken,
      ← getLogFileReader]

section Replay

variable {codecs : RaftCodecs} {p : Player} {c : EntryCollection} {q : Parser}
  {lastDesc : LogFileDesc}

/-- After a repair of the last file the second pass ends cleanly, or with the error of the first one
if that came from another file. -/
theorem second_pass (hc : c.IsEmpty) (hnames : (p.logFiles.map LogFileDesc.getLogFileName).Nodup)
    (hheader : ∀ f ∈ p.logFiles, ∃ rest, dir.lookup f.getLogFileName = some (logFileHeader ++ rest))
    (hfirst : Player.replayFiles codecs p.memPool p.startSnapshotIndex dir
      ⟨.newReplayResult c, false⟩ p.logFiles = (q, some (desc, e)))
    (hlast : p.logFiles.getLast? = some lastDesc) :
    ∃ dir', repairLogFile dir lastDesc q.result.lastValidLogOffset = .ok dir' ∧
      ((p.replayOnce codecs dir' q.result.reset).2 = none ∨
        (p.replayOnce codecs dir' q.result.reset).2 = some (desc, e)) := by
  have hreader : ∀ f ∈ p.logFiles, ∃ stream, getLogFileReader dir f = .ok stream := by
    intro f hf
    obtain ⟨rest, hrest⟩ := hheader f hf
    exact ⟨rest, getLogFileReader_eq hrest⟩
  obtain ⟨front, behind, p₁, stream, hfiles, hstream, hparse, hne, hclear, hpass⟩ :=
    replayFiles_eq_some hfirst hreader
  obtain ⟨hclear', n, hn, hoffset, q', hq'⟩ := parseLoop_accepted p.memPool hparse
  obtain ⟨rest, hrest⟩ := hheader lastDesc (mem_of_getLast? hlast)
  obtain ⟨dir', hrepair, hlookup, hother⟩ := repairLogFile_lookup
    q.result.lastValidLogOffset hrest
  refine ⟨dir', hrepair, ?_⟩
  have hreset : q.result.reset = .newReplayResult c := by
    rw [ReplayResult.reset, hclear', show (p₁.start desc).result.entryCollection =
      p₁.result.entryCollection from rfl, hclear]
    exact congrArg _ hc
  rw [hfiles, map_append, map_cons, nodup_append, nodup_cons] at hnames
  obtain ⟨-, ⟨hdesc, -⟩, hdisjoint⟩ := hnames
  rw [hfiles, getLast?_append_cons] at hlast
  have hfront : ∀ f ∈ front, getLogFileReader dir' f = getLogFileReader dir f := by
    intro f hf
    refine hother f (hdisjoint _ (mem_map_of_mem hf) _ ?_)
    exact mem_map_of_mem (mem_of_getLast? hlast)
  rw [hreset, Player.replayOnce]
  simp only
  rw [hfiles, hpass dir' _ hfront]
  cases behind with
  | nil =>
    obtain rfl : desc = lastDesc := by simpa using hlast
    have hstart : q.result.lastValidLogOffset = logFileHeaderLength + n := hoffset
    cases hstream.symm.trans (getLogFileReader_eq hrest)
    have hcut : getLogFileReader dir' desc = .ok (stream.take n) := by
      apply getLogFileReader_eq
      rw [hlookup, hstart, zeroExtend, take_append_of_le_length, ← logFileHeader_length,
        take_length_add_append]
      rw [length_append, logFileHeader_length]
      omega
    have hparse' : p₁.parse codecs p.memPool p.startSnapshotIndex desc (stream.take n) =
        (q', .eof) := by
      rw [← hq']
      refine Parser.parseLoop_fuel (Nat.lt_succ_self _) ?_
      rw [length_take]
      omega
    rw [replayFiles_cons [] hcut hparse', if_pos rfl]
    exact .inl rfl
  | cons g behind =>
    have hlater : lastDesc.getLogFileName ∈ (g :: behind).map LogFileDesc.getLogFileName := by
      rw [getLast?_cons_cons] at hlast
      exact mem_map_of_mem (mem_of_getLast? hlast)
    have hsame := hother desc fun heq => hdesc (heq ▸ hlater)
    rw [replayFiles_cons _ (hsame.trans hstream) hparse, if_neg hne]
    exact .inr rfl

/-- The loop of the parser ends by itself, and a replay of any bytes behind the headers of the files
ends without a panic exactly if every record that it comes to has a header that the memory pool can
serve, and a checksum record a checksum. -/
theorem replay_ne_panic_iff (hc : c.IsEmpty)
    (hcreate : Player.create dir snapIndex defaultMemPool = .ok p)
    (hheader : ∀ f ∈ p.logFiles, ∃ rest, dir.lookup f.getLogFileName = some (logFileHeader ++ rest))
    (repair : Bool) :
    (∀ (q : Parser) (stream : Bytes) (fuel : Nat), stream.length < fuel →
      Parser.parseLoop codecs defaultMemPool snapIndex fuel q stream =
        Parser.parseLoop codecs defaultMemPool snapIndex (stream.length + 1) q stream) ∧
    ((p.replay codecs dir (.newReplayResult c) repair).2.2 ≠ some .panic ↔
      ∀ t ∈ Player.reached codecs defaultMemPool snapIndex dir ⟨.newReplayResult c, false⟩
        p.logFiles, CalmHeader t) := by
  refine ⟨fun q stream fuel hfuel => Parser.parseLoop_fuel hfuel (Nat.lt_succ_self _), ?_⟩
  obtain ⟨hpool, hsnap, hnames⟩ := create_logFiles hcreate
  rw [← replayFiles_panic_iff, ← hpool, ← hsnap]
  cases hfirst : Player.replayFiles codecs p.memPool p.startSnapshotIndex dir
      ⟨.newReplayResult c, false⟩ p.logFiles with
  | mk q err =>
    have honce : p.replayOnce codecs dir (.newReplayResult c) = (q.result, err) := by
      rw [Player.replayOnce, hfirst]
    rw [Player.replay, honce]
    cases err with
    | none => simp
    | some stop =>
      obtain ⟨desc, e⟩ := stop
      simp only
      by_cases hrepair : repair = true ∧ Player.repairable e = true
      · have hne : e ≠ .panic := by
          rintro rfl
          exact absurd hrepair.2 (by decide)
        rw [if_pos hrepair]
        cases hlast : p.logFiles.getLast? with
        | none =>
          rw [getLast?_eq_none_iff.mp hlast] at hfirst
          cases hfirst
        | some lastDesc =>
          by_cases hid : desc.id = lastDesc.id
          · obtain ⟨dir', hdir', hsecond⟩ := second_pass hc hnames hheader hfirst hlast
            simp only [hid, ne_eq, not_true_eq_false, if_false, hdir']
            rcases hsecond with hnone | hsome
            · simp [hnone, hne]
            · simp [hsome, hne]
          · simp [hid, hne]
      · rw [if_neg hrepair]
        simp

/-- One log file, with the header word `word` and a body behind the header of the file. -/
def headerFile (word : Nat) (body : Bytes) : Directory :=
  [⟨⟨.log, 0, 0⟩, logFileHeader ++ (leBytes 4 word ++ leBytes 4 1 ++ body)⟩].toAList

def headerPlayer : Player := ⟨[⟨0, 0, false⟩], 0, defaultMemPool⟩

/-- Eight bytes that announce five million more, and a checksum record of one byte. -/
theorem replay_header_panics :
    (Player.create (headerFile (5000000 * 256) []) 0 defaultMemPool = .ok headerPlayer ∧
      (headerPlayer.replay .unary (headerFile (5000000 * 256) [])
        (.newReplayResult (.entryStore [])) true).2.2 = some .panic) ∧
    (Player.create (headerFile (256 + LogType.crc.code * 8) [0]) 0 defaultMemPool =
      .ok headerPlayer ∧
      (headerPlayer.replay .unary (headerFile (256 + LogType.crc.code * 8) [0])
        (.newReplayResult (.entryStore [])) true).2.2 = some .panic) := by
  refine ⟨⟨rfl, ?_⟩, ⟨rfl, ?_⟩⟩
  · decide +kernel
  · decide +kernel

theorem replay_ne_panic_cut :
    ∃ p, Player.create (headerFile (20 * 256) [1, 2, 3]) 0 defaultMemPool = .ok p ∧
      (p.replay .unary (headerFile (20 * 256) [1, 2, 3]) (.newReplayResult (.entryStore []))
        true).2.2 ≠ some .panic := by
  have hc : (EntryCollection.entryStore []).IsEmpty := rfl
  refine ⟨headerPlayer, rfl, ?_⟩
  refine (replay_ne_panic_iff hc rfl ?_ true).2.mpr (by decide +kernel)
  intro f hf
  rw [mem_singleton.mp hf]
  exact ⟨_, rfl⟩

end Replay

end Babuza.Babuzawal
