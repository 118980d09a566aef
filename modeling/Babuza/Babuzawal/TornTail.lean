import Babuza.Babuzawal.Reopen
import Mathlib.Data.Nat.Find

/-!
# Torn tails

A crash can leave the last file cut off, or filled up with zeros, from any offset on. What is left
of the record at that offset is blank, too short, or a record whose type is still there but whose
checksum is not (`decode_torn`), and `Replay` with a repair accepts exactly the records in front of
it. `Journal.Traceable` says what those records mean: every prefix of the records of the current
file is the current file of an earlier journal.
-/

namespace Babuza.Babuzawal

open Lib Allocator Walbase List

/-! ## What is left of a record -/

variable {j k logType m n offset : Nat}

theorem leNat_take {bs : Bytes} (hj : j ≤ bs.length) (n : Nat) :
    leNat (bs.take j ++ zeros n) = leNat bs % 256 ^ j := by
  have hlen : (bs.take j).length = j := length_take_of_le hj
  have hlt : leNat (bs.take j) < 256 ^ j := by
    have h := leNat_lt (bs.take j)
    rwa [hlen] at h
  have hsplit := leNat_append (bs.take j) (bs.drop j)
  rw [take_append_drop, hlen] at hsplit
  rw [leNat_append, zeros, leNat_eq_zero_of_zeros, Nat.mul_zero, Nat.add_zero, hsplit,
    Nat.add_mul_mod_self_left, Nat.mod_eq_of_lt hlt]

variable {rest tail : Bytes}

theorem leNat_torn {h : Nat} (hh : h < 256 ^ 4) :
    leNat (((leBytes 4 h ++ rest).take j ++ zeros n).take 4) = h % 256 ^ min 4 j := by
  have hlen : (leBytes 4 h).length = 4 := leBytes_length 4 h
  by_cases hj : 4 ≤ j
  · obtain ⟨i, rfl⟩ := Nat.exists_eq_add_of_le hj
    rw [Nat.min_eq_left hj, Nat.mod_eq_of_lt hh]
    have htake : (leBytes 4 h ++ rest).take (4 + i) = leBytes 4 h ++ rest.take i := by
      conv_lhs => rw [← hlen]
      exact take_length_add_append i
    rw [htake, append_assoc, take_left' hlen, leNat_leBytes hh]
  · have htake : (leBytes 4 h ++ rest).take j = (leBytes 4 h).take j :=
      take_append_of_le_length (by omega)
    have hshort : ((leBytes 4 h).take j).length = j := length_take_of_le (by omega)
    rw [htake, take_append, hshort, take_of_length_le (by omega), zeros_take,
      leNat_take (by omega), leNat_leBytes hh, Nat.min_eq_right (by omega)]

/-- The header fields of a record of which at least one byte is left. The type and the padding are
in the first byte; the size can only have become smaller. -/
theorem torn_fields {size padding : Nat} (ht : logType < 32) (hs : size ≤ maxLogSize)
    (hp : padding < 8) (hj : 0 < j) :
    let low := recordHeader logType size padding % 256 ^ min 4 j
    low / 8 % 32 = logType ∧ low % 8 = padding ∧ low / 256 % 2 ^ 24 ≤ size := by
  intro low
  have hs' : size ≤ 0xffffff := hs
  have hheader := recordHeader_eq ht hs hp
  have hle : low ≤ recordHeader logType size padding := Nat.mod_le _ _
  have hbyte : low % 256 = recordHeader logType size padding % 256 :=
    Nat.mod_mod_of_dvd _ (dvd_pow_self 256 (by omega))
  omega

variable {pool : ByteSlicePool} {crc : UInt32}

/-- What the decoder makes of a record that is cut off or filled up with zeros: the end of the
file, a record that is too short, or a record of the same type. -/
theorem decode_torn {body : Bytes} (n : Nat) (ht : logType < 32) (hs : body.length ≤ maxLogSize)
    (hpool : (pool.acquire (headerSize + body.length + calcPadding body.length)).isSome)
    (hj : j < (frame logType body crc).length) :
    (decode pool ((frame logType body crc).take j ++ zeros n) = .error .eof ∧
      ∃ m, ((frame logType body crc).take j ++ zeros n).drop headerSize = zeros m) ∨
    decode pool ((frame logType body crc).take j ++ zeros n) = .error .unexpectedEOF ∨
    ∃ d, decode pool ((frame logType body crc).take j ++ zeros n) = .ok d ∧
      d.logType = logType := by
  -- nothing is left of the record
  rcases Nat.eq_zero_or_pos j with rfl | hpos
  · rw [take_zero, nil_append]
    have hblank := blank_zeros pool n
    exact hblank.stops.imp (fun h => ⟨h, hblank.zeros_behind⟩) .inl
  have hlength := frame_length logType body crc
  have hrest : (frame logType body crc).take j ++ zeros n ≠ [] := by
    rw [← length_pos_iff, length_append, length_take_of_le hj.le]
    omega
  by_cases hlong : headerSize ≤ ((frame logType body crc).take j ++ zeros n).length
  · have hlow : leNat ((((frame logType body crc).take j ++ zeros n).take headerSize).take 4) =
        recordHeader logType body.length (calcPadding body.length) % 256 ^ min 4 j := by
      have hheader := recordHeader_eq ht hs (calcPadding_lt body.length)
      have hs' : body.length ≤ 0xffffff := hs
      have hp := calcPadding_lt body.length
      rw [take_take, frame, append_assoc, append_assoc]
      exact leNat_torn (by rw [hheader]; omega)
    obtain ⟨htype, hpadding, hsize⟩ := torn_fields ht hs (calcPadding_lt body.length) hpos
    rw [decode, readFull_of_le hlong]
    simp only [hlow, headerLogSize_eq, headerLogType_eq, headerPadding_eq, htype, hpadding]
    split
    · -- the header looks like preallocated space, so it was cut in its size or its checksum
      rename_i hzero
      refine .inl ⟨rfl, ?_⟩
      have hcut : j ≤ headerSize := by
        by_contra hcut
        rw [headerSize] at hcut hlength
        rw [Nat.min_eq_left (by omega), recordHeader_eq ht hs (calcPadding_lt _)] at hzero
        have hs' : body.length ≤ 0xffffff := hs
        omega
      refine ⟨n - (headerSize - j), ?_⟩
      rw [drop_append, drop_eq_nil_of_le (by rw [length_take]; omega),
        nil_append, length_take_of_le hj.le, zeros_drop]
    · split
      · exact .inr (.inr ⟨_, rfl, rfl⟩)
      · rename_i hnext
        obtain ⟨level, hlevel⟩ := Option.isSome_iff_exists.mp
          (ByteSlicePool.acquire_isSome_mono (Nat.pos_of_ne_zero hnext) (by omega) hpool)
        rw [hlevel]
        cases hbody : readFull _ (((frame logType body crc).take j ++ zeros n).drop headerSize) with
        | error e => exact .inr (.inl rfl)
        | ok out => exact .inr (.inr ⟨_, rfl, rfl⟩)
  · refine .inr (.inl ?_)
    rw [decode, readFull, if_neg hlong, if_neg hrest]
    rfl

variable {r : Record}

section Torn

variable {codecs : RaftCodecs} {snapshotIndex : Nat}

theorem StopsAt.of_mismatch {d : Decoded} (hdecode : decode pool tail = .ok d)
    (htype : d.logType ≠ LogType.crc.code) (hcrc : crc32Update crc d.logBuf ≠ d.logCrc) :
    StopsAt codecs pool snapshotIndex crc tail .crcMismatchForOthersMessage := by
  rintro q fuel rfl hfuel
  obtain ⟨fuel, rfl⟩ : ∃ k, fuel = k + 1 := ⟨fuel - 1, by omega⟩
  refine ⟨q.setCrc (crc32Update q.result.lastValidLogCrc d.logBuf), ?_, rfl, rfl, nofun⟩
  have hmismatch : (q.setCrc (crc32Update q.result.lastValidLogCrc d.logBuf)).result.lastValidLogCrc
      ≠ d.logCrc := hcrc
  rw [Parser.parseLoop, hdecode]
  simp only [Parser.logHandler, htype, if_false, hmismatch, ne_eq, not_false_eq_true, if_true]

theorem stopsAt_torn (hfits : r.Fits codecs pool) (htype : r.logType ≠ .crc)
    (hj : j < (r.bytes codecs crc).length)
    (hcrc : ∀ d, decode pool ((r.bytes codecs crc).take j ++ zeros n) = .ok d →
      crc32Update crc d.logBuf ≠ d.logCrc) :
    ∃ e, StopsAt codecs pool snapshotIndex crc ((r.bytes codecs crc).take j ++ zeros n) e ∧
      (e = .eof ∧ Blank pool ((r.bytes codecs crc).take j ++ zeros n) ∨
        Player.repairable e = true) := by
  rcases decode_torn n r.logType.code_lt hfits.1 hfits.2 hj with
    ⟨heof, hzeros⟩ | hshort | ⟨d, hd, hdtype⟩
  · exact ⟨.eof, .of_decode heof, .inl ⟨rfl, .inl heof, hzeros⟩⟩
  · exact ⟨.unexpectedEOF, .of_decode hshort, .inr rfl⟩
  · refine ⟨_, .of_mismatch hd ?_ (hcrc d hd), .inr rfl⟩
    rw [hdtype]
    exact fun hcode => htype (LogType.code_injective hcode)

end Torn

/-! ## Damaged files -/

/-- The file from `offset` on cut off, and `n` zeros put there. -/
def damage (file : Bytes) (offset n : Nat) : Bytes := file.take offset ++ zeros n

/-- How many of the records are complete and unchanged in the file. -/
def intact (codecs : RaftCodecs) (rs : List Record) (file : Bytes) : Nat :=
  Nat.findGreatest (fun k => contents codecs (rs.take k) <+: file) rs.length

section Damage

variable {codecs : RaftCodecs} {rs : List Record}

theorem contents_take_append_drop (rs : List Record) (k : Nat) :
    contents codecs rs = contents codecs (rs.take k) ++
      encodeRecords codecs (crcAfter codecs 0 (rs.take k)) (rs.drop k) := by
  conv_lhs => rw [← take_append_drop k rs]
  rw [contents, encodeRecords_append, ← append_assoc]
  rfl

theorem le_intact (hj : j ≤ rs.length) (hoffset : (contents codecs (rs.take j)).length ≤ offset) :
    j ≤ intact codecs rs (damage (contents codecs rs ++ zeros m) offset n) := by
  refine Nat.le_findGreatest hj ?_
  rw [damage, contents_take_append_drop rs j, append_assoc]
  refine List.IsPrefix.trans ?_ (prefix_append _ _)
  rw [take_append, take_of_length_le hoffset]
  exact prefix_append _ _

theorem damage_eq (hk : k = intact codecs rs (damage (contents codecs rs ++ zeros m) offset n))
    (hpos : 0 < k) :
    ∃ rest, damage (contents codecs rs ++ zeros m) offset n = contents codecs (rs.take k) ++ rest ∧
      ((k = rs.length ∧ ∃ i, rest = zeros i) ∨
        ∃ r j i, rs[k]? = some r ∧
          j < (r.bytes codecs (crcAfter codecs 0 (rs.take k))).length ∧
          rest = (r.bytes codecs (crcAfter codecs 0 (rs.take k))).take j ++ zeros i) := by
  obtain ⟨rest, hrest⟩ : contents codecs (rs.take k) <+:
      damage (contents codecs rs ++ zeros m) offset n := by
    have hne : intact codecs rs (damage (contents codecs rs ++ zeros m) offset n) ≠ 0 := by omega
    rw [hk]
    exact Nat.findGreatest_of_ne_zero rfl hne
  have hle : k ≤ rs.length := by
    rw [hk]
    exact Nat.findGreatest_le _
  have hdrop : rest = (encodeRecords codecs (crcAfter codecs 0 (rs.take k)) (rs.drop k) ++
      zeros m).take (offset - (contents codecs (rs.take k)).length) ++
      zeros (n - ((contents codecs (rs.take k)).length -
        ((contents codecs rs ++ zeros m).take offset).length)) := by
    have hbehind : (contents codecs (rs.take k) ++ rest).drop _ = rest := drop_left
    rw [← hbehind, hrest, damage, drop_append, drop_take, zeros_drop]
    congr 2
    rw [contents_take_append_drop rs k, append_assoc, drop_left]
  refine ⟨rest, hrest.symm, ?_⟩
  rcases Nat.lt_or_ge k rs.length with hlt | hge
  · obtain ⟨r, hr⟩ : ∃ r, rs[k]? = some r := ⟨_, getElem?_eq_getElem hlt⟩
    have hcons : rs.drop k = r :: rs.drop (k + 1) := by
      rw [drop_eq_getElem_cons hlt]
      rw [getElem?_eq_getElem hlt, Option.some.injEq] at hr
      rw [hr]
    have hbytes : ¬ r.bytes codecs (crcAfter codecs 0 (rs.take k)) <+: rest := by
      rintro ⟨rest', rfl⟩
      have hmore : contents codecs (rs.take (k + 1)) <+:
          damage (contents codecs rs ++ zeros m) offset n := by
        refine ⟨rest', ?_⟩
        rw [← hrest, take_add_one, hr, Option.toList_some, LogFile.contents_append_singleton,
          append_assoc]
        rfl
      have hgreatest : k + 1 ≤ intact codecs rs (damage (contents codecs rs ++ zeros m) offset n) :=
        Nat.le_findGreatest hlt hmore
      omega
    rw [hcons, encodeRecords, append_assoc] at hdrop
    have hshort : offset - (contents codecs (rs.take k)).length <
        (r.bytes codecs (crcAfter codecs 0 (rs.take k))).length := by
      by_contra hlong
      refine hbytes ?_
      rw [hdrop, take_append, take_of_length_le (Nat.not_lt.mp hlong), append_assoc]
      exact prefix_append _ _
    rw [take_append_of_le_length hshort.le] at hdrop
    exact .inr ⟨r, _, _, hr, hshort, hdrop⟩
  · rw [drop_eq_nil_of_le hge, encodeRecords_nil, nil_append, zeros_take, zeros, zeros,
      replicate_append_replicate] at hdrop
    exact .inl ⟨by omega, _, hdrop⟩

end Damage

/-! ## Items -/

namespace WalOp

def hardStateItems (st : HardState) : List Item :=
  if isEmptyHardState st then [] else [.hardState st]

def items : WalOp → List Item
  | save st entries => entries.map .entry ++ hardStateItems st
  | saveSnapshot snapshot => [.snapshot snapshot]

end WalOp

variable {S : LogState}

theorem WalOp.foldl_items {op : WalOp} (h : op.Valid S) :
    op.items.foldl LogState.log S = op.state S := by
  cases op with
  | save st entries =>
    obtain ⟨first, hconsecutive, hpos, hfirst⟩ := h.consecutive
    rw [items, foldl_append, LogState.foldl_log_entries,
      foldl_truncAppend_singleton hconsecutive hpos S.entries (by omega), hardStateItems, state,
      LogState.save]
    split <;> rfl
  | saveSnapshot snapshot => rfl

def Record.isItem : Record → Bool
  | .entry _ _ | .hardState _ | .snapshot _ => true
  | _ => false

namespace Journal

variable {codecs : RaftCodecs} {J : Journal} {metadata : Bytes} {items : List Item}

def itemsBefore (items : List Item) (lost : List Record) : List Item :=
  items.take (items.length - lost.countP Record.isItem)

/-- Every prefix of the records of the current file, from those it was created with on, is the
current file of a journal that stores the items up to there. -/
structure Traceable (metadata : Bytes) (items : List Item) (J : Journal) : Prop where
  stores : J.Stores metadata (.ofItems items)
  created_pos : 0 < J.created
  created_le : J.created ≤ J.current.records.length
  prefixes : ∀ k, J.created ≤ k → k < J.current.records.length → ∃ J' : Journal,
    J'.closed = J.closed ∧
    J'.current = { J.current with records := J.current.records.take k } ∧
    J'.Stores metadata (.ofItems (itemsBefore items (J.current.records.drop k)))

theorem itemsBefore_nil (items : List Item) : itemsBefore items [] = items := by
  simp [itemsBefore]

theorem itemsBefore_concat {new : List Item} (hnew : new.length = [r].countP Record.isItem)
    (lost : List Record) : itemsBefore (items ++ new) (lost ++ [r]) = itemsBefore items lost := by
  rw [itemsBefore, countP_append, ← hnew, length_append, Nat.add_sub_add_right,
    take_append_of_le_length (Nat.sub_le _ _)]
  rfl

theorem Traceable.prefix_stores (h : J.Traceable metadata items) (hcreated : J.created ≤ k) :
    ∃ J' : Journal, J'.closed = J.closed ∧
      J'.current = { J.current with records := J.current.records.take k } ∧
      J'.Stores metadata (.ofItems (itemsBefore items (J.current.records.drop k))) := by
  rcases Nat.lt_or_ge k J.current.records.length with hlt | hge
  · exact h.prefixes k hcreated hlt
  · refine ⟨J, rfl, by rw [take_of_length_le hge], ?_⟩
    rw [drop_eq_nil_of_le hge, itemsBefore_nil]
    exact h.stores

theorem Traceable.append {new : List Item} {state : WalState} (h : Traceable metadata items J)
    (hnew : new.length = [r].countP Record.isItem)
    (hstores : ((J.append codecs r).setState state).Stores metadata (.ofItems (items ++ new))) :
    Traceable metadata (items ++ new) ((J.append codecs r).setState state) := by
  refine ⟨hstores, h.created_pos, ?_, ?_⟩
  · show J.created ≤ (J.current.records ++ [r]).length
    rw [length_append]
    exact Nat.le_add_right_of_le h.created_le
  · intro k hk hlt
    have hle : k ≤ J.current.records.length := by
      have hlen : k < (J.current.records ++ [r]).length := hlt
      rw [length_append, length_singleton] at hlen
      omega
    have htake : (J.current.records ++ [r]).take k = J.current.records.take k :=
      take_append_of_le_length hle
    have hdrop : (J.current.records ++ [r]).drop k = J.current.records.drop k ++ [r] :=
      drop_append_of_le_length hle
    simp only [Journal.append, setState, htake, hdrop, itemsBefore_concat hnew]
    exact h.prefix_stores hk

theorem traceable_create (codecs : RaftCodecs) (chunkSize : Nat) (metadata : Bytes) :
    Traceable metadata [] (create codecs chunkSize metadata) :=
  ⟨stores_create codecs chunkSize metadata, Nat.succ_pos 2, Nat.le_refl 3,
    fun _ hk hlt => absurd hlt (Nat.not_lt.mpr hk)⟩

section

variable (h : Traceable metadata items J)
include h

theorem Traceable.rotate (codecs : RaftCodecs) (chunkSize : Nat) :
    Traceable metadata items (J.rotate codecs chunkSize) :=
  ⟨h.stores.rotate codecs chunkSize, Nat.succ_pos _, Nat.le_refl _,
    fun _ hk hlt => absurd hlt (Nat.not_lt.mpr hk)⟩

theorem Traceable.saveNextEntry (codecs : RaftCodecs) {e : Entry} (hterm : e.term < 2 ^ 64)
    (hindex : e.index + 1 < 2 ^ 64) : Traceable metadata items (J.saveNextEntry codecs e) := by
  have hstores := h.stores.saveNextEntry codecs hterm hindex
  rw [Journal.saveNextEntry] at hstores ⊢
  split at hstores
  · rw [if_pos ‹_›]
    rw [← append_nil items] at hstores ⊢
    exact h.append rfl hstores
  · rwa [if_neg ‹_›]

theorem Traceable.saveOne (codecs : RaftCodecs) {e : Entry} (hterm : e.term < 2 ^ 64)
    (hindex : e.index + 1 < 2 ^ 64) (hpos : 0 < e.index)
    (hle : e.index ≤ (LogState.ofItems items).entries.length + 1) :
    Traceable metadata (items ++ [.entry e]) (J.saveOne codecs e) := by
  refine (h.saveNextEntry codecs hterm hindex).append rfl ?_
  have hvalid : ValidBatch (LogState.ofItems items).entries.length [e] :=
    ⟨⟨e.index, consecutive_cons.mpr ⟨rfl, consecutive_nil⟩, hpos, hle⟩,
      fun e' he' => by rwa [mem_singleton.mp he'],
      fun e' he' => by rwa [mem_singleton.mp he']⟩
  rw [LogState.ofItems, foldl_append]
  exact h.stores.saveEntries codecs hvalid

theorem Traceable.saveEntries (codecs : RaftCodecs) {entries : List Entry}
    (hvalid : ValidBatch (LogState.ofItems items).entries.length entries) :
    Traceable metadata (items ++ entries.map .entry) (J.saveEntries codecs entries) := by
  have hinv := saveEntries_induction codecs
    (P := fun done J log => Traceable metadata (items ++ done.map .entry) J ∧
      (LogState.ofItems (items ++ done.map .entry)).entries = log)
    (fun {done J log e} hJ hterm hindex hpos hle => by
      obtain ⟨htrace, rfl⟩ := hJ
      rw [map_append, ← append_assoc]
      refine ⟨htrace.saveOne codecs hterm hindex hpos hle, ?_⟩
      rw [LogState.ofItems, foldl_append]
      rfl)
    [] ⟨by rwa [map_nil, append_nil], by rw [map_nil, append_nil]⟩ hvalid
  exact hinv.1

theorem Traceable.saveHardState (codecs : RaftCodecs) (st : HardState) :
    Traceable metadata (items ++ WalOp.hardStateItems st) (J.saveHardState codecs st) := by
  have hstores := h.stores.saveHardState codecs st
  rw [Journal.saveHardState, WalOp.hardStateItems] at *
  by_cases hempty : isEmptyHardState st
  · simpa [hempty] using h
  · simp only [hempty, Bool.false_eq_true, if_false] at hstores ⊢
    refine h.append rfl ?_
    rw [LogState.ofItems, foldl_append]
    exact hstores

theorem Traceable.exec (codecs : RaftCodecs) (chunkSize : Nat) {op : WalOp}
    (hvalid : op.Valid (.ofItems items)) :
    Traceable metadata (items ++ op.items) (op.journal codecs chunkSize J) := by
  cases op with
  | save st entries =>
    have hsaved := (h.saveEntries codecs hvalid).saveHardState codecs st
    rw [append_assoc] at hsaved
    simp only [WalOp.journal, Journal.save]
    split
    · exact hsaved.rotate codecs chunkSize
    · exact hsaved
  | saveSnapshot snapshot =>
    refine h.append rfl ?_
    rw [LogState.ofItems, foldl_append]
    exact h.stores.saveSnapshot codecs snapshot

end

theorem Traceable.run (codecs : RaftCodecs) (chunkSize : Nat) {ops : List WalOp}
    (h : Traceable metadata items J) (hvalid : WalOp.AllValid (.ofItems items) ops) :
    Traceable metadata (items ++ ops.flatMap WalOp.items)
      (ops.foldl (WalOp.journal codecs chunkSize) J) := by
  induction ops generalizing items J with
  | nil =>
    rw [flatMap_nil, append_nil]
    exact h
  | cons op ops ih =>
    rw [flatMap_cons, ← append_assoc]
    refine ih (h.exec codecs chunkSize hvalid.1) ?_
    rw [LogState.ofItems, foldl_append]
    exact (WalOp.foldl_items hvalid.1).symm ▸ hvalid.2

end Journal

/-! ## Recovery from a torn tail -/

section Recovery

variable {codecs : RaftCodecs} {cfg : ManagerConfig} {J : Journal} {metadata : Bytes}
  {items : List Item} {ops : List WalOp}

theorem zeros_run (codecs : RaftCodecs) (chunkSize : Nat) (ops : List WalOp)
    (h : ∃ m, J.tail = zeros m) :
    ∃ m, (ops.foldl (WalOp.journal codecs chunkSize) J).tail = zeros m := by
  refine foldlRecOn (motive := fun J : Journal => ∃ m, J.tail = zeros m) ops _ h ?_
  rintro J ⟨m, hm⟩ op -
  exact op.journal_cases (P := fun J => ∃ m, J.tail = zeros m)
    (fun hgrows => ⟨_, by rw [hgrows.tail_eq, hm, zeros_drop]⟩) fun _ => ⟨_, rfl⟩

/-- The log that `OpenWal` makes of the result can be written, closed and replayed, and yields the
state extended by what was saved. -/
def Continues (codecs : RaftCodecs) (cfg : ManagerConfig) (pool : ByteSlicePool) (dir : Directory)
    (r : ReplayResult) (metadata : Bytes) (S : LogState) : Prop :=
  ∃ m w J, Manager.newManagerWithScan cfg dir 0 pool = .ok m ∧ openWal m dir r = .ok w ∧
    Represents codecs cfg pool w dir J ∧
    ∀ (ops : List WalOp) (w' : Wal) (dir' dir'' : Directory), WalOp.AllValid S ops →
      (∀ s ∈ (ops.foldl (WalOp.journal codecs cfg.logFileChunkSize) J).segments,
        AllVisible codecs 0 s.records) →
      run (WalOp.exec codecs) (w, dir) ops = .ok (w', dir') → w'.close dir' = .ok dir'' →
      ReplayYields codecs pool dir'' true metadata (ops.foldl WalOp.state S)

variable {dir : Directory}

theorem Journal.Stores.replayYields_of_blank (h : J.Stores metadata S)
    (hat : SegmentsAt codecs dir J.closed J.current J.tail)
    (hfits : ∀ s ∈ J.segments, ∀ r ∈ s.records, r.Fits codecs pool)
    (hvisible : ∀ s ∈ J.segments, AllVisible codecs 0 s.records) (hblank : Blank pool J.tail) :
    ReplayYields codecs pool dir true metadata S := by
  obtain ⟨e, he, hkind⟩ := hblank.error
  obtain ⟨p, v, dir', tail', r, hp, hr, hyields, -⟩ := h.replay_stops hat hfits hvisible
    (.of_decode he) hkind
  exact ⟨p, dir', r, hp, hr, hyields⟩

theorem continues_of_represents {r : ReplayResult} {m : Manager} {w : Wal}
    (hscan : Manager.newManagerWithScan cfg dir 0 pool = .ok m) (hopen : openWal m dir r = .ok w)
    (hrep : Represents codecs cfg pool w dir J) (hstores : J.Stores metadata S)
    (hblank : Blank pool J.tail) : Continues codecs cfg pool dir r metadata S := by
  refine ⟨m, w, J, hscan, hopen, hrep, fun ops w' dir' dir'' hvalid hvisible hrun hclose => ?_⟩
  have hrep' := run_represents hrep hrun
  exact (hstores.run codecs cfg.logFileChunkSize hvalid).replayYields_of_blank
    (close_segmentsAt hrep' hclose) hrep'.fits hvisible (blank_run cfg.logFileChunkSize hblank)

theorem SegmentsAt.cut {closed : List Segment} {current : Segment}
    (h : SegmentsAt codecs dir closed current tail) (current' : Segment) (rest : Bytes)
    (hdesc : current'.desc = current.desc) :
    SegmentsAt codecs (dir.insert current.name (contents codecs current'.records ++ rest)) closed
      current' rest := by
  have hname : current'.name = current.name := congrArg LogFileDesc.getLogFileName hdesc
  refine ⟨?_, ?_, ?_, ?_⟩
  · obtain ⟨base, hids⟩ := h.ids
    obtain ⟨hclosed, hcurrent⟩ := consecutive_append.mp hids
    have hid : current'.id = current.id := congrArg LogFileDesc.id hdesc
    exact ⟨base, consecutive_append.mpr ⟨hclosed, consecutive_cons.mpr
      ⟨hid.trans (consecutive_cons.mp hcurrent).1, consecutive_nil⟩⟩⟩
  · intro name hmem hkind
    rcases (AList.mem_insert _).mp hmem with rfl | hmem
    · exact ⟨current', by simp, hname.symm⟩
    · obtain ⟨s, hs, rfl⟩ := h.mem_dir name hmem hkind
      rcases mem_append.mp hs with hs | hs
      · exact ⟨s, mem_append_left _ hs, rfl⟩
      · exact ⟨current', by simp, mem_singleton.mp hs ▸ hname.symm⟩
  · intro s hs
    rw [AList.lookup_insert_ne (h.name_ne hs)]
    exact h.lookup_closed s hs
  · rw [hname, AList.lookup_insert]

theorem stopsAt_damage {rs : List Record}
    (hk : k = intact codecs rs (damage (contents codecs rs ++ zeros m) offset n)) (hpos : 0 < k)
    (hfits : ∀ r ∈ rs, r.Fits codecs pool)
    (htype : ∃ crc rest, rs = .crc crc :: rest ∧ ∀ r ∈ rest, r.logType ≠ .crc)
    (hrest : damage (contents codecs rs ++ zeros m) offset n = contents codecs (rs.take k) ++ rest)
    (hcrc : ∀ d, decode pool rest = .ok d →
      crc32Update (crcAfter codecs 0 (rs.take k)) d.logBuf ≠ d.logCrc) :
    ∃ e, StopsAt codecs pool 0 (crcAfter codecs 0 (rs.take k)) rest e ∧
      (e = .eof ∧ Blank pool rest ∨ Player.repairable e = true) := by
  obtain ⟨rest', hrest', hcase⟩ := damage_eq hk hpos
  have heq : rest' = rest := append_cancel_left (hrest'.symm.trans hrest)
  rw [heq] at hcase
  rcases hcase with ⟨-, i, rfl⟩ | ⟨r, j, i, hr, hj, rfl⟩
  · have hblank := blank_zeros pool i
    obtain ⟨e, he, hkind⟩ := hblank.error
    exact ⟨e, .of_decode he, hkind.imp (fun h => ⟨h, hblank⟩) id⟩
  · refine stopsAt_torn (hfits r (mem_of_getElem? hr)) ?_ hj hcrc
    obtain ⟨crc, records, rfl, htype⟩ := htype
    obtain ⟨i, rfl⟩ : ∃ i, k = i + 1 := ⟨k - 1, by omega⟩
    rw [getElem?_cons_succ] at hr
    exact htype r (mem_of_getElem? hr)

theorem Journal.Traceable.recover (h : J.Traceable metadata items)
    (hat : SegmentsAt codecs dir J.closed J.current (zeros m))
    (hfits : ∀ s ∈ J.segments, ∀ r ∈ s.records, r.Fits codecs pool)
    (hvisible : ∀ s ∈ J.segments, AllVisible codecs 0 s.records)
    (hoffset : (contents codecs (J.current.records.take J.created)).length ≤ offset)
    (hk : k = intact codecs J.current.records
      (damage (contents codecs J.current.records ++ zeros m) offset n))
    (hcrc : ∀ d, decode pool ((damage (contents codecs J.current.records ++ zeros m) offset n).drop
      (contents codecs (J.current.records.take k)).length) = .ok d →
      crc32Update (crcAfter codecs 0 (J.current.records.take k)) d.logBuf ≠ d.logCrc) :
    ∃ p dir' r,
      Player.create (dir.insert J.current.name
        (damage (contents codecs J.current.records ++ zeros m) offset n)) 0 pool = .ok p ∧
      p.replay codecs (dir.insert J.current.name
        (damage (contents codecs J.current.records ++ zeros m) offset n))
        (.newReplayResult (.entryStore [])) true = (dir', r, none) ∧
      Yields metadata (.ofItems (itemsBefore items (J.current.records.drop k))) r ∧
      Continues codecs cfg pool dir' r metadata
        (.ofItems (itemsBefore items (J.current.records.drop k))) := by
  have hcreated : J.created ≤ k := hk ▸ le_intact h.created_le hoffset
  have hpos : 0 < k := Nat.lt_of_lt_of_le h.created_pos hcreated
  obtain ⟨rest, hrest, -⟩ := damage_eq hk hpos
  rw [hrest, drop_left] at hcrc
  obtain ⟨hfits, hfitsCurrent⟩ := forall_mem_concat.mp hfits
  obtain ⟨hvisible, hvisibleCurrent⟩ := forall_mem_concat.mp hvisible
  obtain ⟨e, hstop, he⟩ := stopsAt_damage hk hpos hfitsCurrent
    (forall_mem_concat.mp h.stores.wellFormed.crc_first).2 hrest hcrc
  obtain ⟨J', hclosed, hcurrent, hstores⟩ := h.prefix_stores hcreated
  have hrecords : J'.current.records = J.current.records.take k := by rw [hcurrent]
  have hat' := hat.cut J'.current rest (by rw [hcurrent]; rfl)
  rw [hrecords, ← hrest, ← hclosed] at hat'
  have hsegments : J'.segments = J.closed ++
    [{ J.current with records := J.current.records.take k }] := by
    rw [segments, hclosed, hcurrent]
  have hfits' : ∀ s ∈ J'.segments, ∀ r ∈ s.records, r.Fits codecs pool := by
    rw [hsegments]
    exact forall_mem_concat.mpr ⟨hfits, fun r hr => hfitsCurrent r (mem_of_mem_take hr)⟩
  have hvisible' : ∀ s ∈ J'.segments, AllVisible codecs 0 s.records := by
    rw [hsegments]
    rw [← take_append_drop k J.current.records] at hvisibleCurrent
    exact forall_mem_concat.mpr ⟨hvisible, (allVisible_append.mp hvisibleCurrent).1⟩
  rw [← hrecords] at hstop
  obtain ⟨p, v, dir', tail', r, hp, hr, hyields, hat'', hrecovered, hshown, htail⟩ :=
    hstores.replay_stops hat' hfits' hvisible' hstop (he.imp And.left id)
  obtain ⟨m', w, hscan, hopen, hrep⟩ := openWal_represents cfg hat'' hfits' hrecovered rfl hshown 0
  refine ⟨p, dir', r, hp, hr, hyields, continues_of_represents hscan hopen hrep
    (hstores.reopen tail') ?_⟩
  rw [htail]
  rcases he with ⟨rfl, hblank⟩ | hrepair
  · exact hblank
  · rw [if_neg (by rintro rfl; cases hrepair)]
    exact blank_zeros pool 0

/-- A replay with a repair after the last file was damaged behind the records it was created with:
it yields the state of the records that are intact, and the log continues from there. -/
theorem torn_tail_recovery {w₀ w : Wal} {dir₀ dir dir' : Directory} {file : Bytes} {k : Nat}
    (offset n : Nat)
    (hcreate : createWal codecs metadata (.newManager cfg pool) ∅ = .ok (w₀, dir₀))
    (hrun : run (WalOp.exec codecs) (w₀, dir₀) ops = .ok (w, dir))
    (hclose : w.close dir = .ok dir') (hfile : dir'.lookup w.currentLogFile.name = some file)
    (hvalid : WalOp.AllValid .initial ops)
    (hJ : J = ops.foldl (WalOp.journal codecs cfg.logFileChunkSize)
      (.create codecs cfg.logFileChunkSize metadata))
    (hvisible : ∀ s ∈ J.segments, AllVisible codecs 0 s.records)
    (hoffset : (contents codecs (J.current.records.take J.created)).length ≤ offset)
    (hk : k = intact codecs J.current.records (damage file offset n))
    (hcrc : ∀ d, decode pool ((damage file offset n).drop
      (contents codecs (J.current.records.take k)).length) = .ok d →
        crc32Update (crcAfter codecs 0 (J.current.records.take k)) d.logBuf ≠ d.logCrc) :
    ∃ p dir'' r,
      Player.create (dir'.insert w.currentLogFile.name (damage file offset n)) 0 pool = .ok p ∧
      p.replay codecs (dir'.insert w.currentLogFile.name (damage file offset n))
        (.newReplayResult (.entryStore [])) true = (dir'', r, none) ∧
      Yields metadata (.ofItems (Journal.itemsBefore (ops.flatMap WalOp.items)
        (J.current.records.drop k))) r ∧
      Continues codecs cfg pool dir'' r metadata
        (.ofItems (Journal.itemsBefore (ops.flatMap WalOp.items)
          (J.current.records.drop k))) := by
  have hrep := run_represents (createWal_represents hcreate).1 hrun
  have htrace := (Journal.traceable_create codecs cfg.logFileChunkSize metadata).run codecs
    cfg.logFileChunkSize hvalid
  obtain ⟨m, hm⟩ := zeros_run codecs cfg.logFileChunkSize ops
    (J := .create codecs cfg.logFileChunkSize metadata) ⟨_, rfl⟩
  rw [← hJ] at hrep htrace hm
  have hat := close_segmentsAt hrep hclose
  rw [hm] at hat
  have hname := hrep.name_eq
  rw [hname] at hfile ⊢
  cases hfile.symm.trans hat.lookup_current
  exact htrace.recover hat hrep.fits hvisible hoffset hk hcrc

def lastFileAfter (chunkSize : Nat) (ops : List WalOp) : Except WalError (Option Bytes) := do
  let s ← createWal .unary [1, 2, 3, 4] (.newManager (smallConfig chunkSize) smallPool) ∅
  let s ← run (WalOp.exec .unary) s ops
  let dir ← s.1.close s.2
  return dir.lookup s.1.currentLogFile.name

/-- The second entry and the hard state behind it are replaced by zeros, from the second byte of
the entry on. -/
theorem torn_tail_recovery_second_entry :
    ∃ w₀ dir₀ w dir dir' file p dir'' r,
      createWal .unary [1, 2, 3, 4] (.newManager (smallConfig 400) smallPool) ∅ =
        .ok (w₀, dir₀) ∧
      run (WalOp.exec .unary) (w₀, dir₀)
        [.save ⟨1, 1, 0⟩ [⟨1, 1, .normal, [7]⟩, ⟨1, 2, .normal, [8, 9]⟩]] = .ok (w, dir) ∧
      w.close dir = .ok dir' ∧ dir'.lookup w.currentLogFile.name = some file ∧
      Player.create (dir'.insert w.currentLogFile.name (damage file 156 244)) 0 smallPool =
        .ok p ∧
      p.replay .unary (dir'.insert w.currentLogFile.name (damage file 156 244))
        (.newReplayResult (.entryStore [])) true = (dir'', r, none) ∧
      Yields [1, 2, 3, 4] ⟨.empty, [.empty], [⟨1, 1, .normal, [7]⟩]⟩ r := by
  let ops : List WalOp := [.save ⟨1, 1, 0⟩ [⟨1, 1, .normal, [7]⟩, ⟨1, 2, .normal, [8, 9]⟩]]
  let J : Journal := ops.foldl (WalOp.journal .unary 400) (.create .unary 400 [1, 2, 3, 4])
  let file : Bytes := contents .unary J.current.records ++ J.tail
  have h : lastFileAfter 400 ops = .ok (some file) := by decide +kernel
  have hstate : LogState.ofItems (Journal.itemsBefore (ops.flatMap WalOp.items)
      (J.current.records.drop (intact .unary J.current.records (damage file 156 244)))) =
      ⟨.empty, [.empty], [⟨1, 1, .normal, [7]⟩]⟩ := by decide +kernel
  obtain ⟨⟨w₀, dir₀⟩, hcreate, h⟩ := bind_eq_ok.mp h
  obtain ⟨⟨w, dir⟩, hrun, h⟩ := bind_eq_ok.mp h
  obtain ⟨dir', hclose, hpure⟩ := bind_eq_ok.mp h
  have hfile : dir'.lookup w.currentLogFile.name = some file := Except.ok.inj hpure
  have hvalid : WalOp.AllValid .initial ops :=
    ⟨⟨⟨1, by decide, by decide, by decide⟩, by decide, by decide⟩, trivial⟩
  obtain ⟨p, dir'', r, hp, hr, hyields, -⟩ := torn_tail_recovery (J := J) 156 244 hcreate hrun
    hclose hfile hvalid rfl (by decide +kernel) (by decide +kernel) rfl (by decide +kernel)
  rw [hstate] at hyields
  exact ⟨w₀, dir₀, w, dir, dir', file, p, dir'', r, hcreate, hrun, hclose, hfile, hp, hr, hyields⟩

end Recovery

end Babuza.Babuzawal
