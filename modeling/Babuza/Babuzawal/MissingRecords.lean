import Babuza.Babuzawal.DamagedTail

/-!
# Records missing from the middle of a log

`cycle` begins every file with a record of the running checksum of the file before it. `logHandler`
takes its value over and compares it with the header of the same record, and the checksum that the
parser has brought along is lost. So records that are missing at the end of a file go unnoticed,
unless the entries behind them leave a gap, which a player with a `NopEntryStore` does not see
either.
-/

namespace Babuza.Babuzawal

open Lib Allocator Walbase List

variable {codecs : RaftCodecs} {pool : ByteSlicePool} {snapshotIndex : Nat}

/-! ## Files without records -/

variable {closed pre : List Segment} {result : ReplayResult} {repair : Bool} {tail : Bytes}

section Empty

variable {dir : Directory}

def withRecords (segs : List Segment) : List Segment := segs.filter fun s => s.records ≠ []

theorem replayFiles_withRecords {current : Segment}
    (hpre : ∀ s ∈ pre, dir.lookup s.name = some (contents codecs s.records))
    (hcurrent : dir.lookup current.name = some (contents codecs current.records ++ tail))
    (p : Parser) :
    Player.replayFiles codecs pool snapshotIndex dir p ((pre ++ [current]).map Segment.desc) =
      Player.replayFiles codecs pool snapshotIndex dir p
        ((withRecords pre ++ [current]).map Segment.desc) := by
  induction pre generalizing p with
  | nil => rfl
  | cons s pre ih =>
    have hreader := getLogFileReader_eq (hpre s (by simp))
    have hrest : ∀ t ∈ pre, dir.lookup t.name = some (contents codecs t.records) :=
      fun t ht => hpre t (by simp [ht])
    have hsame := ih hrest
    by_cases hrecords : s.records = []
    · -- the parser is at the end of the file at once, and the next file starts it anew
      have hnext : ∃ next files stream, (pre ++ [current]).map Segment.desc = next :: files ∧
          getLogFileReader dir next = .ok stream := by
        cases pre with
        | nil =>
          refine ⟨current.desc, [], encodeRecords codecs 0 current.records ++ tail, rfl, ?_⟩
          refine getLogFileReader_eq ?_
          rwa [← append_assoc]
        | cons t pre => exact ⟨t.desc, _, _, rfl, getLogFileReader_eq (hrest t (by simp))⟩
      obtain ⟨next, files, stream, hfiles, hnext⟩ := hnext
      have hdrop : withRecords (s :: pre) = withRecords pre := by simp [withRecords, hrecords]
      rw [hrecords] at hreader
      rw [hdrop, ← hsame, cons_append, map_cons, hfiles, Player.replayFiles, hreader]
      show Player.replayFiles _ _ _ _ (p.start s.desc) _ = _
      rw [Player.replayFiles, Player.replayFiles, hnext]
      rfl
    · have hkeep : withRecords (s :: pre) = s :: withRecords pre := by simp [withRecords, hrecords]
      rw [hkeep, cons_append, cons_append, map_cons, map_cons,
        Player.replayFiles, Player.replayFiles, hreader]
      simp only [hsame]

theorem replay_congr {p p' : Player} (hlast : p.logFiles.getLast? = p'.logFiles.getLast?)
    (honce : p.replayOnce codecs dir result = p'.replayOnce codecs dir result)
    (hrepaired : let first := (p'.replayOnce codecs dir result).1.reset
      p.replayOnce codecs (p'.replay codecs dir result repair).1 first =
        p'.replayOnce codecs (p'.replay codecs dir result repair).1 first) :
    p.replay codecs dir result repair = p'.replay codecs dir result repair := by
  unfold Player.replay at hrepaired ⊢
  rw [honce, hlast]
  rcases hfirst : p'.replayOnce codecs dir result with ⟨r, _ | ⟨desc, e⟩⟩
  · rfl
  · simp only [hfirst] at hrepaired ⊢
    split
    · next hand =>
      rw [if_pos hand] at hrepaired
      cases hdesc : p'.logFiles.getLast? with
      | none => rfl
      | some last =>
        simp only [hdesc] at hrepaired ⊢
        split
        · rfl
        · next hid =>
          rw [if_neg hid] at hrepaired
          cases hrepair : repairLogFile dir last r.lastValidLogOffset with
          | error e => rfl
          | ok dir' =>
            simp only [hrepair] at hrepaired ⊢
            rw [hrepaired]
    · rfl

end Empty

/-! ## A player that skips the entries -/

section Nop

variable (codecs pool)

theorem replayFiles_nop (snapshotIndex other : Nat) (dir : Directory) {p : Parser}
    (h : p.result.entryCollection = .nopEntryStore) (files : List LogFileDesc) :
    Player.replayFiles codecs pool snapshotIndex dir p files =
        Player.replayFiles codecs pool other dir p files ∧
      (Player.replayFiles codecs pool snapshotIndex dir p files).1.result.entryCollection =
        .nopEntryStore := by
  refine Parser.replayFiles_collection codecs pool (P := (· = .nopEntryStore))
    (fun {p type d} hnop => ?_) dir h files
  have hskip : ∀ i, p.handleEntry i type d = .ok p := by
    intro i
    rw [Parser.handleEntry, hnop]
    rfl
  refine ⟨(hskip _).trans (hskip _).symm, fun {q} hq => ?_⟩
  cases (hskip _).symm.trans hq
  exact hnop

theorem replay_nop (p : Player) (other : Nat) (dir : Directory) (repair : Bool) :
    p.replay codecs dir (.newReplayResult .nopEntryStore) repair =
      ({ p with startSnapshotIndex := other } : Player).replay codecs dir
        (.newReplayResult .nopEntryStore) repair := by
  have honce : ∀ dir, p.replayOnce codecs dir (.newReplayResult .nopEntryStore) =
        ({ p with startSnapshotIndex := other } : Player).replayOnce codecs dir
          (.newReplayResult .nopEntryStore) ∧
      (({ p with startSnapshotIndex := other } : Player).replayOnce codecs dir
        (.newReplayResult .nopEntryStore)).1.reset = .newReplayResult .nopEntryStore := by
    intro dir
    obtain ⟨hsame, hnop⟩ := replayFiles_nop codecs p.memPool p.startSnapshotIndex other dir
      (p := ⟨.newReplayResult .nopEntryStore, false⟩) rfl p.logFiles
    rw [hsame] at hnop
    simp only [Player.replayOnce, hsame, ReplayResult.reset, hnop, true_and]
    rfl
  refine replay_congr rfl (honce dir).1 ?_
  rw [(honce dir).2]
  exact (honce _).1

end Nop

/-! ## The shortened log -/

section Missing

variable {dir : Directory} {before after : List Segment} {s current : Segment}
  {kept removed : List Record} {e : WalError} {c : EntryCollection}

theorem segmentIndices_lt {segs : List Segment}
    (hread : ∀ t ∈ segs, ∀ r ∈ t.records, r.Readable) : ∀ i ∈ segmentIndices segs, i < 2 ^ 64 := by
  have hfile : ∀ (rs : List Record) (next : Option Nat), (∀ n, next = some n → n < 2 ^ 64) →
      (∀ r ∈ rs, r.Readable) → ∀ i ∈ entryIndices next rs, i < 2 ^ 64 := by
    intro rs
    induction rs with
    | nil => exact fun _ _ _ i hi => absurd hi not_mem_nil
    | cons r rs ih =>
      intro next hnext hread
      obtain ⟨hr, hrs⟩ := forall_mem_cons.mp hread
      cases r with
      | nextEntry e =>
        refine ih (some e.nextIndex) ?_ hrs
        intro n hn
        cases hn
        exact hr.2
      | entry type data =>
        cases next with
        | none => exact ih none nofun hrs
        | some n =>
          refine forall_mem_cons.mpr ⟨hnext n rfl, ih (some _) ?_ hrs⟩
          intro m hm
          cases hm
          exact Nat.mod_lt _ (by decide)
      | crc | metadata | hardState | snapshot =>
        simpa using ih next hnext hrs
  intro i hi
  obtain ⟨t, ht, hi⟩ := mem_flatMap.mp hi
  exact hfile t.records none nofun (hread t ht) i hi

theorem gapless_of_le {last : Nat} {is : List Nat} (h : ∀ i ∈ is, i ≤ snapshotIndex) :
    Gapless snapshotIndex last is := by
  induction is generalizing last with
  | nil => trivial
  | cons i is ih =>
    obtain ⟨hi, his⟩ := forall_mem_cons.mp h
    exact ⟨fun hlt => absurd hlt (by omega), ih his⟩

def shortened (s : Segment) (kept : List Record) : Segment := { s with records := kept }

theorem SegmentsAt.shorten (h : SegmentsAt codecs dir (before ++ s :: after) current tail)
    (kept : List Record) :
    SegmentsAt codecs (dir.insert s.name (contents codecs kept))
      (before ++ shortened s kept :: after) current tail := by
  obtain ⟨base, hids⟩ := h.ids
  have hlt := hids.pairwise_lt
  have hne : ∀ t, t ∈ before ∨ t ∈ after → t.name ≠ s.name := by
    intro t ht hname
    have hid : t.id = s.id := congrArg FileName.id hname
    rw [append_assoc, pairwise_append, cons_append, pairwise_cons] at hlt
    rcases ht with ht | ht
    · have := hlt.2.2 t ht s (by simp)
      omega
    · have := hlt.2.1.1 t (by simp [ht])
      omega
  refine ⟨⟨base, ?_⟩, ?_, ?_, ?_⟩
  · simpa [Consecutive, shortened] using hids
  · intro name hmem hkind
    rcases (AList.mem_insert _).mp hmem with rfl | hmem
    · exact ⟨shortened s kept, by simp, rfl⟩
    · obtain ⟨t, ht, rfl⟩ := h.mem_dir name hmem hkind
      by_cases hts : t = s
      · exact ⟨shortened s kept, by simp, by rw [hts]; rfl⟩
      · refine ⟨t, ?_, rfl⟩
        simp only [append_assoc, cons_append, List.mem_append, mem_cons, hts,
          false_or] at ht ⊢
        exact ht.imp_right .inr
  · intro t ht
    rcases List.mem_append.mp ht with ht | ht
    · rw [AList.lookup_insert_ne (hne t (.inl ht))]
      exact h.lookup_closed t (by simp [ht])
    · rcases mem_cons.mp ht with rfl | ht
      · exact AList.lookup_insert _
      · rw [AList.lookup_insert_ne (hne t (.inr ht))]
        exact h.lookup_closed t (by simp [ht])
  · rw [AList.lookup_insert_ne (h.name_ne (by simp)).symm]
    exact h.lookup_current

theorem Segment.Sound.shortened (h : s.Sound codecs pool) (hrecords : s.records = kept ++ removed)
    (hkept : kept ≠ []) : (shortened s kept).Sound codecs pool := by
  obtain ⟨crc, rest, hfirst⟩ := h.crc_first
  have hmem : ∀ r ∈ kept, r ∈ s.records := by
    intro r hr
    rw [hrecords]
    exact mem_append_left _ hr
  refine ⟨?_, fun r hr => h.readable r (hmem r hr), fun r hr => h.fits r (hmem r hr), ?_⟩
  · cases kept with
    | nil => exact absurd rfl hkept
    | cons r kept =>
      rw [hrecords, cons_append] at hfirst
      cases hfirst
      exact ⟨crc, kept, rfl⟩
  · have hvisible := h.visible
    rw [hrecords, allVisible_append] at hvisible
    exact hvisible.1

theorem announced_append (found : Bool) {rs rs' : List Record} (h : Announced found (rs ++ rs')) :
    Announced found rs := by
  induction rs generalizing found with
  | nil => trivial
  | cons r rs ih =>
    cases r with
    | entry type data => exact ⟨h.1, ih found h.2⟩
    | nextEntry e => exact ih true h
    | crc | metadata | hardState | snapshot => exact ih found h

theorem segmentIndices_withRecords (segs : List Segment) :
    segmentIndices (withRecords segs ++ [current]) = segmentIndices (segs ++ [current]) := by
  induction segs with
  | nil => rfl
  | cons t segs ih =>
    by_cases ht : t.records = []
    · have hdrop : withRecords (t :: segs) = withRecords segs := by simp [withRecords, ht]
      rw [hdrop, ih, cons_append, segmentIndices, segmentIndices, flatMap_cons, ht]
      rfl
    · have hkeep : withRecords (t :: segs) = t :: withRecords segs := by simp [withRecords, ht]
      rw [hkeep, cons_append, cons_append, segmentIndices, segmentIndices,
        flatMap_cons, flatMap_cons]
      exact congrArg _ ih

theorem SegmentsAt.replay_withRecords (h : SegmentsAt codecs dir closed current tail)
    (hmem : ∀ t ∈ pre, t ∈ closed) {p p' : Player} {pool : ByteSlicePool} {snapshotIndex : Nat}
    (hp : p = ⟨(pre ++ [current]).map Segment.desc, snapshotIndex, pool⟩)
    (hp' : p' = ⟨(withRecords pre ++ [current]).map Segment.desc, snapshotIndex, pool⟩)
    (hdir : (p'.replay codecs dir result repair).1 = dir ∨
      (p'.replay codecs dir result repair).1 = Babuzawal.repaired codecs dir current tail) :
    p.replay codecs dir result repair = p'.replay codecs dir result repair := by
  have honce : ∀ (d : Directory) (rest : Bytes) (r : ReplayResult),
      SegmentsAt codecs d closed current rest →
      p.replayOnce codecs d r = p'.replayOnce codecs d r := by
    intro d rest r hd
    subst hp hp'
    rw [Player.replayOnce, Player.replayOnce, replayFiles_withRecords
      (fun t ht => hd.lookup_closed t (hmem t ht)) hd.lookup_current]
  refine replay_congr (by simp [hp, hp']) (honce dir tail result h) ?_
  rcases hdir with hdir | hdir
  · rw [hdir]
    exact honce dir tail _ h
  · rw [hdir]
    exact honce _ [] _ h.repaired

theorem Listed.replay_gaps {p : Player} (h : Listed codecs p dir pre current tail)
    (hannounced : ∀ t ∈ pre ++ [current], Announced false t.records) (hc : c.IsEmpty)
    (htail : TailStops p.memPool (crcAfter codecs 0 current.records) tail e) (repair : Bool) :
    ∃ dir' r err, p.replay codecs dir (.newReplayResult c) repair = (dir', r, err) ∧
      (dir' = dir ∨ dir' = repaired codecs dir current tail) ∧
      (err ≠ none ↔ c.isNop = false ∧ ¬ Gapless p.startSnapshotIndex p.startSnapshotIndex
          (segmentIndices (pre ++ [current])) ∨
        ¬ (e = .eof ∨ repair = true ∧ Player.repairable e = true)) := by
  have hview : ∀ i, LogView.empty.applySegments i (pre ++ [current]) = none ↔
      ¬ Gapless i i (segmentIndices (pre ++ [current])) := by
    intro i
    have hiff : (∃ v, LogView.empty.applySegments i (pre ++ [current]) = some v) ↔
        Gapless i i (segmentIndices (pre ++ [current])) :=
      LogView.applySegments_isSome_iff hannounced
    rw [← Option.ne_none_iff_exists'] at hiff
    exact not_ne_iff.symm.trans hiff.not
  cases hnop : c.isNop with
  | false =>
    obtain ⟨dir', r, err, hreplay, hdir, herror⟩ := h.replay_cases htail hc
      (fun htrue => absurd (htrue.symm.trans hnop) (by decide)) repair
    rw [hview] at herror
    exact ⟨dir', r, err, hreplay, hdir, by rw [herror]; simp⟩
  | true =>
    -- no entry lies above the snapshot that has the largest index
    obtain rfl : c = .nopEntryStore := by
      cases c with
      | nopEntryStore => rfl
      | entryStore | indexedEntryStore => cases hnop
    have hlisted : Listed codecs { p with startSnapshotIndex := 2 ^ 64 } dir pre current tail :=
      { h with }
    have hgapless : Gapless (2 ^ 64) (2 ^ 64) (segmentIndices (pre ++ [current])) := by
      refine gapless_of_le ?_
      intro i hi
      exact Nat.le_of_lt (segmentIndices_lt (fun t ht => (h.sound t ht).readable) i hi)
    have hsome := mt (hview (2 ^ 64)).mp (not_not.mpr hgapless)
    obtain ⟨dir', r, err, hreplay, hdir, herror⟩ := hlisted.replay_cases htail hc (fun _ => hsome)
      repair
    refine ⟨dir', r, err, (replay_nop codecs p (2 ^ 64) dir repair).trans hreplay, hdir, ?_⟩
    rw [herror, or_iff_right hsome]
    exact (or_iff_right fun hand => by cases hand.1).symm

/-- When records are missing at the end of a file that is not the last one, `Replay` returns an
error exactly if the entries that are left have a gap above the snapshot and the player reads the
entries, or the end of the last file is damaged as well and not repaired. -/
theorem replay_missing_error_iff
    (hat : SegmentsAt codecs dir (before ++ s :: after) current tail)
    (hsound : ∀ t ∈ before ++ s :: after ++ [current], t.Sound codecs pool)
    (hannounced : ∀ t ∈ before ++ s :: after ++ [current], Announced false t.records)
    (hrecords : s.records = kept ++ removed)
    (htail : TailStops pool (crcAfter codecs 0 current.records) tail e) (hc : c.IsEmpty)
    (snapshotIndex : Nat) (repair : Bool) :
    ∃ p, Player.create (dir.insert s.name (contents codecs kept)) snapshotIndex pool = .ok p ∧
      ((∃ dir' r e', p.replay codecs (dir.insert s.name (contents codecs kept))
          (.newReplayResult c) repair = (dir', r, some e')) ↔
        c.isNop = false ∧ ¬ Gapless snapshotIndex snapshotIndex (segmentIndices
            (filesFrom snapshotIndex (before ++ shortened s kept :: after ++ [current]))) ∨
          ¬ (e = .eof ∨ repair = true ∧ Player.repairable e = true)) := by
  have hshort := hat.shorten kept
  obtain ⟨pre, hp, hfiles, hmem⟩ := hshort.create_eq pool snapshotIndex
  refine ⟨_, hp, ?_⟩
  have hmem' : ∀ t ∈ withRecords pre ++ [current], t.records ≠ [] ∧ t = shortened s kept ∨
      t ∈ before ++ s :: after ++ [current] := by
    intro t ht
    rcases List.mem_append.mp ht with ht | ht
    · obtain ⟨ht, hne⟩ := mem_filter.mp ht
      rcases List.mem_append.mp (hmem t ht) with ht | ht
      · exact .inr (by simp [ht])
      · rcases mem_cons.mp ht with rfl | ht
        · exact .inl ⟨by simpa using hne, rfl⟩
        · exact .inr (by simp [ht])
    · exact .inr (mem_append_right _ ht)
  have hlisted : Listed codecs
      ⟨(withRecords pre ++ [current]).map Segment.desc, snapshotIndex, pool⟩
      (dir.insert s.name (contents codecs kept)) (withRecords pre) current tail := by
    have hpre : ∀ t ∈ withRecords pre, t ∈ before ++ shortened s kept :: after :=
      fun t ht => hmem t (mem_filter.mp ht).1
    refine ⟨rfl, fun t ht => hshort.lookup_closed t (hpre t ht), hshort.lookup_current, ?_,
      fun t ht => hshort.name_ne (hpre t ht)⟩
    intro t ht
    rcases hmem' t ht with ⟨hne, rfl⟩ | ht
    · exact (hsound s (by simp)).shortened hrecords hne
    · exact hsound t ht
  have hgaps : ∀ t ∈ withRecords pre ++ [current], Announced false t.records := by
    intro t ht
    rcases hmem' t ht with ⟨-, rfl⟩ | ht
    · have hs := hannounced s (by simp)
      rw [hrecords] at hs
      exact announced_append false hs
    · exact hannounced t ht
  obtain ⟨dir', r, err, hreplay, hdir, herror⟩ := hlisted.replay_gaps hgaps hc htail repair
  have hsame := hshort.replay_withRecords hmem rfl rfl (by rw [hreplay]; exact hdir)
  rw [hsame, hreplay, hfiles, ← segmentIndices_withRecords, ← herror]
  constructor
  · rintro ⟨dir'', r', e', heq⟩
    cases heq
    exact nofun
  · intro hne
    obtain ⟨e', he'⟩ := Option.ne_none_iff_exists'.mp hne
    exact ⟨dir', r, e', by rw [he']⟩

end Missing

/-! ### Two shortened logs -/

def closedAfter (chunkSize : Nat) (ops : List WalOp) : Except WalError Directory := do
  let s ← createWal .unary [1, 2, 3, 4] (.newManager (smallConfig chunkSize) smallPool) ∅
  let s ← run (WalOp.exec .unary) s ops
  s.1.close s.2

def twoEntries : List WalOp :=
  [.save ⟨1, 1, 0⟩ [⟨1, 1, .normal, [7]⟩], .save ⟨1, 1, 1⟩ [],
    .save ⟨1, 1, 2⟩ [⟨1, 2, .normal, [8]⟩]]

def journalAfter (chunkSize : Nat) (ops : List WalOp) : Journal :=
  ops.foldl (WalOp.journal .unary chunkSize) (.create .unary chunkSize [1, 2, 3, 4])

theorem closedAfter_segmentsAt {chunkSize : Nat} {ops : List WalOp} {dir : Directory}
    (h : closedAfter chunkSize ops = .ok dir) :
    let J := journalAfter chunkSize ops
    SegmentsAt .unary dir J.closed J.current J.tail ∧
      ∀ s ∈ J.segments, ∀ r ∈ s.records, r.Fits .unary smallPool := by
  obtain ⟨⟨w₀, dir₀⟩, hcreate, h⟩ := bind_eq_ok.mp h
  obtain ⟨⟨w, dir₁⟩, hrun, hclose⟩ := bind_eq_ok.mp h
  have hrep := run_represents (createWal_represents hcreate).1 hrun
  exact ⟨close_segmentsAt hrep hclose, hrep.fits⟩

def keptRecords : List Record :=
  [.crc 0, .metadata [1, 2, 3, 4], .snapshot .empty, .nextEntry ⟨1, 1⟩, .entry .normal [7],
    .hardState ⟨1, 1, 0⟩, .hardState ⟨1, 1, 1⟩]

def firstFile : Segment :=
  ⟨0, 0, keptRecords ++ [.entry .normal [8], .hardState ⟨1, 1, 2⟩]⟩

/-- The second entry and its commit are missing from the first file. The log is read without it. -/
theorem committed_entry_missing_unnoticed :
    ∃ dir current crc rest,
      closedAfter 200 twoEntries = .ok dir ∧
      SegmentsAt .unary dir [firstFile] current (journalAfter 200 twoEntries).tail ∧
      current.records = .crc crc :: rest ∧ crc ≠ crcAfter .unary 0 keptRecords ∧
      ∀ repair, ∃ p dir' r,
        Player.create (dir.insert firstFile.name (contents .unary keptRecords)) 0 smallPool =
          .ok p ∧
        p.replay .unary (dir.insert firstFile.name (contents .unary keptRecords))
          (.newReplayResult (.entryStore [])) repair = (dir', r, none) := by
  have h : ∀ repair, (do
      let dir ← closedAfter 200 twoEntries
      let p ← Player.create (dir.insert firstFile.name (contents .unary keptRecords)) 0 smallPool
      return (p.replay .unary (dir.insert firstFile.name (contents .unary keptRecords))
        (.newReplayResult (.entryStore [])) repair).2.2) = .ok none := by
    decide +kernel
  obtain ⟨dir, hdir, -⟩ := bind_eq_ok.mp (h true)
  have hclosed : (journalAfter 200 twoEntries).closed = [firstFile] := by decide +kernel
  have hat := (closedAfter_segmentsAt hdir).1
  rw [hclosed] at hat
  have hcrc : ((journalAfter 200 twoEntries).current.records.head?.map fun
      | .crc crc => decide (crc ≠ crcAfter .unary 0 keptRecords)
      | _ => false) = some true := by decide +kernel
  obtain ⟨first, hfirst, hcrc⟩ := Option.map_eq_some_iff.mp hcrc
  obtain ⟨rest, hrecords⟩ := head?_eq_some_iff.mp hfirst
  cases first with
  | crc crc =>
    refine ⟨dir, _, crc, rest, hdir, hat, hrecords, of_decide_eq_true hcrc, ?_⟩
    intro repair
    obtain ⟨dir', hdir', hrepair⟩ := bind_eq_ok.mp (h repair)
    cases hdir.symm.trans hdir'
    obtain ⟨p, hp, hpure⟩ := bind_eq_ok.mp hrepair
    exact ⟨p, _, _, hp, Prod.ext rfl (Prod.ext rfl (Except.ok.inj hpure))⟩
  | metadata | hardState | snapshot | nextEntry | entry => cases hcrc

def threeEntries : List WalOp := twoEntries ++ [.save ⟨1, 1, 2⟩ [⟨1, 3, .normal, [9]⟩]]

def secondFile : Segment :=
  ⟨1, 3, [.crc 2318358937, .metadata [1, 2, 3, 4], .hardState ⟨1, 1, 2⟩, .nextEntry ⟨1, 3⟩,
    .entry .normal [9], .hardState ⟨1, 1, 2⟩]⟩

/-- The second entry is missing, and the third one is behind a gap. -/
theorem gap_noticed :
    ∃ dir p dir' r e, closedAfter 200 threeEntries = .ok dir ∧
      Player.create (dir.insert firstFile.name (contents .unary keptRecords)) 0 smallPool = .ok p ∧
      p.replay .unary (dir.insert firstFile.name (contents .unary keptRecords))
        (.newReplayResult (.entryStore [])) true = (dir', r, some e) := by
  obtain ⟨dir, hdir⟩ := exists_eq_ok (x := closedAfter 200 threeEntries) (by decide +kernel)
  have hclosed : (journalAfter 200 threeEntries).closed = [firstFile] := by decide +kernel
  have hcurrent : (journalAfter 200 threeEntries).current = secondFile := by decide +kernel
  obtain ⟨hat, hfits⟩ := closedAfter_segmentsAt hdir
  have hsegments : (journalAfter 200 threeEntries).segments = [firstFile, secondFile] := by
    rw [Journal.segments, hclosed, hcurrent]
    rfl
  rw [hclosed, hcurrent] at hat
  rw [hsegments] at hfits
  have hsound : ∀ t ∈ [firstFile, secondFile], t.Sound .unary smallPool := by
    have hread : ∀ t ∈ [firstFile, secondFile], ∀ r ∈ t.records, r.Readable := by decide
    have hvisible : ∀ t ∈ [firstFile, secondFile], AllVisible .unary 0 t.records := by
      decide +kernel
    intro t ht
    refine ⟨?_, hread t ht, hfits t ht, hvisible t ht⟩
    rcases mem_pair.mp ht with rfl | rfl
    all_goals exact ⟨_, _, rfl⟩
  have hannounced : ∀ t ∈ [firstFile, secondFile], Announced false t.records := by
    intro t ht
    rcases mem_pair.mp ht with rfl | rfl
    · exact ⟨rfl, rfl, trivial⟩
    · exact ⟨rfl, trivial⟩
  have htail : decode smallPool (journalAfter 200 threeEntries).tail = .error .eof := by
    decide +kernel
  have hfiles : SegmentsAt .unary dir ([] ++ firstFile :: []) secondFile _ := hat
  have hrecords : firstFile.records = keptRecords ++ _ := rfl
  obtain ⟨p, hp, hiff⟩ := replay_missing_error_iff hfiles hsound hannounced hrecords
    (.undecodable htail) (show (EntryCollection.entryStore []).IsEmpty from rfl) 0 true
  obtain ⟨dir', r, e, hreplay⟩ := hiff.mpr (.inl ⟨rfl, by decide⟩)
  exact ⟨dir, p, dir', r, e, hdir, hp, hreplay⟩

end Babuza.Babuzawal
