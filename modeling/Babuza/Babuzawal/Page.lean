import Babuza.Babuzawal.Codec

/-!
# `page.Writer`

The buffered writer under a log file (`logfile/page/writer.go`). When data does not fit into the
`bufSize` bytes, the buffer, which has room for one more page, is filled up to the next page
boundary and flushed, whole pages go to the file and the rest is buffered. `seek` is the position of
the file handle, and `Writer.view` the content of the file once the buffer is flushed.
-/

namespace Babuza.Babuzawal

open Lib List

structure Writer where
  segmentSize : Nat
  pageSize : Nat
  currentOffset : Nat
  bufWritePos : Nat
  bufSize : Nat
  buffer : Bytes
  seek : Nat
  deriving DecidableEq

namespace Writer

/-- `CreateWriter` on a handle whose position is `seek`. -/
def create (segmentSize pageSize bufSize seek : Nat) : Writer where
  segmentSize := segmentSize
  pageSize := pageSize
  currentOffset := seek
  bufWritePos := 0
  bufSize := bufSize
  buffer := zeros (bufSize + pageSize)
  seek := seek

def pending (p : Writer) : Bytes := p.buffer.take p.bufWritePos

/-- The writer after `copy`: bytes past the end of the buffer would be lost. -/
def copied (p : Writer) (data : Bytes) : Writer :=
  { p with
    buffer := (writeAt p.buffer p.bufWritePos data).take p.buffer.length
    bufWritePos := p.bufWritePos + data.length }

def copy (p : Writer) (data : Bytes) : Except WalError Writer :=
  if p.buffer.length < p.bufWritePos then .error .panic else .ok (p.copied data)

def flushed (p : Writer) : Writer := { p with bufWritePos := 0, seek := p.seek + p.bufWritePos }

def flush (p : Writer) (file : Bytes) : Except WalError (Writer × Bytes) :=
  if p.buffer.length < p.bufWritePos then .error .panic
  else .ok (p.flushed, writeAt file p.seek p.pending)

/-- `Sync`. Syncing the file to the device does not change its content. -/
def sync (p : Writer) (file : Bytes) : Except WalError (Writer × Bytes) := p.flush file

def truncate (p : Writer) (file : Bytes) : Bytes :=
  (zeroExtend file p.currentOffset).take p.currentOffset

def checkCycle (p : Writer) : Bool := p.segmentSize < p.currentOffset

/-- The number of bytes of `data` that `Write` hands to the file without buffering them. -/
def pagesSize (p : Writer) (data : Bytes) : Nat :=
  if p.pageSize < data.length then data.length / p.pageSize * p.pageSize else 0

def writePages (p : Writer) (file data : Bytes) : Writer × Bytes :=
  ({ p with seek := p.seek + data.length }, writeAt file p.seek data)

/-- The part of `Write` from the flush on. -/
def writeAligned (p : Writer) (file data : Bytes) : Except WalError (Writer × Bytes) := do
  let (p, file) ← p.flush file
  let wSize := p.pagesSize data
  let (p, file) := p.writePages file (data.take wSize)
  let p ← p.copy (data.drop wSize)
  return (p, file)

/-- `Write` without the update of `currentOffset`. -/
def writeData (p : Writer) (file data : Bytes) : Except WalError (Writer × Bytes) := do
  if p.bufWritePos + data.length ≤ p.bufSize then
    let p ← p.copy data
    return (p, file)
  else if p.pageSize = 0 then
    throw .panic
  else
    let nextAlignmentSize := p.pageSize - p.currentOffset % p.pageSize
    if nextAlignmentSize = p.pageSize then
      p.writeAligned file data
    else if data.length < nextAlignmentSize then
      let p ← p.copy data
      return (p, file)
    else
      let p ← p.copy (data.take nextAlignmentSize)
      p.writeAligned file (data.drop nextAlignmentSize)

def write (p : Writer) (file data : Bytes) : Except WalError (Writer × Bytes) := do
  let (q, file) ← p.writeData file data
  return ({ q with currentOffset := p.currentOffset + data.length }, file)

/-! ## What a part of a write does -/

/-- The content of the file once the buffer is flushed. -/
def view (p : Writer) (file : Bytes) : Bytes := writeAt file p.seek p.pending

/-- The handle is inside the file and the buffered bytes are inside the buffer. -/
structure Valid (p : Writer) (file : Bytes) : Prop where
  seek_le : p.seek ≤ file.length
  bufWritePos_le : p.bufWritePos ≤ p.buffer.length

/-- `q` on `file'` is `p` on `file` with `data` written behind the buffered bytes. -/
structure Writes (p : Writer) (file data : Bytes) (q : Writer) (file' : Bytes) : Prop where
  valid : q.Valid file'
  view_eq : q.view file' = writeAt (p.view file) (p.seek + p.bufWritePos) data
  pos_eq : q.seek + q.bufWritePos = p.seek + p.bufWritePos + data.length
  length_eq : q.buffer.length = p.buffer.length
  segmentSize_eq : q.segmentSize = p.segmentSize
  pageSize_eq : q.pageSize = p.pageSize
  bufSize_eq : q.bufSize = p.bufSize

variable {p : Writer}

theorem pending_length (h : p.bufWritePos ≤ p.buffer.length) :
    p.pending.length = p.bufWritePos := by
  simp [pending, h]

variable {file : Bytes}

theorem Valid.pos_le_view (h : p.Valid file) : p.seek + p.bufWritePos ≤ (p.view file).length := by
  rw [view, writeAt_length h.seek_le, pending_length h.bufWritePos_le]
  omega

theorem view_of_synced (h : p.Valid file) (hsync : p.bufWritePos = 0) : p.view file = file := by
  rw [view, pending, hsync, take_zero, writeAt_nil h.seek_le]

variable {q : Writer} {file' : Bytes}

theorem Writes.trans {r : Writer} {file'' a b : Bytes} (hp : p.Valid file)
    (h₁ : p.Writes file a q file') (h₂ : q.Writes file' b r file'') :
    p.Writes file (a ++ b) r file'' where
  valid := h₂.valid
  view_eq := by
    rw [h₂.view_eq, h₁.view_eq, h₁.pos_eq, writeAt_writeAt hp.pos_le_view]
  pos_eq := by
    rw [h₂.pos_eq, h₁.pos_eq, length_append]
    omega
  length_eq := h₂.length_eq.trans h₁.length_eq
  segmentSize_eq := h₂.segmentSize_eq.trans h₁.segmentSize_eq
  pageSize_eq := h₂.pageSize_eq.trans h₁.pageSize_eq
  bufSize_eq := h₂.bufSize_eq.trans h₁.bufSize_eq

theorem copied_writes (data : Bytes) (hp : p.Valid file)
    (hfit : p.bufWritePos + data.length ≤ p.buffer.length) :
    p.Writes file data (p.copied data) file := by
  have hlen : (p.copied data).buffer.length = p.buffer.length := by
    simp only [copied, length_take, writeAt_length hp.bufWritePos_le]
    omega
  have hpending : (p.copied data).pending = p.pending ++ data := by
    simp only [pending, copied]
    rw [take_take, Nat.min_eq_left hfit, writeAt_take hp.bufWritePos_le]
  refine ⟨⟨hp.seek_le, ?_⟩, ?_, ?_, hlen, rfl, rfl, rfl⟩
  · rwa [hlen]
  · rw [view, view, hpending, ← pending_length hp.bufWritePos_le, writeAt_writeAt hp.seek_le]
    rfl
  · simp only [copied]
    omega

theorem copy_eq (hp : p.Valid file) (data : Bytes) : p.copy data = .ok (p.copied data) := by
  rw [copy, if_neg (Nat.not_lt.mpr hp.bufWritePos_le)]

theorem flushed_writes (hp : p.Valid file) : p.Writes file [] p.flushed (p.view file) := by
  have hvalid : p.flushed.Valid (p.view file) := ⟨hp.pos_le_view, Nat.zero_le _⟩
  refine ⟨hvalid, ?_, rfl, rfl, rfl, rfl, rfl⟩
  rw [view_of_synced hvalid rfl, writeAt_nil hp.pos_le_view]

theorem flush_eq (hp : p.Valid file) : p.flush file = .ok (p.flushed, p.view file) := by
  rw [flush, if_neg (Nat.not_lt.mpr hp.bufWritePos_le), view]

theorem writePages_writes (data : Bytes) (hp : p.Valid file) (hsync : p.bufWritePos = 0) :
    p.Writes file data (p.writePages file data).1 (p.writePages file data).2 := by
  have hvalid : (p.writePages file data).1.Valid (p.writePages file data).2 := by
    refine ⟨?_, hp.bufWritePos_le⟩
    simp only [writePages, writeAt_length hp.seek_le]
    omega
  refine ⟨hvalid, ?_, ?_, rfl, rfl, rfl, rfl⟩
  · rw [view_of_synced hvalid hsync, view_of_synced hp hsync, hsync]
    rfl
  · simp only [writePages]
    omega

/-! ## The writer invariant -/

/-- What holds of a writer between calls. The last field is why the extra page of the buffer is
enough: filling up to the next page boundary never overruns it. -/
structure WF (p : Writer) (file : Bytes) : Prop where
  valid : p.Valid file
  pos_eq : p.seek + p.bufWritePos = p.currentOffset
  length_eq : p.buffer.length = p.bufSize + p.pageSize
  align : p.currentOffset % p.pageSize ≠ 0 →
    p.bufWritePos + (p.pageSize - p.currentOffset % p.pageSize) ≤ p.bufSize + p.pageSize

theorem create_wf {segmentSize pageSize bufSize seek : Nat} (h : seek ≤ file.length) :
    (create segmentSize pageSize bufSize seek).WF file where
  valid := ⟨h, Nat.zero_le _⟩
  pos_eq := rfl
  length_eq := by simp [create]
  align := by
    intro _
    simp only [create]
    omega

theorem pagesSize_rest_le (data : Bytes) (hpage : 0 < p.pageSize) :
    data.length - p.pagesSize data ≤ p.pageSize := by
  have hdiv := Nat.div_add_mod' data.length p.pageSize
  have hmod := Nat.mod_lt data.length hpage
  rw [pagesSize]
  split <;> omega

variable {data : Bytes}

theorem pagesSize_rest (hne : data.length % p.pageSize ≠ 0) :
    data.length - p.pagesSize data = data.length % p.pageSize := by
  have hdiv := Nat.div_add_mod' data.length p.pageSize
  rw [pagesSize]
  split
  · omega
  · rename_i hle
    have hlt : data.length < p.pageSize := by
      rcases Nat.lt_or_eq_of_le (Nat.not_lt.mp hle) with h | h
      · exact h
      · rw [h, Nat.mod_self] at hne
        exact absurd rfl hne
    rw [Nat.mod_eq_of_lt hlt, Nat.sub_zero]

theorem writeAligned_writes (data : Bytes) (hp : p.Valid file)
    (hlen : p.buffer.length = p.bufSize + p.pageSize) (hpage : 0 < p.pageSize) :
    ∃ q file', p.writeAligned file data = .ok (q, file') ∧ p.Writes file data q file' ∧
      q.bufWritePos = data.length - p.pagesSize data := by
  have hw₁ := flushed_writes hp
  have hw₂ := writePages_writes (data.take (p.pagesSize data)) hw₁.valid rfl
  have hw₃ := copied_writes (data.drop (p.pagesSize data)) hw₂.valid (by
    have := pagesSize_rest_le data hpage
    rw [hw₂.length_eq, hw₁.length_eq, hlen, length_drop]
    simp only [writePages, flushed]
    omega)
  have hw := hw₁.trans hp (hw₂.trans hw₁.valid hw₃)
  rw [nil_append, take_append_drop] at hw
  refine ⟨_, _, ?_, hw, ?_⟩
  · rw [writeAligned, flush_eq hp]
    simp only [bind, Except.bind]
    rw [show p.flushed.pagesSize data = p.pagesSize data from rfl, copy_eq hw₂.valid]
    rfl
  · simp [copied, writePages, flushed]

/-- The alignment condition of `WF` for a writer whose offset has become `offset`. -/
def Aligned (p : Writer) (offset : Nat) : Prop :=
  offset % p.pageSize ≠ 0 →
    p.bufWritePos + (p.pageSize - offset % p.pageSize) ≤ p.bufSize + p.pageSize

theorem aligned_of_rest {start : Nat} (hpage : q.pageSize = p.pageSize)
    (hstart : start % p.pageSize = 0) (hbuf : q.bufWritePos = data.length - p.pagesSize data)
    (hpos : 0 < p.pageSize) : q.Aligned (start + data.length) := by
  intro hne
  have hmod : (start + data.length) % p.pageSize = data.length % p.pageSize := by
    rw [Nat.add_mod, hstart, Nat.zero_add, Nat.mod_mod]
  rw [hpage, hmod] at hne ⊢
  rw [hbuf, pagesSize_rest hne]
  have := Nat.mod_lt data.length hpos
  omega

theorem aligned_of_le (offset : Nat) (h : p.bufWritePos ≤ p.bufSize) : p.Aligned offset := by
  intro _
  omega

theorem writeData_writes (hp : p.WF file)
    (hok : p.bufWritePos + data.length ≤ p.bufSize ∨ 0 < p.pageSize) :
    ∃ q file', p.writeData file data = .ok (q, file') ∧ p.Writes file data q file' ∧
      q.Aligned (p.currentOffset + data.length) := by
  have hlen := hp.length_eq
  by_cases hfit : p.bufWritePos + data.length ≤ p.bufSize
  · refine ⟨p.copied data, file, ?_, copied_writes data hp.valid (by omega), aligned_of_le _ hfit⟩
    rw [writeData, if_pos hfit, copy_eq hp.valid]
    rfl
  have hpage : 0 < p.pageSize := by tauto
  have hmod := Nat.mod_lt p.currentOffset hpage
  by_cases hstart : p.currentOffset % p.pageSize = 0
  · obtain ⟨q, file', hwrite, hw, hbuf⟩ := writeAligned_writes data hp.valid hlen hpage
    refine ⟨q, file', ?_, hw, aligned_of_rest hw.pageSize_eq hstart hbuf hpage⟩
    rw [writeData, if_neg hfit, if_neg (by omega)]
    simp only [hstart, Nat.sub_zero, if_true, hwrite]
  have halign := hp.align hstart
  have hnext : ¬ p.pageSize - p.currentOffset % p.pageSize = p.pageSize := by omega
  by_cases hshort : data.length < p.pageSize - p.currentOffset % p.pageSize
  · refine ⟨p.copied data, file, ?_, copied_writes data hp.valid (by omega), ?_⟩
    · rw [writeData, if_neg hfit, if_neg (by omega)]
      simp only [hnext, hshort, if_false, if_true, copy_eq hp.valid]
      rfl
    · intro _
      have hoff : (p.currentOffset + data.length) % p.pageSize =
          p.currentOffset % p.pageSize + data.length := by
        rw [Nat.add_mod, Nat.mod_eq_of_lt (by omega : data.length < p.pageSize),
          Nat.mod_eq_of_lt (by omega)]
      show p.bufWritePos + data.length +
        (p.pageSize - (p.currentOffset + data.length) % p.pageSize) ≤ p.bufSize + p.pageSize
      rw [hoff]
      omega
  · -- fill the buffer up to the page boundary, then go on from there
    have hw₁ := copied_writes
      (data.take (p.pageSize - p.currentOffset % p.pageSize)) hp.valid (by
        rw [length_take]
        omega)
    obtain ⟨q, file', hwrite, hw₂, hbuf⟩ := writeAligned_writes
      (data.drop (p.pageSize - p.currentOffset % p.pageSize)) hw₁.valid
      (by rw [hw₁.length_eq, hlen, hw₁.pageSize_eq, hw₁.bufSize_eq])
      (by rw [hw₁.pageSize_eq]; exact hpage)
    have hw := hw₁.trans hp.valid hw₂
    rw [take_append_drop] at hw
    have hboundary : (p.currentOffset + (p.pageSize - p.currentOffset % p.pageSize)) %
        p.pageSize = 0 := by
      have hdiv := Nat.div_add_mod' p.currentOffset p.pageSize
      rw [show p.currentOffset + (p.pageSize - p.currentOffset % p.pageSize) =
        (p.currentOffset / p.pageSize + 1) * p.pageSize by rw [Nat.add_mul]; omega]
      exact Nat.mul_mod_left _ _
    refine ⟨q, file', ?_, hw, ?_⟩
    · rw [writeData, if_neg hfit, if_neg (by omega)]
      simp only [hnext, hshort, if_false, copy_eq hp.valid, bind, Except.bind, hwrite]
    · have := aligned_of_rest (p := p) hw.pageSize_eq hboundary hbuf hpage
      rwa [length_drop, Nat.add_assoc, Nat.add_sub_cancel' (by omega)] at this

structure Wrote (p : Writer) (file data : Bytes) (q : Writer) (file' : Bytes) : Prop where
  wf : q.WF file'
  view_eq : q.view file' = writeAt (p.view file) p.currentOffset data
  currentOffset_eq : q.currentOffset = p.currentOffset + data.length
  segmentSize_eq : q.segmentSize = p.segmentSize
  pageSize_eq : q.pageSize = p.pageSize
  bufSize_eq : q.bufSize = p.bufSize

theorem write_exists (data : Bytes) (hp : p.WF file)
    (hok : p.bufWritePos + data.length ≤ p.bufSize ∨ 0 < p.pageSize) :
    ∃ q file', p.write file data = .ok (q, file') ∧ p.Wrote file data q file' := by
  obtain ⟨q, file', hwrite, hw, halign⟩ := writeData_writes hp hok
  refine ⟨{ q with currentOffset := p.currentOffset + data.length }, file', ?_, ?_⟩
  · rw [write, hwrite]
    rfl
  · refine ⟨⟨⟨hw.valid.seek_le, hw.valid.bufWritePos_le⟩, ?_, ?_, halign⟩, ?_, rfl,
      hw.segmentSize_eq, hw.pageSize_eq, hw.bufSize_eq⟩
    · rw [← hp.pos_eq]
      exact hw.pos_eq
    · rw [hw.length_eq, hp.length_eq, hw.bufSize_eq, hw.pageSize_eq]
    · rw [← hp.pos_eq]
      exact hw.view_eq

theorem write_wrote (hp : p.WF file) (h : p.write file data = .ok (q, file')) :
    p.Wrote file data q file' := by
  by_cases hok : p.bufWritePos + data.length ≤ p.bufSize ∨ 0 < p.pageSize
  · obtain ⟨r, file'', hwrite, hw⟩ := write_exists data hp hok
    rw [hwrite] at h
    cases h
    exact hw
  · rw [write, writeData, if_neg (by omega), if_pos (by omega)] at h
    cases h

theorem sync_eq (hp : p.WF file) :
    p.sync file = .ok (p.flushed, p.view file) := flush_eq hp.valid

theorem flushed_wf (hp : p.WF file) : p.flushed.WF (p.view file) where
  valid := (flushed_writes hp.valid).valid
  pos_eq := hp.pos_eq
  length_eq := hp.length_eq
  align := by
    intro _
    simp only [flushed]
    omega

theorem view_flushed (hp : p.WF file) : p.flushed.view (p.view file) = p.view file :=
  view_of_synced (flushed_wf hp).valid rfl

theorem view_take (hp : p.Valid file) : (p.view file).take p.seek = file.take p.seek := by
  have htake := writeAt_take hp.seek_le p.pending
  rw [view]
  have hshort := congrArg (List.take p.seek) htake
  rwa [take_take, Nat.min_eq_left (Nat.le_add_right _ _), take_append_of_le_length
    (by rw [length_take]; have := hp.seek_le; omega), take_take, Nat.min_self] at hshort

theorem copy_seek (h : p.copy data = .ok q) : q.seek = p.seek := by
  unfold copy at h
  split at h <;> cases h
  rfl

theorem flush_seek_le (h : p.flush file = .ok (q, file')) : p.seek ≤ q.seek := by
  unfold flush at h
  split at h <;> cases h
  exact Nat.le_add_right _ _

theorem writeAligned_seek_le (h : p.writeAligned file data = .ok (q, file')) : p.seek ≤ q.seek := by
  obtain ⟨⟨p₁, file₁⟩, hflush, h⟩ := bind_eq_ok.mp h
  obtain ⟨p₂, hcopy, hpure⟩ := bind_eq_ok.mp h
  cases hpure
  rw [copy_seek hcopy]
  exact (flush_seek_le hflush).trans (Nat.le_add_right _ _)

theorem write_seek_le (h : p.write file data = .ok (q, file')) : p.seek ≤ q.seek := by
  obtain ⟨⟨p₁, file₁⟩, hdata, hpure⟩ := bind_eq_ok.mp h
  cases hpure
  show p.seek ≤ p₁.seek
  unfold writeData at hdata
  split at hdata
  · obtain ⟨p₂, hcopy, hpure⟩ := bind_eq_ok.mp hdata
    cases hpure
    exact (copy_seek hcopy).ge
  split at hdata
  · cases hdata
  dsimp only at hdata
  split at hdata
  · exact writeAligned_seek_le hdata
  split at hdata
  · obtain ⟨p₂, hcopy, hpure⟩ := bind_eq_ok.mp hdata
    cases hpure
    exact (copy_seek hcopy).ge
  · obtain ⟨p₂, hcopy, haligned⟩ := bind_eq_ok.mp hdata
    rw [← copy_seek hcopy]
    exact writeAligned_seek_le haligned

/-! ## Whole runs -/

inductive Call
  | write (data : Bytes)
  | sync

def Call.bytes : Call → Bytes
  | write data => data
  | sync => []

def exec (s : Writer × Bytes) : Call → Except WalError (Writer × Bytes)
  | .write data => s.1.write s.2 data
  | .sync => s.1.sync s.2

theorem exec_wrote (call : Call) (hp : p.WF file) (hpage : 0 < p.pageSize) :
    ∃ q file', exec (p, file) call = .ok (q, file') ∧ p.Wrote file call.bytes q file' ∧
      p.seek ≤ q.seek := by
  cases call with
  | write data =>
    obtain ⟨q, file', hwrite, hw⟩ := write_exists data hp (.inr hpage)
    exact ⟨q, file', hwrite, hw, write_seek_le hwrite⟩
  | sync =>
    refine ⟨p.flushed, p.view file, sync_eq hp, ⟨flushed_wf hp, ?_, rfl, rfl, rfl, rfl⟩,
      Nat.le_add_right _ _⟩
    rw [Call.bytes, view_flushed hp, ← hp.pos_eq, writeAt_nil hp.valid.pos_le_view]

theorem Wrote.trans {r : Writer} {file'' a b : Bytes} (hp : p.WF file)
    (h₁ : p.Wrote file a q file') (h₂ : q.Wrote file' b r file'') :
    p.Wrote file (a ++ b) r file'' where
  wf := h₂.wf
  view_eq := by
    rw [h₂.view_eq, h₁.view_eq, h₁.currentOffset_eq,
      writeAt_writeAt (hp.pos_eq ▸ hp.valid.pos_le_view)]
  currentOffset_eq := by
    rw [h₂.currentOffset_eq, h₁.currentOffset_eq, length_append, Nat.add_assoc]
  segmentSize_eq := h₂.segmentSize_eq.trans h₁.segmentSize_eq
  pageSize_eq := h₂.pageSize_eq.trans h₁.pageSize_eq
  bufSize_eq := h₂.bufSize_eq.trans h₁.bufSize_eq

theorem run_wrote (calls : List Call) (hp : p.WF file) (hpage : 0 < p.pageSize) :
    ∃ q file', run exec (p, file) calls = .ok (q, file') ∧
      p.Wrote file (calls.flatMap Call.bytes) q file' ∧ p.seek ≤ q.seek := by
  induction calls generalizing p file with
  | nil =>
    refine ⟨p, file, rfl, ⟨hp, ?_, rfl, rfl, rfl, rfl⟩, le_rfl⟩
    rw [flatMap_nil, ← hp.pos_eq, writeAt_nil hp.valid.pos_le_view]
  | cons call calls ih =>
    obtain ⟨p₁, file₁, hexec, hw₁, hseek₁⟩ := exec_wrote call hp hpage
    obtain ⟨q, file', hrun, hw, hseek⟩ := ih hw₁.wf (hw₁.pageSize_eq ▸ hpage)
    exact ⟨q, file', (run_cons_ok calls hexec).trans hrun, hw₁.trans hp hw, hseek₁.trans hseek⟩

/-- What stands in front of the handle, followed by the buffer, is what stood in front of the
starting offset followed by all that was written. No call fails or overruns the buffer, and a
`Sync` at any point empties it. The gap in front of an offset behind the end of the file reads as
zeros. -/
theorem calls_transparent {pageSize : Nat} (hpage : 0 < pageSize)
    (segmentSize bufSize start : Nat) (file : Bytes) (calls : List Call) :
    ∃ q file', run exec (create segmentSize pageSize bufSize start, zeroExtend file start) calls =
        .ok (q, file') ∧
      start ≤ q.seek ∧ q.seek ≤ file'.length ∧
      file'.take q.seek ++ q.pending =
        (zeroExtend file start).take start ++ calls.flatMap Call.bytes ∧
      q.bufWritePos ≤ q.buffer.length ∧ q.buffer.length = bufSize + pageSize ∧
      q.currentOffset = start + (calls.flatMap Call.bytes).length ∧
      ∃ r file'', q.sync file' = .ok (r, file'') ∧ r.bufWritePos = 0 := by
  have hstart : start ≤ (zeroExtend file start).length := by
    rw [zeroExtend, length_append, zeros_length]
    omega
  have hwf : (create segmentSize pageSize bufSize start).WF (zeroExtend file start) :=
    create_wf hstart
  obtain ⟨q, file', hrun, hw, hseek⟩ := run_wrote calls hwf hpage
  refine ⟨q, file', hrun, hseek, hw.wf.valid.seek_le, ?_, hw.wf.valid.bufWritePos_le, ?_,
    hw.currentOffset_eq, q.flushed, _, sync_eq hw.wf, rfl⟩
  · have hview := congrArg (List.take (q.seek + q.bufWritePos)) hw.view_eq
    rw [view_of_synced hwf.valid rfl, hw.wf.pos_eq, hw.currentOffset_eq] at hview
    rw [← writeAt_take hw.wf.valid.seek_le, pending_length hw.wf.valid.bufWritePos_le, hw.wf.pos_eq,
      hw.currentOffset_eq]
    exact hview.trans (writeAt_take hstart _)
  · rw [hw.wf.length_eq, hw.bufSize_eq, hw.pageSize_eq]
    rfl

theorem calls_transparent_gap :
    ∃ q file', run exec (create 16 4 2 3, zeroExtend [] 3) [.write [7, 8, 9], .sync] =
      .ok (q, file') ∧ file'.take q.seek ++ q.pending = [0, 0, 0, 7, 8, 9] := by
  obtain ⟨q, file', hrun, -, -, hfile, -⟩ :=
    calls_transparent (by decide : 0 < 4) 16 2 3 [] [.write [7, 8, 9], .sync]
  exact ⟨q, file', hrun, hfile⟩

end Writer

end Babuza.Babuzawal
