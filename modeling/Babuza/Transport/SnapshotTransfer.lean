import Babuza.Lib.Keyed
import Babuza.Snapshot.Receiver
import Mathlib.Logic.Function.Basic

/-!
# Sending a snapshot in chunks

`sendSnapshotMessageLoop` (`pkg/transport/peer/peer.go`) sends the metadata of a snapshot, the files
that are not external in chunks with number, running CRC32 and an end mark, and a Finish message.
`transfer_iff`: a snapshot arrives byte by byte, unless it has no file, a file is empty (the final
check misses it), or the running CRC is 0 at the end of a chunk (the receiver takes 0 for a missing
one).
-/

namespace Babuza.Transport

open Lib Snapshot List

section Sender

variable (crc32 : UInt32 → Bytes → UInt32) (size : Nat)

/-- The loop over a file. `rest` is what is still to be read; a read that gives nothing ends the
loop. -/
def chunkLoop (d : SnapshotFileDesc) :
    (fuel : Nat) → (rest : Bytes) → (written : Nat) → (id : Int) → (crc : UInt32) →
      List SnapshotChunkMessage
  | 0, _, _, _, _ => []
  | fuel + 1, rest, written, id, crc =>
    let data := rest.take size
    if data = [] then []
    else
      let written := written + data.length
      let crc := crc32 crc data
      ⟨d.tag, d.fileType, id + 1, data, decide (d.fileSize = written), crc⟩ ::
        chunkLoop d fuel (rest.drop size) written (id + 1) crc

def sendSnapshotMsgWithChunk (d : SnapshotFileDesc) (bytes : Bytes) : List SnapshotChunkMessage :=
  chunkLoop crc32 size d bytes.length bytes 0 0 0

/-- The chunks of all files that are not external, and whether the sender gets to the end: it stops
at a file that it cannot read or that has not the listed size. -/
def forEachFile (files : Folder) : List SnapshotFileDesc → List SnapshotChunkMessage × Bool
  | [] => ([], true)
  | d :: rest =>
    if d.isExternal then forEachFile files rest
    else match (snapshotFileName d.fileType d.tag).bind files.lookup with
      | none => ([], false)
      | some bytes =>
        let chunks := sendSnapshotMsgWithChunk crc32 size d bytes
        if d.fileSize = bytes.length then
          (chunks ++ (forEachFile files rest).1, (forEachFile files rest).2)
        else (chunks, false)

/-- The messages that the sender hands to the transport, if each of them is answered with
success. -/
def sendSnapshotMessageLoop (clusterID toID : Nat) (snapshot : InstalledSnapshot) :
    List SnapshotMessage :=
  let chunks := forEachFile crc32 size snapshot.files snapshot.metadata.files
  let bodies := .metadata snapshot.metadata :: chunks.1.map .chunk ++
    if chunks.2 then [.finish toID] else []
  bodies.map fun body => ⟨clusterID, toID, snapshot.metadata.index, body⟩

/-- The running CRC at the end of each chunk. -/
def runningCrcs : (fuel : Nat) → (rest : Bytes) → (crc : UInt32) → List UInt32
  | 0, _, _ => []
  | fuel + 1, rest, crc =>
    if rest = [] then []
    else crc32 crc (rest.take size) :: runningCrcs fuel (rest.drop size)
      (crc32 crc (rest.take size))

end Sender

/-- The answers of a follower to messages that arrive in order. -/
def deliver (cfg : ReceiverConfig) (s : Storage) :
    List SnapshotMessage → Except Crash (Storage × List Snapshot.Response)
  | [] => .ok (s, [])
  | msg :: rest => do
    let (s, response) ← processSnapshotMessage cfg s msg true
    let (s, responses) ← deliver cfg s rest
    .ok (s, response :: responses)

/-- What the writer of a snapshot ensures: the metadata file can be read, every listed file that is
not external is in the folder with the listed size and CRC64, no two have a name in common, and none
is the metadata file. -/
structure WellFormed (cfg : ReceiverConfig) (snapshot : InstalledSnapshot) : Prop where
  reads : cfg.Reads snapshot.metadata
  version : snapshot.metadata.version = cfg.version
  files_match : ∀ d ∈ snapshot.metadata.files, d.isExternal = false →
    Matches cfg.crc64 snapshot.files d
  plain : ∀ name ∈ listed snapshot.metadata, name.Plain
  names_nodup : (listed snapshot.metadata).Nodup
  not_metadata : FileName.metadata ∉ listed snapshot.metadata

/-! ## Messages that are answered with success -/

/-- Every message is answered with success, and the last state is `s'`. -/
def Accepts (cfg : ReceiverConfig) (s : Storage) (msgs : List SnapshotMessage) (s' : Storage) :
    Prop :=
  ∃ responses, deliver cfg s msgs = .ok (s', responses) ∧ ∀ r ∈ responses, r = .success

variable {cfg : ReceiverConfig} {size : Nat}

variable {s s' : Storage}

@[simp] theorem accepts_nil : Accepts cfg s [] s' ↔ s' = s := by
  constructor
  · rintro ⟨responses, h, -⟩
    cases h
    rfl
  · rintro rfl
    exact ⟨[], rfl, by simp⟩

variable {msgs : List SnapshotMessage}

theorem all_success_cons (answered : Except Crash (Storage × Snapshot.Response))
    (others : Storage → Except Crash (Storage × List Snapshot.Response)) :
    (∃ responses, (do
        let (s, response) ← answered
        let (s, responses) ← others s
        .ok (s, response :: responses)) = .ok (s', responses) ∧ ∀ r ∈ responses, r = .success) ↔
      ∃ s₁, answered = .ok (s₁, .success) ∧
        ∃ responses, others s₁ = .ok (s', responses) ∧ ∀ r ∈ responses, r = .success := by
  constructor
  · rintro ⟨responses, h, hall⟩
    obtain ⟨⟨s₁, response⟩, hmsg, h⟩ := bind_eq_ok.mp h
    obtain ⟨⟨s₂, rest⟩, hrest, h⟩ := bind_eq_ok.mp h
    cases h
    obtain ⟨rfl, hothers⟩ := forall_mem_cons.mp hall
    exact ⟨s₁, hmsg, rest, hrest, hothers⟩
  · rintro ⟨s₁, hmsg, rest, hrest, hall⟩
    refine ⟨.success :: rest, ?_, forall_mem_cons.mpr ⟨rfl, hall⟩⟩
    simp only [hmsg, ok_bind, hrest]

theorem accepts_cons {msg : SnapshotMessage} :
    Accepts cfg s (msg :: msgs) s' ↔
      ∃ s₁, processSnapshotMessage cfg s msg true = .ok (s₁, .success) ∧ Accepts cfg s₁ msgs s' :=
  all_success_cons (processSnapshotMessage cfg s msg true) fun s => deliver cfg s msgs

theorem accepts_append {front back : List SnapshotMessage} :
    Accepts cfg s (front ++ back) s' ↔
      ∃ s₁, Accepts cfg s front s₁ ∧ Accepts cfg s₁ back s' := by
  induction front generalizing s with
  | nil => simp
  | cons msg front ih =>
    simp only [cons_append, accepts_cons, ih, exists_and_exists_iff]

theorem accepts_unique {s₁ s₂ : Storage} (h₁ : Accepts cfg s msgs s₁) (h₂ : Accepts cfg s msgs s₂) :
    s₁ = s₂ := by
  obtain ⟨_, h₁, -⟩ := h₁
  obtain ⟨_, h₂, -⟩ := h₂
  cases h₁.symm.trans h₂
  rfl

def message (cfg : ReceiverConfig) (index : Nat) (body : SnapshotMessageBody) : SnapshotMessage :=
  ⟨cfg.clusterID, cfg.localID, index, body⟩

theorem process_metadata (s : Storage) (index : Nat) (m : Snapshot.SnapshotMetadata) :
    processSnapshotMessage cfg s (message cfg index (.metadata m)) true =
      .ok ((processMetadata s m).1, answer (processMetadata s m).2) := by
  simp only [processSnapshotMessage, message, ne_eq, not_true_eq_false, or_self, if_false]
  rfl

variable {chunk : SnapshotChunkMessage} {index : Nat}

theorem process_chunk_eq_success :
    processSnapshotMessage cfg s (message cfg index (.chunk chunk)) true = .ok (s', .success) ↔
      processChunk cfg s index chunk = .ok (s', none) := by
  simp only [processSnapshotMessage, message, ne_eq, not_true_eq_false, or_self, if_false]
  cases h : processChunk cfg s index chunk with
  | error crash => simp [Except.map]
  | ok res =>
    obtain ⟨s₁, _ | e⟩ := res
    all_goals simp [Except.map, answer]

theorem process_finish_eq_success (hid : cfg.localID ≠ 0) :
    processSnapshotMessage cfg s (message cfg index (.finish cfg.localID)) true =
      .ok (s', .success) ↔
      ∃ r s₁, s.snapshotReceiver = some r ∧ commit cfg s r index = .ok (s₁, none) ∧
        s' = { s₁ with snapshotReceiver := none } := by
  simp only [processSnapshotMessage, message, ne_eq, not_true_eq_false, or_self, if_false,
    processFinish, hid]
  cases hr : s.snapshotReceiver with
  | none => simp
  | some r =>
    cases hc : commit cfg s r index with
    | error crash => simp [hc]
    | ok res =>
      obtain ⟨s₁, _ | e⟩ := res
      · simp [hc, eq_comm]
      · simp [hc]

/-- The receiver has the metadata `m`, its folder holds `files` and the files that are under way
have `validators`; besides that the storage is as in `base`. -/
def Receiving (base : Storage) (m : Snapshot.SnapshotMetadata) (files : FileName → Option Bytes)
    (validators : FileTag → Option ChunkValidator) (s : Storage) : Prop :=
  ∃ r folder, s.snapshotReceiver = some r ∧ r.metadata = m ∧
    (∀ tag, r.chunkValidator.lookup tag = validators tag) ∧
    s.temp.lookup m.index = some folder ∧ (∀ name, folder.lookup name = files name) ∧
    s.installed = base.installed ∧ s.unregistered = base.unregistered

/-- The validator that meets a chunk of a tag. -/
def Meets (validators : FileTag → Option ChunkValidator) (d : SnapshotFileDesc)
    (v : ChunkValidator) : Prop :=
  validators d.tag = some v ∨
    validators d.tag = none ∧ ∃ name, snapshotFileName d.fileType d.tag = some name ∧ v = .new name

variable {m : Snapshot.SnapshotMetadata} {files : FileName → Option Bytes} {d : SnapshotFileDesc}
  {validators : FileTag → Option ChunkValidator} {base : Storage}

theorem processChunk_next (h : Receiving base m files validators s) {v : ChunkValidator}
    (hv : Meets validators d v) (hfinish : v.finish = false) (hplain : v.fileName.Plain)
    (data : Bytes) (last : Bool) (hcrc : cfg.crc32 v.continueCrc32 data ≠ 0) :
    ∃ s', processChunk cfg s m.index
        ⟨d.tag, d.fileType, v.nextChunkId, data, last, cfg.crc32 v.continueCrc32 data⟩ =
          .ok (s', none) ∧
      Receiving base m
        (Function.update files v.fileName (some ((files v.fileName).getD [] ++ data)))
        (Function.update validators d.tag (if last then none else some { v with
          continueCrc32 := cfg.crc32 v.continueCrc32 data, nextChunkId := v.nextChunkId + 1 }))
            s' := by
  obtain ⟨r, folder, hr, rfl, hvalidators, hfolder, hfiles, hinstalled, hunregistered⟩ := h
  have hvalidator : r.validator ⟨d.tag, d.fileType, v.nextChunkId, data, last,
      cfg.crc32 v.continueCrc32 data⟩ = some v := by
    unfold Receiver.validator
    rw [hvalidators]
    obtain hsome | ⟨hnone, name, hname, rfl⟩ := hv
    · rw [hsome]
    · rw [hnone, hname]
      rfl
  refine ⟨(s.withFolder r.metadata.index (folder.append v.fileName data)).withValidators r
    (if last then r.chunkValidator.erase d.tag else r.chunkValidator.insert d.tag { v with
      continueCrc32 := cfg.crc32 v.continueCrc32 data, nextChunkId := v.nextChunkId + 1 }), ?_, ?_⟩
  · simp only [processChunk, hr, if_pos hcrc, saveChunk, ne_eq, not_true_eq_false, if_false,
      hvalidator, ChunkValidator.validate, hfinish, Bool.false_eq_true, appendChunk, hplain,
      hfolder]
    rfl
  · refine ⟨_, _, rfl, rfl, ?_, AList.lookup_insert _, ?_, hinstalled, hunregistered⟩
    · intro tag
      cases last with
      | true =>
        exact (alist_lookup_erase _ _ tag).trans (by simp [hvalidators, Function.update_apply])
      | false =>
        exact (alist_lookup_insert _ _ _ tag).trans (by simp [hvalidators, Function.update_apply])
    · intro name
      rw [Folder.append, hfiles, alist_lookup_insert, hfiles, Function.update_apply]

/-! ## One file -/

theorem chunkLoop_nil (d : SnapshotFileDesc) (fuel written : Nat) (id : Int) (crc : UInt32) :
    chunkLoop cfg.crc32 size d fuel [] written id crc = [] := by
  cases fuel <;> simp [chunkLoop]

theorem map_continueCrc32_chunkLoop (hsize : 0 < size) (d : SnapshotFileDesc) (fuel : Nat)
    (rest : Bytes) (written : Nat) (id : Int) (crc : UInt32) :
    (chunkLoop cfg.crc32 size d fuel rest written id crc).map (·.continueCrc32) =
      runningCrcs cfg.crc32 size fuel rest crc := by
  induction fuel generalizing rest written id crc with
  | zero => rfl
  | succ fuel ih =>
    have hempty : rest.take size = [] ↔ rest = [] := by
      rw [take_eq_nil_iff]
      exact or_iff_right hsize.ne'
    simp only [chunkLoop, runningCrcs, hempty]
    split
    · rfl
    · rw [map_cons, ih]

variable {name : FileName}

theorem accepts_chunkLoop (hsize : 0 < size) (hplain : name.Plain) {fuel : Nat} {rest : Bytes}
    (written : Nat) (id : Int) {crc : UInt32} (h : Receiving base m files validators s)
    (hv : Meets validators d ⟨name, id + 1, crc, false⟩) (hne : rest ≠ [])
    (hfuel : rest.length ≤ fuel) (hlength : d.fileSize = (written : Int) + rest.length)
    (hcrc : 0 ∉ runningCrcs cfg.crc32 size fuel rest crc) :
    ∃ s', Accepts cfg s ((chunkLoop cfg.crc32 size d fuel rest written id crc).map
        fun chunk => message cfg m.index (.chunk chunk)) s' ∧
      Receiving base m (Function.update files name (some ((files name).getD [] ++ rest)))
        (Function.update validators d.tag none) s' := by
  induction fuel generalizing rest written id crc files validators s with
  | zero => exact absurd (eq_nil_of_length_eq_zero (by omega)) hne
  | succ fuel ih =>
    have hdata : rest.take size ≠ [] := by
      rw [Ne, take_eq_nil_iff, not_or]
      exact ⟨hsize.ne', hne⟩
    simp only [runningCrcs, if_neg hne, mem_cons, not_or] at hcrc
    obtain ⟨hzero, hcrc⟩ := hcrc
    have hsplit : (rest.take size).length + (rest.drop size).length = rest.length := by
      rw [← length_append, take_append_drop]
    obtain ⟨s₁, hs₁, hR₁⟩ := processChunk_next h hv rfl hplain (rest.take size)
      (decide (d.fileSize = ((written + (rest.take size).length : Nat) : Int))) (Ne.symm hzero)
    simp only [chunkLoop, if_neg hdata, map_cons]
    by_cases hrest : rest.drop size = []
    · -- the last chunk
      have hlast : d.fileSize = ((written + (rest.take size).length : Nat) : Int) := by
        rw [hrest, length_nil] at hsplit
        push_cast
        omega
      have hall : rest.take size = rest := by
        have := take_append_drop size rest
        rwa [hrest, append_nil] at this
      refine ⟨s₁, ?_, ?_⟩
      · rw [hrest, chunkLoop_nil, map_nil, accepts_cons]
        exact ⟨s₁, process_chunk_eq_success.mpr hs₁, accepts_nil.mpr rfl⟩
      · simpa only [hlast, decide_true, if_true, hall] using hR₁
    · have hpos : 0 < (rest.drop size).length := length_pos_iff.mpr hrest
      have hnot : ¬ d.fileSize = ((written + (rest.take size).length : Nat) : Int) := by
        push_cast
        omega
      simp only [hnot, decide_false, Bool.false_eq_true, if_false] at hR₁ hs₁ ⊢
      obtain ⟨s', hs', hR'⟩ := ih (written + (rest.take size).length) (id + 1) hR₁
        (.inl (Function.update_self ..)) hrest
        (by
          have := length_pos_iff.mpr hdata
          omega)
        (by
          push_cast
          omega) hcrc
      refine ⟨s', accepts_cons.mpr ⟨s₁, process_chunk_eq_success.mpr hs₁, hs'⟩, ?_⟩
      simpa [Function.update_idem, append_assoc, take_append_drop] using hR'

variable {bytes : Bytes}

theorem accepts_file (hsize : 0 < size) (hname : snapshotFileName d.fileType d.tag = some name)
    (hplain : name.Plain) (h : Receiving base m files (fun _ => none) s) (hfree : files name = none)
    (hlength : d.fileSize = bytes.length)
    (hcrc : 0 ∉ runningCrcs cfg.crc32 size bytes.length bytes 0) :
    ∃ s', Accepts cfg s ((sendSnapshotMsgWithChunk cfg.crc32 size d bytes).map
        fun chunk => message cfg m.index (.chunk chunk)) s' ∧
      Receiving base m (Function.update files name (if bytes = [] then none else some bytes))
        (fun _ => none) s' := by
  by_cases hne : bytes = []
  · refine ⟨s, ?_, ?_⟩
    · rw [hne, sendSnapshotMsgWithChunk, chunkLoop_nil]
      exact accepts_nil.mpr rfl
    · rwa [if_pos hne, ← hfree, Function.update_eq_self]
  · obtain ⟨s', hs', hR⟩ := accepts_chunkLoop hsize hplain 0 0 h
      (.inr ⟨rfl, name, hname, rfl⟩) hne le_rfl (by simpa using hlength) hcrc
    refine ⟨s', hs', ?_⟩
    rw [if_neg hne]
    have hnone : Function.update (fun _ : FileTag => (none : Option ChunkValidator)) d.tag none =
        fun _ => none := Function.update_eq_self d.tag _
    simpa only [hfree, Option.getD_none, nil_append, hnone] using hR

/-! ## All files -/

theorem localNames_cons_of_external (h : d.isExternal = true) (ds : List SnapshotFileDesc) :
    localNames (d :: ds) = localNames ds := by
  simp [localNames, h]

theorem localNames_cons (h : d.isExternal = false)
    (hname : snapshotFileName d.fileType d.tag = some name) (ds : List SnapshotFileDesc) :
    localNames (d :: ds) = name :: localNames ds := by
  simp [localNames, h, hname]

/-- The files of a snapshot that the transfer can carry. -/
def SafeCrc (cfg : ReceiverConfig) (size : Nat) (source : Folder) (d : SnapshotFileDesc) : Prop :=
  ∀ name bytes, snapshotFileName d.fileType d.tag = some name → source.lookup name = some bytes →
    0 ∉ runningCrcs cfg.crc32 size bytes.length bytes 0

variable {ds : List SnapshotFileDesc} {source : Folder}

theorem forEachFile_cons (h : d.isExternal = false)
    (hname : snapshotFileName d.fileType d.tag = some name)
    (hbytes : source.lookup name = some bytes) (hlength : (bytes.length : Int) = d.fileSize) :
    forEachFile cfg.crc32 size source (d :: ds) =
      (sendSnapshotMsgWithChunk cfg.crc32 size d bytes ++ (forEachFile cfg.crc32 size source ds).1,
        (forEachFile cfg.crc32 size source ds).2) := by
  simp [forEachFile, h, hname, hbytes, hlength]

section

variable (hmatch : ∀ d ∈ ds, d.isExternal = false → Matches cfg.crc64 source d)
include hmatch

theorem forEachFile_complete : (forEachFile cfg.crc32 size source ds).2 = true := by
  induction ds with
  | nil => rfl
  | cons d ds ih =>
    obtain ⟨hd, hds⟩ := forall_mem_cons.mp hmatch
    cases hext : d.isExternal with
    | true =>
      rw [forEachFile, if_pos hext]
      exact ih hds
    | false =>
      obtain ⟨name, bytes, hname, hbytes, hlength, -⟩ := hd hext
      rw [forEachFile_cons hext hname hbytes hlength]
      exact ih hds

theorem mem_forEachFile (hd : d ∈ ds) (hlocal : d.isExternal = false)
    (hname : snapshotFileName d.fileType d.tag = some name)
    (hbytes : source.lookup name = some bytes)
    (hchunk : chunk ∈ sendSnapshotMsgWithChunk cfg.crc32 size d bytes) :
    chunk ∈ (forEachFile cfg.crc32 size source ds).1 := by
  induction ds with
  | nil => cases hd
  | cons d' ds ih =>
    obtain ⟨hd', hds⟩ := forall_mem_cons.mp hmatch
    cases hext : d'.isExternal with
    | true =>
      rw [forEachFile, if_pos hext]
      obtain rfl | hd := mem_cons.mp hd
      · cases hlocal.symm.trans hext
      · exact ih hds hd
    | false =>
      obtain ⟨name', bytes', hname', hbytes', hlength, -⟩ := hd' hext
      rw [forEachFile_cons hext hname' hbytes' hlength]
      obtain rfl | hd := mem_cons.mp hd
      · cases hname.symm.trans hname'
        cases hbytes.symm.trans hbytes'
        exact mem_append_left _ hchunk
      · exact mem_append_right _ (ih hds hd)

end

theorem accepts_forEachFile (hsize : 0 < size)
    (hmatch : ∀ d ∈ ds, d.isExternal = false → Matches cfg.crc64 source d)
    (hplain : ∀ name ∈ localNames ds, name.Plain) (hnodup : (localNames ds).Nodup)
    (hcrc : ∀ d ∈ ds, d.isExternal = false → SafeCrc cfg size source d)
    (h : Receiving base m files (fun _ => none) s)
    (hfree : ∀ name ∈ localNames ds, files name = none) :
    ∃ s' files', Accepts cfg s ((forEachFile cfg.crc32 size source ds).1.map
        fun chunk => message cfg m.index (.chunk chunk)) s' ∧
      Receiving base m files' (fun _ => none) s' ∧
      (∀ name, name ∉ localNames ds → files' name = files name) ∧
      ∀ name ∈ localNames ds,
        files' name = if source.lookup name = some [] then none else source.lookup name := by
  induction ds generalizing files s with
  | nil => exact ⟨s, files, accepts_nil.mpr rfl, h, fun _ _ => rfl, by simp [localNames]⟩
  | cons d ds ih =>
    obtain ⟨hd, hds⟩ := forall_mem_cons.mp hmatch
    obtain ⟨hcd, hcds⟩ := forall_mem_cons.mp hcrc
    cases hext : d.isExternal with
    | true =>
      rw [localNames_cons_of_external hext] at hplain hnodup hfree ⊢
      rw [forEachFile, if_pos hext]
      exact ih hds hplain hnodup hcds h hfree
    | false =>
      obtain ⟨name, bytes, hname, hbytes, hlength, -⟩ := hd hext
      rw [localNames_cons hext hname] at hplain hnodup hfree ⊢
      obtain ⟨hplain₀, hplain⟩ := forall_mem_cons.mp hplain
      obtain ⟨hfree₀, hfree⟩ := forall_mem_cons.mp hfree
      obtain ⟨hnot, hnodup⟩ := nodup_cons.mp hnodup
      obtain ⟨s₁, hs₁, hR₁⟩ := accepts_file hsize hname hplain₀ h hfree₀ hlength.symm
        (hcd hext name bytes hname hbytes)
      have hother : ∀ other, other ≠ name → Function.update files name
          (if bytes = [] then none else some bytes) other = files other :=
        fun other hne => Function.update_of_ne hne ..
      obtain ⟨s', files', hs', hR', hsame, hnew⟩ := ih hds hplain hnodup hcds hR₁ (by
        intro other hmem
        rw [hother other (fun heq => hnot (heq ▸ hmem))]
        exact hfree other hmem)
      refine ⟨s', files', ?_, hR', ?_, ?_⟩
      · rw [forEachFile_cons hext hname hbytes hlength, map_append, accepts_append]
        exact ⟨s₁, hs₁, hs'⟩
      · intro other hmem
        obtain ⟨hne, hmem⟩ := not_or.mp (mt mem_cons.mpr hmem)
        rw [hsame other hmem, hother other hne]
      · refine forall_mem_cons.mpr ⟨?_, hnew⟩
        rw [hsame name hnot, Function.update_self, hbytes]
        simp

/-! ## The end of a transfer -/

theorem commitSnapshot_eq_none_iff (cfg : ReceiverConfig) (folder : Folder) :
    (commitSnapshot cfg s index m folder).2 = none ↔
      (index ∉ s.installed ∧ index ∉ s.unregistered) ∧ handled cfg index m = true := by
  rw [← not_or]
  unfold commitSnapshot
  by_cases hfree : index ∈ s.installed ∨ index ∈ s.unregistered
  · simp [hfree]
  · cases hhandled : handled cfg index m <;> simp [hfree]

theorem commit_receiving (h : Receiving base m files validators s) (hreads : cfg.Reads m)
    (hversion : m.version = cfg.version) :
    ∃ (r : Receiver) (folder : Folder), s.snapshotReceiver = some r ∧
      (∀ name, folder.lookup name = files name) ∧
      ((∃ s', commit cfg s r m.index = .ok (s', none)) ↔
        validateSnapshotFiles cfg (folder.withMetadata cfg m) m.files = .ok none ∧
        (m.index ∉ base.installed ∧ m.index ∉ base.unregistered) ∧ handled cfg m.index m = true) ∧
      ∀ s', commit cfg s r m.index = .ok (s', none) →
        s'.installed.lookup m.index = some ⟨m, folder.withMetadata cfg m⟩ := by
  obtain ⟨r, folder, hr, rfl, -, hfolder, hfiles, hinstalled, hunregistered⟩ := h
  let full := folder.withMetadata cfg r.metadata
  let written := s.withFolder r.metadata.index full
  have hcommit : ∀ s', commit cfg s r r.metadata.index = .ok (s', none) ↔
      validateSnapshotFiles cfg full r.metadata.files = .ok none ∧
        commitSnapshot cfg written r.metadata.index r.metadata full = (s', none) := by
    intro s'
    simp only [commit, hfolder, commitWritten_withMetadata hreads, hversion, ne_eq,
      not_true_eq_false, if_false]
    rcases validateSnapshotFiles cfg (folder.withMetadata cfg r.metadata) r.metadata.files
      with crash | _ | e
    all_goals simp [full, written]
  have hfree : (commitSnapshot cfg written r.metadata.index r.metadata full).2 = none ↔ _ :=
    commitSnapshot_eq_none_iff cfg full
  rw [← hinstalled, ← hunregistered]
  refine ⟨r, folder, hr, hfiles, ⟨?_, ?_⟩, ?_⟩
  · rintro ⟨s', hs'⟩
    obtain ⟨hvalid, hinstall⟩ := (hcommit s').mp hs'
    exact ⟨hvalid, hfree.mp (congrArg Prod.snd hinstall)⟩
  · rintro ⟨hvalid, hnothing⟩
    exact ⟨_, (hcommit _).mpr ⟨hvalid, Prod.ext rfl (hfree.mpr hnothing)⟩⟩
  · intro s' hs'
    obtain ⟨-, -, hlookup⟩ := commitSnapshot_cases cfg written r.metadata.index r.metadata full
    rw [((hcommit s').mp hs').2] at hlookup
    exact hlookup rfl

theorem metadata_iff (hreceiver : s.snapshotReceiver = none) :
    (processMetadata s m).2 = none ↔ m.files ≠ [] ∧ m.index ∉ s.installed ∧ m.index ∉ s.temp := by
  have hdir : deleteDir s = s := by simp only [deleteDir, hreceiver]
  simp only [processMetadata, createReceiver, hdir]
  split_ifs <;> simp_all

theorem metadata_receiving (hreceiver : s.snapshotReceiver = none) (hfiles : m.files ≠ [])
    (hinstalled : m.index ∉ s.installed) (htemp : m.index ∉ s.temp) :
    ∃ s', processMetadata s m = (s', none) ∧ Receiving s m (fun _ => none) (fun _ => none) s' := by
  have hdir : deleteDir s = s := by simp only [deleteDir, hreceiver]
  have hprocess : processMetadata s m =
      ({ s with temp := s.temp.insert m.index ∅, snapshotReceiver := some ⟨m, ∅⟩ }, none) := by
    simp only [processMetadata, if_neg hfiles, createReceiver, hdir, if_neg hinstalled,
      if_neg htemp]
  refine ⟨_, hprocess, ?_⟩
  exact ⟨_, ∅, rfl, rfl, fun _ => AList.lookup_empty _, AList.lookup_insert _,
    fun _ => AList.lookup_empty _, rfl, rfl⟩

variable {snapshot : InstalledSnapshot}

def chunkMessages (cfg : ReceiverConfig) (size : Nat) (snapshot : InstalledSnapshot) :
    List SnapshotMessage :=
  (forEachFile cfg.crc32 size snapshot.files snapshot.metadata.files).1.map
    fun chunk => message cfg snapshot.metadata.index (.chunk chunk)

theorem sendSnapshotMessageLoop_eq (hwf : WellFormed cfg snapshot) :
    sendSnapshotMessageLoop cfg.crc32 size cfg.clusterID cfg.localID snapshot =
      message cfg snapshot.metadata.index (.metadata snapshot.metadata) ::
        chunkMessages cfg size snapshot ++
        [message cfg snapshot.metadata.index (.finish cfg.localID)] := by
  simp [sendSnapshotMessageLoop, chunkMessages, forEachFile_complete hwf.files_match, message]

theorem continueCrc32_ne_zero_of_accepts {chunks : List SnapshotChunkMessage}
    (h : Accepts cfg s (chunks.map fun chunk => message cfg index (.chunk chunk)) s') :
    ∀ chunk ∈ chunks, chunk.continueCrc32 ≠ 0 := by
  induction chunks generalizing s with
  | nil => simp
  | cons chunk chunks ih =>
    rw [map_cons, accepts_cons] at h
    obtain ⟨s₁, hchunk, hrest⟩ := h
    refine forall_mem_cons.mpr ⟨?_, ih hrest⟩
    intro hzero
    have hprocess := process_chunk_eq_success.mp hchunk
    unfold processChunk at hprocess
    split at hprocess
    · cases hprocess
    · rw [if_neg (not_not.mpr hzero)] at hprocess
      cases hprocess

section

variable (hsize : 0 < size) (hwf : WellFormed cfg snapshot) (hreceiver : s.snapshotReceiver = none)
include hsize hwf hreceiver

theorem accepts_chunks (hinstalled : snapshot.metadata.index ∉ s.installed)
    (htemp : snapshot.metadata.index ∉ s.temp) (hfiles : snapshot.metadata.files ≠ [])
    (hcrc : ∀ d ∈ snapshot.metadata.files, d.isExternal = false →
      SafeCrc cfg size snapshot.files d) :
    ∃ s' files, Accepts cfg s (message cfg snapshot.metadata.index (.metadata snapshot.metadata) ::
        chunkMessages cfg size snapshot) s' ∧
      Receiving s snapshot.metadata files (fun _ => none) s' ∧
      (∀ name, name ∉ listed snapshot.metadata → files name = none) ∧
      ∀ name ∈ listed snapshot.metadata, files name =
        if snapshot.files.lookup name = some [] then none else snapshot.files.lookup name := by
  obtain ⟨s₁, hs₁, hR₁⟩ := metadata_receiving hreceiver hfiles hinstalled htemp
  obtain ⟨s', files, hs', hR, hother, hnew⟩ := accepts_forEachFile hsize hwf.files_match hwf.plain
    hwf.names_nodup hcrc hR₁ (fun _ _ => rfl)
  refine ⟨s', files, accepts_cons.mpr ⟨s₁, ?_, hs'⟩, hR, hother, hnew⟩
  rw [process_metadata, hs₁]
  rfl

/-- If Metadata and the chunks are answered with success, the state before Finish is the one that
`accepts_chunks` gives. -/
theorem receiving_of_accepts {s₂ : Storage}
    (h : Accepts cfg s (message cfg snapshot.metadata.index (.metadata snapshot.metadata) ::
      chunkMessages cfg size snapshot) s₂) :
    (snapshot.metadata.files ≠ [] ∧ snapshot.metadata.index ∉ s.installed ∧
      snapshot.metadata.index ∉ s.temp) ∧
    (∀ d ∈ snapshot.metadata.files, d.isExternal = false → SafeCrc cfg size snapshot.files d) ∧
    ∃ files, Receiving s snapshot.metadata files (fun _ => none) s₂ ∧
      (∀ name, name ∉ listed snapshot.metadata → files name = none) ∧
      ∀ name ∈ listed snapshot.metadata, files name =
        if snapshot.files.lookup name = some [] then none else snapshot.files.lookup name := by
  obtain ⟨s₁, hmetadata, hchunks⟩ := accepts_cons.mp h
  have hopened : (processMetadata s snapshot.metadata).2 = none := by
    rw [process_metadata] at hmetadata
    cases he : (processMetadata s snapshot.metadata).2 with
    | none => rfl
    | some e => simp [he, answer] at hmetadata
  have hfree := (metadata_iff hreceiver).mp hopened
  have hsafe : ∀ d ∈ snapshot.metadata.files, d.isExternal = false →
      SafeCrc cfg size snapshot.files d := by
    intro d hd hlocal name bytes hname hbytes hzero
    rw [← map_continueCrc32_chunkLoop hsize d bytes.length bytes 0 0 0] at hzero
    obtain ⟨chunk, hchunk, hcrc⟩ := mem_map.mp hzero
    exact continueCrc32_ne_zero_of_accepts hchunks chunk
      (mem_forEachFile hwf.files_match hd hlocal hname hbytes hchunk) hcrc
  obtain ⟨s₂', files, hs₂', hfiles⟩ :=
    accepts_chunks hsize hwf hreceiver hfree.2.1 hfree.2.2 hfree.1 hsafe
  cases accepts_unique h hs₂'
  exact ⟨hfree, hsafe, files, hfiles⟩

end

/-- What a transfer needs: there is a file, no file that is not external is empty or has the running
CRC 0 at the end of a chunk, the follower has no folder of this index and its handler takes the
external files. -/
structure Transferable (cfg : ReceiverConfig) (size : Nat) (snapshot : InstalledSnapshot)
    (s : Storage) : Prop where
  files_ne_nil : snapshot.metadata.files ≠ []
  not_installed : snapshot.metadata.index ∉ s.installed
  not_unregistered : snapshot.metadata.index ∉ s.unregistered
  not_temp : snapshot.metadata.index ∉ s.temp
  external_handled : handled cfg snapshot.metadata.index snapshot.metadata = true
  not_empty : ∀ d ∈ snapshot.metadata.files, d.isExternal = false → ∀ name bytes,
    snapshotFileName d.fileType d.tag = some name → snapshot.files.lookup name = some bytes →
      bytes ≠ []
  crc_ne_zero : ∀ d ∈ snapshot.metadata.files, d.isExternal = false → ∀ name bytes,
    snapshotFileName d.fileType d.tag = some name → snapshot.files.lookup name = some bytes →
      0 ∉ runningCrcs cfg.crc32 size bytes.length bytes 0

theorem WellFormed.ne_metadata (hwf : WellFormed cfg snapshot)
    (hmem : name ∈ listed snapshot.metadata) : name ≠ .metadata := by
  rintro rfl
  exact hwf.not_metadata hmem

theorem transferable_of_accepts (hsize : 0 < size) (hid : cfg.localID ≠ 0)
    (hwf : WellFormed cfg snapshot) (hreceiver : s.snapshotReceiver = none)
    (h : Accepts cfg s (sendSnapshotMessageLoop cfg.crc32 size cfg.clusterID cfg.localID snapshot)
      s') :
    Transferable cfg size snapshot s := by
  rw [sendSnapshotMessageLoop_eq hwf] at h
  obtain ⟨s₂, hfront, hfinish⟩ := accepts_append.mp h
  obtain ⟨⟨hfiles, hinstalled, htemp⟩, hsafe, files, hR, -, hnew⟩ :=
    receiving_of_accepts hsize hwf hreceiver hfront
  -- the state before Finish is known, and Finish has found every file there
  obtain ⟨s₃, hsuccess, -⟩ := accepts_cons.mp hfinish
  obtain ⟨r, folder, hr, hlookup, hiff, -⟩ := commit_receiving hR hwf.reads hwf.version
  obtain ⟨r', s₄, hr', hcommit, -⟩ := (process_finish_eq_success hid).mp hsuccess
  cases hr.symm.trans hr'
  obtain ⟨hvalid, ⟨-, hunregistered⟩, hhandled⟩ := hiff.mp ⟨s₄, hcommit⟩
  obtain ⟨e, he, hmatches⟩ :=
    validateSnapshotFiles_ok cfg (folder.withMetadata cfg snapshot.metadata)
    (fun d hd hlocal name hname => hwf.plain name (mem_listed hd hlocal hname))
  cases he.symm.trans hvalid
  refine ⟨hfiles, hinstalled, hunregistered, htemp, hhandled, ?_, hsafe⟩
  rintro d hd hlocal name bytes hname hbytes rfl
  obtain ⟨name', bytes', hname', hbytes', -⟩ := hmatches.mp rfl d hd hlocal
  cases hname.symm.trans hname'
  have hmem := mem_listed hd hlocal hname
  rw [lookup_withMetadata cfg _ _ (hwf.ne_metadata hmem), hlookup, hnew name hmem, if_pos hbytes]
    at hbytes'
  cases hbytes'

theorem accepts_of_transferable (hsize : 0 < size) (hid : cfg.localID ≠ 0)
    (hwf : WellFormed cfg snapshot) (hreceiver : s.snapshotReceiver = none)
    (h : Transferable cfg size snapshot s) :
    ∃ s', Accepts cfg s
        (sendSnapshotMessageLoop cfg.crc32 size cfg.clusterID cfg.localID snapshot) s' ∧
      ∃ folder, s'.installed.lookup snapshot.metadata.index = some ⟨snapshot.metadata, folder⟩ ∧
        ∀ name, name ≠ .metadata → folder.lookup name =
          if name ∈ listed snapshot.metadata then snapshot.files.lookup name else none := by
  obtain ⟨s₂, files, hfront, hR, hother, hnew⟩ := accepts_chunks hsize hwf hreceiver h.not_installed
    h.not_temp h.files_ne_nil h.crc_ne_zero
  obtain ⟨r, folder, hr, hlookup, hiff, hinstalls⟩ := commit_receiving hR hwf.reads hwf.version
  have hsame : ∀ name ∈ listed snapshot.metadata,
      folder.lookup name = snapshot.files.lookup name := by
    intro name hmem
    obtain ⟨d, hd, hname⟩ := mem_filterMap.mp hmem
    obtain ⟨hd, hlocal⟩ := mem_filter.mp hd
    rw [hlookup, hnew name hmem, if_neg]
    intro hempty
    exact h.not_empty d hd (by simpa using hlocal) name [] hname hempty rfl
  have hvalid : validateSnapshotFiles cfg (folder.withMetadata cfg snapshot.metadata)
      snapshot.metadata.files = .ok none := by
    obtain ⟨e, he, hmatches⟩ := validateSnapshotFiles_ok cfg
      (folder.withMetadata cfg snapshot.metadata)
      (fun d hd hlocal name hname => hwf.plain name (mem_listed hd hlocal hname))
    rw [he, hmatches.mpr]
    intro d hd hlocal
    obtain ⟨name, bytes, hname, hbytes, hmatch⟩ := hwf.files_match d hd hlocal
    have hmem := mem_listed hd hlocal hname
    refine ⟨name, bytes, hname, ?_, hmatch⟩
    rw [lookup_withMetadata cfg _ _ (hwf.ne_metadata hmem), hsame name hmem, hbytes]
  obtain ⟨s₃, hs₃⟩ := hiff.mpr
    ⟨hvalid, ⟨h.not_installed, h.not_unregistered⟩, h.external_handled⟩
  have hfinish := accepts_cons.mpr ⟨_, (process_finish_eq_success hid).mpr ⟨r, s₃, hr, hs₃, rfl⟩,
    accepts_nil.mpr rfl⟩
  refine ⟨{ s₃ with snapshotReceiver := none }, ?_, _, hinstalls s₃ hs₃, ?_⟩
  · rw [sendSnapshotMessageLoop_eq hwf]
    exact accepts_append.mpr ⟨s₂, hfront, hfinish⟩
  · intro name hname
    rw [lookup_withMetadata cfg _ _ hname]
    split
    next hmem => exact hsame name hmem
    next hmem => rw [hlookup, hother name hmem]

/-- A snapshot arrives byte by byte at a follower that is not receiving, if it is transferable;
otherwise a message is not answered with success. -/
theorem transfer_iff (cfg : ReceiverConfig) (size : Nat) (snapshot : InstalledSnapshot)
    (s : Storage) (hsize : 0 < size) (hid : cfg.localID ≠ 0) (hwf : WellFormed cfg snapshot)
    (hreceiver : s.snapshotReceiver = none) :
    (∃ s' responses,
      deliver cfg s (sendSnapshotMessageLoop cfg.crc32 size cfg.clusterID cfg.localID snapshot) =
        .ok (s', responses) ∧ (∀ r ∈ responses, r = .success) ∧
      ∃ folder, s'.installed.lookup snapshot.metadata.index = some ⟨snapshot.metadata, folder⟩ ∧
        ∀ name, name ≠ .metadata → folder.lookup name =
          if name ∈ listed snapshot.metadata then snapshot.files.lookup name else none) ↔
    Transferable cfg size snapshot s := by
  constructor
  · rintro ⟨s', responses, hdeliver, hall, -⟩
    exact transferable_of_accepts hsize hid hwf hreceiver ⟨responses, hdeliver, hall⟩
  · intro h
    obtain ⟨s', ⟨responses, hdeliver, hall⟩, hfiles⟩ :=
      accepts_of_transferable hsize hid hwf hreceiver h
    exact ⟨s', responses, hdeliver, hall, hfiles⟩

def exampleSnapshot : InstalledSnapshot :=
  ⟨ReceivingNode.exampleMetadata, AList.insert .cluster [7, 8] ∅⟩

theorem exampleSnapshot_wellFormed : WellFormed ReceivingNode.exampleConfig exampleSnapshot where
  reads := ReceivingNode.exampleConfig_reads
  version := rfl
  files_match := by
    simp only [exampleSnapshot, ReceivingNode.exampleMetadata, forall_mem_singleton]
    exact fun _ => ⟨_, [7, 8], rfl, rfl, rfl, rfl⟩
  plain := by decide +kernel
  names_nodup := by decide +kernel
  not_metadata := by decide +kernel

theorem exampleSnapshot_transferable (hinstalled : 5 ∉ s.installed)
    (hunregistered : 5 ∉ s.unregistered) (htemp : 5 ∉ s.temp) :
    Transferable ReceivingNode.exampleConfig 1 exampleSnapshot s := by
  have honly : ∀ name bytes, exampleSnapshot.files.lookup name = some bytes → bytes = [7, 8] := by
    intro name bytes hbytes
    by_cases hname : name = .cluster
    · rw [hname, exampleSnapshot, AList.lookup_insert] at hbytes
      exact (Option.some.inj hbytes).symm
    · rw [exampleSnapshot, AList.lookup_insert_ne hname, AList.lookup_empty] at hbytes
      cases hbytes
  refine ⟨by decide +kernel, hinstalled, hunregistered, htemp, rfl, ?_, ?_⟩
  · rintro d - - name bytes - hbytes rfl
    cases honly name [] hbytes
  · intro d _ _ name bytes _ hbytes
    rw [honly name bytes hbytes]
    decide +kernel

theorem transferred_in_two_chunks :
    ∃ s' responses, deliver ReceivingNode.exampleConfig ⟨∅, [], ∅, none⟩
        (sendSnapshotMessageLoop ReceivingNode.exampleConfig.crc32 1 1 2 exampleSnapshot) =
          .ok (s', responses) ∧ (∀ r ∈ responses, r = .success) ∧
      ∃ folder, s'.installed.lookup 5 = some ⟨exampleSnapshot.metadata, folder⟩ ∧
        ∀ name, name ≠ .metadata → folder.lookup name =
          if name ∈ listed exampleSnapshot.metadata then exampleSnapshot.files.lookup name
            else none := by
  exact (transfer_iff ReceivingNode.exampleConfig 1 exampleSnapshot ⟨∅, [], ∅, none⟩ (by decide)
    (by decide) exampleSnapshot_wellFormed rfl).mpr
    (exampleSnapshot_transferable (by decide +kernel) (by decide +kernel) (by decide +kernel))

def emptyFileSnapshot : InstalledSnapshot :=
  ⟨⟨1, 3, 5, [⟨.cluster, [], 2, 2, false, [], []⟩, ⟨.session, ['s'], 0, 0, false, [], []⟩]⟩,
    AList.insert .session [] (AList.insert .cluster [7, 8] ∅)⟩

def emptyFileConfig : ReceiverConfig :=
  { ReceivingNode.exampleConfig with codec := ReceivingNode.codecOf emptyFileSnapshot.metadata }

theorem empty_file_not_transferred :
    WellFormed emptyFileConfig emptyFileSnapshot ∧
    (deliver emptyFileConfig ⟨∅, [], ∅, none⟩
      (sendSnapshotMessageLoop emptyFileConfig.crc32 4 1 2 emptyFileSnapshot)).map Prod.snd =
      .ok [.success, .success, .failed (.notFound ['s'])] := by
  refine ⟨⟨⟨[1], rfl, rfl, ?_, ?_⟩, rfl, ?_, ?_, ?_, ?_⟩, rfl⟩
  case refine_3 =>
    simp only [emptyFileSnapshot, forall_mem_cons, not_mem_nil, false_imp_iff, implies_true,
      and_true]
    exact ⟨fun _ => ⟨_, [7, 8], rfl, rfl, rfl, rfl⟩, fun _ => ⟨_, [], rfl, rfl, rfl, rfl⟩⟩
  all_goals decide +kernel

end Babuza.Transport
