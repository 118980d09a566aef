import Babuza.Raftpb
import Babuza.Snapshot.Receiver
import Mathlib.Data.List.Sort

/-!
# The scan for installed snapshots

After a restart the manager scans its folder (`scanInstalledSnapshot` in
`pkg/snapshot/snapshotor.go`). A snapshot whose metadata file cannot be read is passed over. Of the
others all files are checked, also external ones, which are references with size and checksum 0; the
first that fails ends the scan. So a damaged file, a reference, or a damaged size field in a
metadata file, for which `Decode` asks the allocator, keeps the node from starting
(`scan_registers_iff`).
-/

namespace Babuza.Snapshot

open Lib Allocator List ReceivingNode

/-- An installed snapshot, with what its folder holds now and the contents of the subfolder for
external files. -/
structure StoredSnapshot where
  original : InstalledSnapshot
  files : Folder
  external : FileTag → Option Bytes

def StoredSnapshot.index (x : StoredSnapshot) : Nat := x.original.metadata.index

/-- `GetMetadataFile`, also used by index in `getInstalledSnapshotMetadata`. -/
def getMetadataFile (cfg : CodecConfig) (x : StoredSnapshot) :
    Except DecodeFailure SnapshotMetadata :=
  match x.files.lookup .metadata with
  | none => .error .failed
  | some file => decodeMetadata cfg file

/-- The file that a descriptor stands for, and the check that it is there. -/
def fileContent (x : StoredSnapshot) (d : SnapshotFileDesc) : Except ReceiveError Bytes :=
  if d.isExternal then (x.external d.tag).elim (.error (.notFound d.tag)) .ok
  else match snapshotFileName d.fileType d.tag with
    | none => .error .unknownFileType
    | some name => (x.files.lookup name).elim (.error (.notFound d.tag)) .ok

/-- `ValidateSnapshotFiles`, without `skipExternal`. -/
def validateAllFiles (cfg : CodecConfig) (x : StoredSnapshot) :
    List SnapshotFileDesc → Option ReceiveError
  | [] => none
  | d :: rest => match fileContent x d with
    | .error e => some e
    | .ok bytes =>
      if (bytes.length : Int) ≠ d.fileSize then some (.mismatchSize d.tag)
      else if cfg.crc64 bytes ≠ d.fileCrc64 then some (.mismatchCrc d.tag)
      else validateAllFiles cfg x rest

inductive ScanFailure
  | panic
  | failed (e : ReceiveError)
  | notFound
  | unreadable
  deriving DecidableEq

/-- `scanInstalledSnapshot`: the indices that get into `installedSnapshot`. -/
def scanInstalledSnapshot (cfg : CodecConfig) : List StoredSnapshot → Except ScanFailure (List Nat)
  | [] => .ok []
  | x :: rest => match getMetadataFile cfg x with
    | .error .panic => .error .panic
    | .error .failed => scanInstalledSnapshot cfg rest
    | .ok m => match validateAllFiles cfg x m.files with
      | some e => .error (.failed e)
      | none => (scanInstalledSnapshot cfg rest).map (x.index :: ·)

/-- The loop of `LoadLastValidSnapshot`, from the largest index down. -/
def loadLoop (cfg : CodecConfig) (folders : List StoredSnapshot) (walSnaps : List WalSnapshot) :
    List Nat → Except ScanFailure (Option SnapshotMetadata)
  | [] => .ok none
  | i :: rest => match folders.find? (·.index = i) with
    | none => .error .notFound
    | some x => match getMetadataFile cfg x with
      | .error .panic => .error .panic
      | .error .failed => .error .unreadable
      | .ok m =>
        if walSnaps.any fun w => m.term == w.term && m.index == w.index then .ok (some m)
        else loadLoop cfg folders walSnaps rest

def loadLastValidSnapshot (cfg : CodecConfig) (folders : List StoredSnapshot)
    (registered : List Nat)
    (walSnaps : List WalSnapshot) : Except ScanFailure (Option SnapshotMetadata) :=
  loadLoop cfg folders walSnaps (registered.insertionSort (· ≤ ·)).reverse

/-! ## What was installed, and what became of it -/

/-- The file of an external reference is there, with size and checksum of the descriptor. -/
def ExternalMatches (cfg : CodecConfig) (x : StoredSnapshot) (d : SnapshotFileDesc) : Prop :=
  ∃ bytes, x.external d.tag = some bytes ∧ (bytes.length : Int) = d.fileSize ∧
    cfg.crc64 bytes = d.fileCrc64

/-- What a successful commit leaves: the metadata file can be read, and the files that are not
external match. -/
structure Committed (cfg : CodecConfig) (snap : InstalledSnapshot) : Prop where
  metadata : ∃ file, snap.files.lookup .metadata = some file ∧
    decodeMetadata cfg file = .ok snap.metadata
  files : ∀ d ∈ snap.metadata.files, d.isExternal = false → Matches cfg.crc64 snap.files d

namespace StoredSnapshot

def MetadataIntact (x : StoredSnapshot) : Prop :=
  x.files.lookup .metadata = x.original.files.lookup .metadata

def FileIntact (x : StoredSnapshot) (d : SnapshotFileDesc) : Prop :=
  ∀ name, snapshotFileName d.fileType d.tag = some name →
    x.files.lookup name = x.original.files.lookup name

def Intact (x : StoredSnapshot) : Prop :=
  x.MetadataIntact ∧ ∀ d ∈ x.original.metadata.files, d.isExternal = false → x.FileIntact d

/-- The scan gets past the snapshot and does not take it for another one. If its metadata file is
intact, so are its files, and every external file is there as described; if it is not, `Decode`
fails and does not panic. -/
structure Scannable (cfg : CodecConfig) (x : StoredSnapshot) : Prop where
  files : x.MetadataIntact → ∀ d ∈ x.original.metadata.files, d.isExternal = false → x.FileIntact d
  external : x.MetadataIntact → ∀ d ∈ x.original.metadata.files, d.isExternal = true →
    ExternalMatches cfg x d
  decode : ¬x.MetadataIntact → getMetadataFile cfg x = .error .failed

end StoredSnapshot

variable {x : StoredSnapshot} {files : List SnapshotFileDesc}

theorem validateAllFiles_eq_none_iff :
    validateAllFiles cfg x files = none ↔
      (∀ d ∈ files, d.isExternal = false → Matches cfg.crc64 x.files d) ∧
        ∀ d ∈ files, d.isExternal = true → ExternalMatches cfg x d := by
  induction files with
  | nil => simp [validateAllFiles]
  | cons d files ih =>
    have hhead : validateAllFiles cfg x (d :: files) = none ↔
        (∃ bytes, fileContent x d = .ok bytes ∧ (bytes.length : Int) = d.fileSize ∧
          cfg.crc64 bytes = d.fileCrc64) ∧ validateAllFiles cfg x files = none := by
      rw [validateAllFiles]
      cases fileContent x d with
      | error e => simp
      | ok bytes => simp [ite_eq_iff, and_assoc]
    have hcontent : (∃ bytes, fileContent x d = .ok bytes ∧ (bytes.length : Int) = d.fileSize ∧
        cfg.crc64 bytes = d.fileCrc64) ↔
        (d.isExternal = false → Matches cfg.crc64 x.files d) ∧
          (d.isExternal = true → ExternalMatches cfg x d) := by
      unfold fileContent Matches ExternalMatches
      cases hext : d.isExternal with
      | true => cases x.external d.tag <;> simp
      | false =>
        cases hname : snapshotFileName d.fileType d.tag with
        | none => simp
        | some name => cases hlookup : x.files.lookup name <;> simp [hlookup]
    rw [hhead, hcontent, ih]
    simp only [mem_cons, forall_eq_or_imp]
    tauto

theorem getMetadataFile_of_intact (hcommitted : Committed cfg x.original)
    (hintact : x.MetadataIntact) : getMetadataFile cfg x = .ok x.original.metadata := by
  obtain ⟨file, hfile, hdecode⟩ := hcommitted.metadata
  rwa [getMetadataFile, hintact, hfile]

variable {d : SnapshotFileDesc}

/-! ## Both ways to install -/

/-- A file of `Writer.snapshotFiles`: created and written, or added as a reference. The tag of the
cluster and the session file is the name of the file. -/
inductive WriterFile
  | cluster (tag : FileTag) (content : Bytes)
  | session (tag : FileTag) (content : Bytes)
  | stateMachine (tag : FileTag) (metadata : Bytes) (content : Bytes)
  | external (descriptor : ExternalFileDescriptor)

def WriterFile.stored? : WriterFile → Option (Sigma fun _ : FileName => Bytes)
  | .cluster _ content => some ⟨.cluster, content⟩
  | .session _ content => some ⟨.session, content⟩
  | .stateMachine tag _ content => some ⟨.stateMachine tag, content⟩
  | .external _ => none

/-- The descriptor; only the crc writer of a file that is not external sets size and checksum. -/
def WriterFile.fileDesc (crc64 : Bytes → UInt64) : WriterFile → SnapshotFileDesc
  | .cluster tag content => ⟨.cluster, tag, content.length, crc64 content, false, [], []⟩
  | .session tag content => ⟨.session, tag, content.length, crc64 content, false, [], []⟩
  | .stateMachine tag metadata content =>
    ⟨.stateMachine, tag, content.length, crc64 content, false, [], metadata⟩
  | .external d => ⟨.stateMachine, d.fileTag, 0, 0, true, d.locationUri, d.metadata⟩

/-- A writer. A tag that is used already is refused, so no file is written twice. -/
structure Writer where
  snapshotFiles : List WriterFile
  nodup : (snapshotFiles.filterMap WriterFile.stored?).NodupKeys

def Writer.metadata (crc64 : Bytes → UInt64) (w : Writer) (version term index : Nat) :
    SnapshotMetadata :=
  ⟨version, term, index, w.snapshotFiles.map (WriterFile.fileDesc crc64)⟩

def Writer.commit (cfg : CodecConfig) (w : Writer) (version term index : Nat) : InstalledSnapshot :=
  let m := w.metadata cfg.crc64 version term index
  ⟨m, (w.snapshotFiles.filterMap WriterFile.stored?).toAList.insert .metadata
    (encodeMetadata cfg m)⟩

/-- A snapshot that the node has taken. `Commit` itself decodes the metadata file, so it fits into a
slice of the pool. -/
theorem Writer.committed {w : Writer} {version term index : Nat}
    (hreads : cfg.Reads (w.metadata cfg.crc64 version term index)) :
    Committed cfg (w.commit cfg version term index) where
  metadata := by
    refine ⟨_, AList.lookup_insert _, ?_⟩
    have hdecode := decode_encode hreads []
    rwa [append_nil] at hdecode
  files := by
    intro d hd hlocal
    obtain ⟨file, hfile, rfl⟩ := mem_map.mp hd
    have hlookup : ∀ {name : FileName} {content : Bytes}, name ≠ .metadata →
        file.stored? = some ⟨name, content⟩ →
        (w.commit cfg version term index).files.lookup name = some content := by
      intro name content hname hstored
      rw [Writer.commit, AList.lookup_insert_ne hname, AList.lookup_to_alist]
      exact (mem_dlookup_iff w.nodup).mpr (mem_filterMap.mpr ⟨file, hfile, hstored⟩)
    cases file with
    | cluster tag content => exact ⟨.cluster, content, rfl, hlookup nofun rfl, rfl, rfl⟩
    | session tag content => exact ⟨.session, content, rfl, hlookup nofun rfl, rfl, rfl⟩
    | stateMachine tag metadata content =>
      exact ⟨.stateMachine tag, content, rfl, hlookup nofun rfl, rfl, rfl⟩
    | external descriptor => cases hlocal

variable {receiver : ReceiverConfig}

theorem matches_of_validateSnapshotFiles {folder : Folder}
    (h : validateSnapshotFiles receiver folder files = .ok none) :
    ∀ d ∈ files, d.isExternal = false → Matches receiver.crc64 folder d := by
  induction files with
  | nil => simp
  | cons d files ih =>
    rcases validateSnapshotFiles_cons receiver folder d files with
      ⟨hnext, hmatch⟩ | ⟨-, ⟨e, he, -⟩ | ⟨herr, -⟩⟩
    · exact forall_mem_cons.mpr ⟨hmatch, ih (hnext ▸ h)⟩
    · cases he.symm.trans h
    · cases herr.symm.trans h

theorem commitWritten_committed {s s' : Storage} {folder : Folder} {file : Bytes} {index : Nat}
    (hfile : folder.lookup .metadata = some file)
    (h : commitWritten receiver s index folder = .ok (s', none)) :
    ∃ snap, s'.installed.lookup index = some snap ∧ Committed receiver.toCodecConfig snap ∧
      decodeMetadata receiver.toCodecConfig file = .ok snap.metadata := by
  rw [commitWritten, hfile, Option.getD_some] at h
  split at h
  · cases h
  · cases h
  rename_i m hdecode
  split at h
  · cases h
  split at h
  · cases h
  · cases h
  rename_i hvalid
  obtain ⟨-, -, hinstalled⟩ := commitSnapshot_cases receiver s index m folder
  rw [Except.ok.inj h] at hinstalled
  exact ⟨_, hinstalled rfl, ⟨⟨file, hfile, hdecode⟩, matches_of_validateSnapshotFiles hvalid⟩,
    hdecode⟩

/-- A snapshot that was received. That `Commit` succeeds shows that the allocator has a slice for
the metadata. -/
theorem commit_committed {s s' : Storage} {r : Receiver} {index : Nat} {d : Bytes}
    (hmarshal : receiver.codec.marshal r.metadata = some d)
    (hcodec : receiver.codec.unmarshal d = some r.metadata) (hsize : d.length < 2 ^ 63)
    (hcommit : commit receiver s r index = .ok (s', none)) :
    ∃ snap, s'.installed.lookup index = some snap ∧ snap.metadata = r.metadata ∧
      Committed receiver.toCodecConfig snap := by
  rw [commit] at hcommit
  split at hcommit
  · cases hcommit
  split at hcommit
  · cases hcommit
  rename_i folder _
  obtain ⟨snap, hinstalled, hcommitted, hdecode⟩ :=
    commitWritten_committed (AList.lookup_insert _) hcommit
  refine ⟨snap, hinstalled, ?_, hcommitted⟩
  rw [encodeMetadata, hmarshal, Option.elim_some, writeAt_zero, decode_frame hsize, hcodec]
    at hdecode
  split at hdecode
  · cases hdecode
  · exact (Except.ok.inj hdecode).symm

theorem single_file_committed :
    ∃ s', commit exampleConfig ⟨∅, [], .singleton 5 (.singleton .cluster [1, 2]), none⟩
        ⟨exampleMetadata, ∅⟩ 5 = .ok (s', none) ∧
      ∃ snap, s'.installed.lookup 5 = some snap ∧ snap.metadata = exampleMetadata ∧
        Committed exampleConfig.toCodecConfig snap := by
  refine ⟨?s, ?h, commit_committed (d := [1]) rfl rfl (by decide) ?h⟩
  case h => rfl

/-! ## The result of the scan -/

variable {snaps : List StoredSnapshot}

/-- The scan succeeds if no metadata file makes it panic and all files of the snapshots with a
readable one are valid; these snapshots are registered. -/
theorem scanInstalledSnapshot_eq_ok_iff {registered : List Nat} :
    scanInstalledSnapshot cfg snaps = .ok registered ↔
      (∀ x ∈ snaps, getMetadataFile cfg x ≠ .error .panic ∧
        ∀ m, getMetadataFile cfg x = .ok m → validateAllFiles cfg x m.files = none) ∧
      registered = (snaps.filter fun x => (getMetadataFile cfg x).isOk).map (·.index) := by
  induction snaps generalizing registered with
  | nil => simp [scanInstalledSnapshot, eq_comm]
  | cons x snaps ih =>
    rw [scanInstalledSnapshot]
    cases hget : getMetadataFile cfg x with
    | error failure =>
      cases failure with
      | panic => simp [hget]
      | failed => simp [hget, ih, Except.isOk, Except.toBool]
    | ok m =>
      cases hvalid : validateAllFiles cfg x m.files with
      | some e => simp [hget, hvalid]
      | none =>
        have hmap : (scanInstalledSnapshot cfg snaps).map (x.index :: ·) = .ok registered ↔
            ∃ rest, scanInstalledSnapshot cfg snaps = .ok rest ∧ registered = x.index :: rest := by
          cases scanInstalledSnapshot cfg snaps with
          | error e => simp [Except.map]
          | ok rest => simp [Except.map, eq_comm]
        simp only [hvalid, hmap]
        simp [hget, hvalid, ih, Except.isOk, Except.toBool]

/-- What is asked of a snapshot, and that it is registered exactly if it is not damaged. -/
theorem passes_iff_scannable (hcommitted : Committed cfg x.original) :
    (getMetadataFile cfg x ≠ .error .panic ∧
        ∀ m, getMetadataFile cfg x = .ok m → validateAllFiles cfg x m.files = none) ∧
      ((getMetadataFile cfg x).isOk ↔ x.Intact) ↔
    x.Scannable cfg := by
  constructor
  · rintro ⟨⟨hpanic, hvalid⟩, hok⟩
    have hget : x.MetadataIntact → getMetadataFile cfg x = .ok x.original.metadata :=
      getMetadataFile_of_intact hcommitted
    refine ⟨fun hintact => ?_, fun hintact => ?_, fun hdamaged => ?_⟩
    · exact (hok.mp (by rw [hget hintact]; rfl)).2
    · exact (validateAllFiles_eq_none_iff.mp (hvalid _ (hget hintact))).2
    · cases hread : getMetadataFile cfg x with
      | ok m => exact absurd (hok.mp (by rw [hread]; rfl)).1 hdamaged
      | error failure =>
        cases failure with
        | panic => exact absurd hread hpanic
        | failed => rfl
  · intro hscan
    by_cases hintact : x.MetadataIntact
    · have hget := getMetadataFile_of_intact hcommitted hintact
      refine ⟨⟨by simp [hget], fun m hm => ?_⟩,
        iff_of_true (by rw [hget]; rfl) ⟨hintact, hscan.files hintact⟩⟩
      cases hget.symm.trans hm
      refine validateAllFiles_eq_none_iff.mpr ⟨fun d hd hlocal => ?_, hscan.external hintact⟩
      obtain ⟨name, bytes, hname, hlookup, hmatches⟩ := hcommitted.files d hd hlocal
      exact ⟨name, bytes, hname, (hscan.files hintact d hd hlocal name hname).trans hlookup,
        hmatches⟩
    · rw [hscan.decode hintact]
      exact ⟨⟨by simp, by simp⟩, iff_of_false (by simp [Except.isOk, Except.toBool]) fun h =>
        hintact h.1⟩

def Recorded (walSnaps : List WalSnapshot) (m : SnapshotMetadata) : Prop :=
  ∃ w ∈ walSnaps, m.term = w.term ∧ m.index = w.index

/-- The loop finds the first index with a record, in a list of indices of snapshots whose metadata
can be read. -/
theorem loadLoop_spec {folders : List StoredSnapshot} (walSnaps : List WalSnapshot)
    {indices : List Nat} (hsorted : indices.Pairwise (· ≥ ·))
    (hread : ∀ i ∈ indices, ∃ x, folders.find? (·.index = i) = some x ∧ getMetadataFile cfg x =
      .ok x.original.metadata) :
    ∃ r, loadLoop cfg folders walSnaps indices = .ok r ∧
      (∀ m, r = some m → (∃ x ∈ folders, x.index ∈ indices ∧ x.original.metadata = m) ∧
        Recorded walSnaps m ∧ ∀ i ∈ indices, ∀ x, folders.find? (·.index = i) = some x →
          Recorded walSnaps x.original.metadata → i ≤ m.index) ∧
      (r = none → ∀ i ∈ indices, ∀ x, folders.find? (·.index = i) = some x →
        ¬Recorded walSnaps x.original.metadata) := by
  induction indices with
  | nil => exact ⟨none, rfl, nofun, fun _ => nofun⟩
  | cons i indices ih =>
    obtain ⟨hi, hsorted⟩ := pairwise_cons.mp hsorted
    obtain ⟨x, hx, hget⟩ := hread i mem_cons_self
    have hindex : x.index = i := by simpa using find?_some hx
    have hany : (walSnaps.any fun w => x.original.metadata.term == w.term &&
        x.original.metadata.index == w.index) = true ↔ Recorded walSnaps x.original.metadata := by
      simp [Recorded]
    rw [loadLoop, hx]
    simp only [hget]
    by_cases hrecorded : Recorded walSnaps x.original.metadata
    · rw [if_pos (hany.mpr hrecorded)]
      refine ⟨_, rfl, ?_, nofun⟩
      intro m hm
      cases hm
      refine ⟨⟨x, mem_of_find?_eq_some hx, hindex ▸ mem_cons_self, rfl⟩, hrecorded, ?_⟩
      intro j hj _ _ _
      have hle : j ≤ i := by
        rcases mem_cons.mp hj with rfl | hj
        · exact le_rfl
        · exact hi j hj
      exact hle.trans_eq hindex.symm
    · rw [if_neg (fun h => hrecorded (hany.mp h))]
      obtain ⟨r, hr, hsome, hnone⟩ := ih hsorted fun j hj => hread j (mem_cons_of_mem i hj)
      refine ⟨r, hr, fun m hm => ?_, fun hr j hj y hy => ?_⟩
      · obtain ⟨⟨y, hy, hmem, heq⟩, hrec, hmax⟩ := hsome m hm
        refine ⟨⟨y, hy, mem_cons_of_mem i hmem, heq⟩, hrec, fun j hj z hz hzrec => ?_⟩
        rcases mem_cons.mp hj with rfl | hj
        · cases hx.symm.trans hz
          exact absurd hzrec hrecorded
        · exact hmax j hj z hz hzrec
      · rcases mem_cons.mp hj with rfl | hj
        · cases hx.symm.trans hy
          exact hrecorded
        · exact hnone hr j hj y hy

theorem find?_index (hnodup : (snaps.map (·.index)).Nodup) (hx : x ∈ snaps) :
    snaps.find? (·.index = x.index) = some x := by
  cases hfind : snaps.find? (·.index = x.index) with
  | none =>
    have hne := find?_eq_none.mp hfind x hx
    simp at hne
  | some y =>
    have hindex : y.index = x.index := by simpa using find?_some hfind
    exact congrArg some (inj_on_of_nodup_map hnodup (mem_of_find?_eq_some hfind) hx hindex)

theorem mem_registered_iff (hnodup : (snaps.map (·.index)).Nodup) (hx : x ∈ snaps) :
    x.index ∈ (snaps.filter fun x => (getMetadataFile cfg x).isOk).map (·.index) ↔
      (getMetadataFile cfg x).isOk := by
  constructor
  · intro h
    obtain ⟨y, hy, hindex⟩ := mem_map.mp h
    obtain ⟨hy, hok⟩ := mem_filter.mp hy
    rwa [← inj_on_of_nodup_map hnodup hy hx hindex]
  · exact fun hok => mem_map_of_mem (mem_filter.mpr ⟨hx, hok⟩)

/-- The scan after a restart succeeds and registers exactly the snapshots that were not damaged,
exactly if every snapshot with an intact metadata file has intact files and all its external files
as described, and the decoder refuses every damaged metadata file without a panic. Then the largest
registered snapshot with a record in the log is loaded, and none if there is no such snapshot. -/
theorem scan_registers_iff {snaps : List StoredSnapshot}
    (hcommitted : ∀ x ∈ snaps, Committed cfg x.original)
    (hnodup : (snaps.map (·.index)).Nodup) (walSnaps : List WalSnapshot) :
    ((∃ registered, scanInstalledSnapshot cfg snaps = .ok registered ∧
        ∀ x ∈ snaps, x.index ∈ registered ↔ x.Intact) ↔ ∀ x ∈ snaps, x.Scannable cfg) ∧
      ∀ registered, scanInstalledSnapshot cfg snaps = .ok registered →
        (∀ x ∈ snaps, x.index ∈ registered ↔ x.Intact) →
        ∃ r, loadLastValidSnapshot cfg snaps registered walSnaps = .ok r ∧
          (∀ m, r = some m → (∃ x ∈ snaps, x.Intact ∧ x.original.metadata = m) ∧
            Recorded walSnaps m ∧
            ∀ x ∈ snaps, x.Intact → Recorded walSnaps x.original.metadata → x.index ≤ m.index) ∧
          (r = none → ∀ x ∈ snaps, x.Intact → ¬Recorded walSnaps x.original.metadata) := by
  refine ⟨⟨?_, ?_⟩, ?_⟩
  · rintro ⟨registered, hok, hmem⟩ x hx
    obtain ⟨hall, rfl⟩ := scanInstalledSnapshot_eq_ok_iff.mp hok
    exact (passes_iff_scannable (hcommitted x hx)).mp
      ⟨hall x hx, (mem_registered_iff hnodup hx).symm.trans (hmem x hx)⟩
  · intro hall
    have hpasses := fun x hx => (passes_iff_scannable (hcommitted x hx)).mpr (hall x hx)
    exact ⟨_, scanInstalledSnapshot_eq_ok_iff.mpr ⟨fun x hx => (hpasses x hx).1, rfl⟩,
      fun x hx => (mem_registered_iff hnodup hx).trans (hpasses x hx).2⟩
  · intro registered hok hmem
    have hread : ∀ i ∈ registered, ∃ x ∈ snaps, x.index = i ∧ x.Intact := by
      intro i hi
      have hi' := hi
      rw [(scanInstalledSnapshot_eq_ok_iff.mp hok).2] at hi'
      obtain ⟨x, hx, rfl⟩ := mem_map.mp hi'
      have hx := (mem_filter.mp hx).1
      exact ⟨x, hx, rfl, (hmem x hx).mp hi⟩
    have hperm : ∀ i, i ∈ (registered.insertionSort (· ≤ ·)).reverse ↔ i ∈ registered :=
      fun i => mem_reverse.trans (mem_insertionSort _)
    have hfound : ∀ i ∈ (registered.insertionSort (· ≤ ·)).reverse, ∃ x,
        snaps.find? (·.index = i) = some x ∧ getMetadataFile cfg x = .ok x.original.metadata := by
      intro i hi
      obtain ⟨x, hx, rfl, hintact⟩ := hread i ((hperm i).mp hi)
      exact ⟨x, find?_index hnodup hx, getMetadataFile_of_intact (hcommitted x hx) hintact.1⟩
    obtain ⟨r, hr, hsome, hnone⟩ := loadLoop_spec walSnaps
      (pairwise_reverse.mpr (pairwise_insertionSort (· ≤ ·) registered)) hfound
    refine ⟨r, hr, fun m hm => ?_, fun hnil x hx hintact => ?_⟩
    · obtain ⟨⟨x, hx, hi, rfl⟩, hrecorded, hmax⟩ := hsome m hm
      refine ⟨⟨x, hx, (hmem x hx).mp ((hperm _).mp hi), rfl⟩, hrecorded,
        fun y hy hintact hyrec => ?_⟩
      exact hmax y.index ((hperm _).mpr ((hmem y hy).mpr hintact)) y (find?_index hnodup hy) hyrec
    · exact hnone hnil x.index ((hperm _).mpr ((hmem x hx).mpr hintact)) x (find?_index hnodup hx)

/-! ## A reference, and damage -/

def byteSum (bs : Bytes) : UInt64 := (bs.map UInt8.toUInt64).sum

def sampleConfig (known : List SnapshotMetadata) : CodecConfig :=
  ⟨⟨fun m => some [UInt8.ofNat m.index], fun d => known.find? fun m => d = [UInt8.ofNat m.index]⟩,
    byteSum, ⟨[64]⟩⟩

def plainWriter : Writer := ⟨[.cluster ['c'] [1, 2]], nodupKeys_singleton _⟩

def referencingWriter : Writer :=
  ⟨[.cluster ['c'] [1, 2], .external ⟨['x'], [], []⟩], nodupKeys_singleton _⟩

/-- A snapshot with an external file, as it was committed: the scan fails. -/
theorem reference_ends_scan :
    let cfg := sampleConfig [referencingWriter.metadata byteSum 1 1 5]
    let snap := referencingWriter.commit cfg 1 1 5
    scanInstalledSnapshot cfg [⟨snap, snap.files, fun _ => none⟩] =
      .error (.failed (.notFound ['x'])) := by
  decide +kernel

def twoSnapshots : CodecConfig :=
  sampleConfig [plainWriter.metadata byteSum 1 1 3, plainWriter.metadata byteSum 1 1 5]

def untouched (index : Nat) : StoredSnapshot :=
  let snap := plainWriter.commit twoSnapshots 1 1 index
  ⟨snap, snap.files, fun _ => none⟩

def withoutMetadata (index : Nat) : StoredSnapshot :=
  { untouched index with files := (untouched index).files.erase .metadata }

theorem untouched_external {index : Nat} (hd : d ∈ (untouched index).original.metadata.files) :
    d.isExternal = false := by
  cases mem_singleton.mp hd
  rfl

theorem untouched_intact (index : Nat) : (untouched index).Intact := ⟨rfl, fun _ _ _ _ _ => rfl⟩

theorem untouched_scannable (index : Nat) : (untouched index).Scannable twoSnapshots where
  files _ := (untouched_intact index).2
  external _ _ hd hext := absurd ((untouched_external hd).symm.trans hext) (by simp)
  decode h := absurd rfl h

theorem withoutMetadata_get (index : Nat) :
    getMetadataFile twoSnapshots (withoutMetadata index) = .error .failed := by
  simp [getMetadataFile, withoutMetadata]

theorem withoutMetadata_fileIntact {index : Nat}
    (hd : d ∈ (untouched index).original.metadata.files) :
    (withoutMetadata index).FileIntact d := by
  cases mem_singleton.mp hd
  intro name hname
  cases hname
  exact AList.lookup_erase_ne nofun

theorem withoutMetadata_scannable (index : Nat) :
    (withoutMetadata index).Scannable twoSnapshots where
  files _ _ hd _ := withoutMetadata_fileIntact hd
  external _ _ hd hext := absurd ((untouched_external hd).symm.trans hext) (by simp)
  decode _ := withoutMetadata_get index

/-- Two snapshots, one of them without its metadata file: the other one is registered. -/
theorem missing_metadata_scanned :
    ∃ registered, scanInstalledSnapshot twoSnapshots [withoutMetadata 3, untouched 5] =
      .ok registered ∧ 3 ∉ registered ∧ 5 ∈ registered := by
  have hcommitted : ∀ x ∈ [withoutMetadata 3, untouched 5], Committed twoSnapshots x.original := by
    intro x hx
    rcases mem_pair.mp hx with rfl | rfl
    all_goals
      apply Writer.committed
      exact ⟨_, rfl, by decide +kernel, by decide +kernel, by decide +kernel⟩
  have hscan : ∀ x ∈ [withoutMetadata 3, untouched 5], x.Scannable twoSnapshots := by
    intro x hx
    rcases mem_pair.mp hx with rfl | rfl
    · exact withoutMetadata_scannable 3
    · exact untouched_scannable 5
  obtain ⟨registered, hok, hmem⟩ :=
    (scan_registers_iff hcommitted (by decide +kernel) []).1.mpr hscan
  refine ⟨registered, hok, fun h => ?_, ?_⟩
  · have hintact := ((hmem (withoutMetadata 3) (by simp)).mp h).1
    have hget := getMetadataFile_of_intact (hcommitted (withoutMetadata 3) (by simp)) hintact
    cases (withoutMetadata_get 3).symm.trans hget
  · exact (hmem (untouched 5) (by simp)).mpr (untouched_intact 5)

end Babuza.Snapshot
