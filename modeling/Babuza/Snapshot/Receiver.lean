import Babuza.Lib.Run
import Babuza.Snapshot.MetadataCodec
import Mathlib.Data.List.AList

/-!
# Receiving a snapshot

A follower gets a snapshot as a Metadata message, Chunk messages and a Finish message
(`raft/raft_transport_processor.go`, `raft/raft_storage.go`, `pkg/snapshot/io`). Metadata opens a
receiver with a temporary folder, a chunk is appended to a file of it if it carries the file's next
id and running CRC32, and Finish writes the metadata file, reads it back, checks size and CRC64 of
every listed file and renames the folder. All senders share the one receiver. `reception_robust` is
for messages in any order and with any content.

What a tag with a path separator does is left open (`Crash.outside`).
-/

namespace Babuza.Snapshot

open Lib List

/-- The files of a folder. Their names start with the index of the snapshot, the same for all. -/
inductive FileName
  | cluster
  | session
  | stateMachine (tag : FileTag)
  | metadata
  deriving DecidableEq

def snapshotFileName : SnapshotFileType → FileTag → Option FileName
  | .stateMachine, tag => some (.stateMachine tag)
  | .cluster, _ => some .cluster
  | .session, _ => some .session
  | .metadata, _ => some .metadata
  | .unknown _, _ => none

/-- A name without a path separator is the name of a file in the folder. -/
def FileName.Plain : FileName → Prop
  | .stateMachine tag => '/' ∉ tag
  | .cluster | .session | .metadata => True

instance : DecidablePred FileName.Plain
  | .stateMachine _ => inferInstanceAs (Decidable (_ ∉ _))
  | .cluster | .session | .metadata => .isTrue trivial

structure SnapshotChunkMessage where
  fileTag : FileTag
  fileType : SnapshotFileType
  id : Int
  data : Bytes
  lastChunk : Bool
  continueCrc32 : UInt32
  deriving DecidableEq

inductive SnapshotMessageBody
  | metadata (metadata : SnapshotMetadata)
  | chunk (chunk : SnapshotChunkMessage)
  | finish (toID : Nat)
  | unknown
  deriving DecidableEq

structure SnapshotMessage where
  clusterID : Nat
  toID : Nat
  index : Nat
  body : SnapshotMessageBody
  deriving DecidableEq

/-! ## The model -/

structure ExternalFileDescriptor where
  fileTag : FileTag
  locationUri : List Char
  metadata : Bytes

/-- `crc32` is `crc32.Update`. -/
structure ReceiverConfig extends CodecConfig where
  clusterID : Nat
  localID : Nat
  version : Nat
  crc32 : UInt32 → Bytes → UInt32
  onSnapshotReceived : Option (Nat → List ExternalFileDescriptor → Bool)

abbrev Folder := AList fun _ : FileName => Bytes

structure ChunkValidator where
  fileName : FileName
  nextChunkId : Int
  continueCrc32 : UInt32
  finish : Bool
  deriving DecidableEq

def ChunkValidator.new (fileName : FileName) : ChunkValidator := ⟨fileName, 1, 0, false⟩

structure Receiver where
  metadata : SnapshotMetadata
  chunkValidator : AList fun _ : FileTag => ChunkValidator

structure InstalledSnapshot where
  metadata : SnapshotMetadata
  files : Folder

/-- `temp` are the folders of receivers, `unregistered` the installed folders that are not in
`installedSnapshot`. -/
structure Storage where
  installed : AList fun _ : Nat => InstalledSnapshot
  unregistered : List Nat
  temp : AList fun _ : Nat => Folder
  snapshotReceiver : Option Receiver

inductive ReceiveError
  | metadataNil
  | alreadyRegistered
  | folderExists
  | receiverNil
  | zeroCrc
  | mismatchIndex (expected get : Nat)
  | unknownFileType
  | alreadyFinished (tag : FileTag)
  | notExpectedChunk (expected get : Int)
  | mismatchChunkCrc (tag : FileTag)
  | folderMissing
  | zeroTo
  | unreadable
  | mismatchVersion (expected get : Nat)
  | notFound (tag : FileTag)
  | mismatchSize (tag : FileTag)
  | mismatchCrc (tag : FileTag)
  | alreadyInstalled
  | handlerFailed
  | stepFailed
  deriving DecidableEq

/-- `nilReceiver` is the call of a method of a nil interface, `panic` the one of the allocator. -/
inductive Crash
  | nilReceiver
  | panic
  | outside
  deriving DecidableEq

inductive Response
  | success
  | failed (error : ReceiveError)
  | rejected
  deriving DecidableEq

variable (cfg : ReceiverConfig)

def deleteDir (s : Storage) : Storage :=
  match s.snapshotReceiver with
  | some r => { s with temp := s.temp.erase r.metadata.index }
  | none => s

def createReceiver (s : Storage) (m : SnapshotMetadata) : Storage × Option ReceiveError :=
  if m.index ∈ s.installed then (s, some .alreadyRegistered)
  else if m.index ∈ s.temp then (s, some .folderExists)
  else ({ s with temp := s.temp.insert m.index ∅, snapshotReceiver := some ⟨m, ∅⟩ }, none)

def processMetadata (s : Storage) (m : SnapshotMetadata) : Storage × Option ReceiveError :=
  if m.files = [] then (s, some .metadataNil) else createReceiver (deleteDir s) m

def Receiver.validator (r : Receiver) (msg : SnapshotChunkMessage) : Option ChunkValidator :=
  match r.chunkValidator.lookup msg.fileTag with
  | some v => some v
  | none => (snapshotFileName msg.fileType msg.fileTag).map .new

/-- The running CRC is updated before it is compared, and stays so if the chunk is refused. -/
def ChunkValidator.validate (v : ChunkValidator) (msg : SnapshotChunkMessage) :
    ChunkValidator × Option ReceiveError :=
  if v.finish then (v, some (.alreadyFinished msg.fileTag))
  else if v.nextChunkId ≠ msg.id then (v, some (.notExpectedChunk v.nextChunkId msg.id))
  else
    ({ v with continueCrc32 := cfg.crc32 v.continueCrc32 msg.data },
      if cfg.crc32 v.continueCrc32 msg.data ≠ msg.continueCrc32 then
        some (.mismatchChunkCrc msg.fileTag)
      else none)

/-- After a chunk was appended that is not the last one. A validator that has finished is
dropped. -/
def ChunkValidator.advance (v : ChunkValidator) : ChunkValidator :=
  { v with nextChunkId := v.nextChunkId + 1 }

def Folder.append (folder : Folder) (name : FileName) (data : Bytes) : Folder :=
  folder.insert name ((folder.lookup name).getD [] ++ data)

def Storage.withValidators (s : Storage) (r : Receiver)
    (validators : AList fun _ : FileTag => ChunkValidator) : Storage :=
  { s with snapshotReceiver := some { r with chunkValidator := validators } }

def Storage.withFolder (s : Storage) (index : Nat) (folder : Folder) : Storage :=
  { s with temp := s.temp.insert index folder }

def appendChunk (s : Storage) (r : Receiver) (v : ChunkValidator) (msg : SnapshotChunkMessage) :
    Except Crash (Storage × Option ReceiveError) :=
  if ¬ v.fileName.Plain then .error .outside
  else match s.temp.lookup r.metadata.index with
    | none => .ok (s.withValidators r (r.chunkValidator.insert msg.fileTag v), some .folderMissing)
    | some folder =>
      let s := s.withFolder r.metadata.index (folder.append v.fileName msg.data)
      let validators :=
        if msg.lastChunk then r.chunkValidator.erase msg.fileTag
        else r.chunkValidator.insert msg.fileTag v.advance
      .ok (s.withValidators r validators, none)

def saveChunk (s : Storage) (r : Receiver) (index : Nat) (msg : SnapshotChunkMessage) :
    Except Crash (Storage × Option ReceiveError) :=
  if r.metadata.index ≠ index then .ok (s, some (.mismatchIndex r.metadata.index index))
  else match r.validator msg with
    | none => .ok (s, some .unknownFileType)
    | some v => match v.validate cfg msg with
      | (v, some e) => .ok (s.withValidators r (r.chunkValidator.insert msg.fileTag v), some e)
      | (v, none) => appendChunk s r v msg

def processChunk (s : Storage) (index : Nat) (msg : SnapshotChunkMessage) :
    Except Crash (Storage × Option ReceiveError) :=
  match s.snapshotReceiver with
  | none => .ok (s, some .receiverNil)
  | some r =>
    if msg.continueCrc32 ≠ 0 then saveChunk cfg s r index msg else .ok (s, some .zeroCrc)

def validateSnapshotFiles (folder : Folder) :
    List SnapshotFileDesc → Except Crash (Option ReceiveError)
  | [] => .ok none
  | d :: rest =>
    if d.isExternal then validateSnapshotFiles folder rest
    else match snapshotFileName d.fileType d.tag with
      | none => .ok (some .unknownFileType)
      | some name =>
        if ¬ name.Plain then .error .outside
        else match folder.lookup name with
          | none => .ok (some (.notFound d.tag))
          | some bytes =>
            if (bytes.length : Int) ≠ d.fileSize then .ok (some (.mismatchSize d.tag))
            else if cfg.crc64 bytes ≠ d.fileCrc64 then .ok (some (.mismatchCrc d.tag))
            else validateSnapshotFiles folder rest

def externalFiles (m : SnapshotMetadata) : List ExternalFileDescriptor :=
  (m.files.filter (·.isExternal)).map fun d => ⟨d.tag, d.locationUri, d.metadata⟩

/-- Whether the application's handler takes the external files. -/
def handled (index : Nat) (m : SnapshotMetadata) : Bool :=
  match externalFiles m, cfg.onSnapshotReceived with
  | [], _ => true
  | _, none => true
  | files, some handler => handler index files

def commitSnapshot (s : Storage) (index : Nat) (m : SnapshotMetadata) (folder : Folder) :
    Storage × Option ReceiveError :=
  if index ∈ s.installed ∨ index ∈ s.unregistered then (s, some .alreadyInstalled)
  else
    let s := { s with
      temp := s.temp.erase index
      installed := s.installed.insert index ⟨m, folder⟩ }
    if handled cfg index m then (s, none) else (s, some .handlerFailed)

/-- The metadata file with its content written over what chunks may have left there. -/
def Folder.withMetadata (folder : Folder) (m : SnapshotMetadata) : Folder :=
  folder.insert .metadata
    (writeAt ((folder.lookup .metadata).getD []) 0 (encodeMetadata cfg.toCodecConfig m))

/-- The rest of `Commit`, once the folder has its metadata file. -/
def commitWritten (s : Storage) (index : Nat) (folder : Folder) :
    Except Crash (Storage × Option ReceiveError) :=
  match decodeMetadata cfg.toCodecConfig ((folder.lookup .metadata).getD []) with
  | .error .panic => .error .panic
  | .error .failed => .ok (s, some .unreadable)
  | .ok m =>
    if m.version ≠ cfg.version then .ok (s, some (.mismatchVersion cfg.version m.version))
    else match validateSnapshotFiles cfg folder m.files with
      | .error crash => .error crash
      | .ok (some e) => .ok (s, some e)
      | .ok none => .ok (commitSnapshot cfg s index m folder)

def commit (s : Storage) (r : Receiver) (index : Nat) :
    Except Crash (Storage × Option ReceiveError) :=
  if r.metadata.index ≠ index then .ok (s, some (.mismatchIndex r.metadata.index index))
  else match s.temp.lookup r.metadata.index with
    | none => .ok (s, some .folderMissing)
    | some folder =>
      let folder := folder.withMetadata cfg r.metadata
      commitWritten cfg (s.withFolder r.metadata.index folder) index folder

def processFinish (s : Storage) (index toID : Nat) : Except Crash (Storage × Option ReceiveError) :=
  if toID = 0 then .ok (s, some .zeroTo)
  else match s.snapshotReceiver with
    | none => .error .nilReceiver
    | some r => match commit cfg s r index with
      | .error crash => .error crash
      | .ok (s, some e) => .ok (s, some e)
      | .ok (s, none) => .ok ({ s with snapshotReceiver := none }, none)

def answer : Option ReceiveError → Response
  | none => .success
  | some e => .failed e

/-- `stepped` is whether the raft library takes the Finish message. -/
def processSnapshotMessage (s : Storage) (msg : SnapshotMessage) (stepped : Bool) :
    Except Crash (Storage × Response) :=
  if msg.clusterID ≠ cfg.clusterID ∨ msg.toID ≠ cfg.localID then .ok (s, .rejected)
  else match msg.body with
    | .metadata m => .ok ((processMetadata s m).map id answer)
    | .chunk chunk => (processChunk cfg s msg.index chunk).map (Prod.map id answer)
    | .finish toID => match processFinish cfg s msg.index toID with
      | .error crash => .error crash
      | .ok (s, some e) => .ok (s, .failed e)
      | .ok (s, none) => .ok (s, if stepped then .success else .failed .stepFailed)
    | .unknown => .ok (s, .rejected)

/-- A node with the Metadata messages it has accepted, the last one first, and its last answer. -/
structure ReceivingNode where
  storage : Storage
  accepted : List SnapshotMetadata
  last : Option (SnapshotMessage × Response)

/-- Between two messages the installed snapshots may change in any way: the node takes snapshots
itself, and the purger removes some. -/
inductive ReceivingInput
  | message (msg : SnapshotMessage) (stepped : Bool)
  | environment (installed : AList fun _ : Nat => InstalledSnapshot) (unregistered : List Nat)

def recordAccepted (accepted : List SnapshotMetadata) (msg : SnapshotMessage) :
    Response → List SnapshotMetadata
  | .success => match msg.body with
    | .metadata m => m :: accepted
    | _ => accepted
  | _ => accepted

def ReceivingNode.exec (n : ReceivingNode) : ReceivingInput → Except Crash ReceivingNode
  | .message msg stepped => match processSnapshotMessage cfg n.storage msg stepped with
    | .error crash => .error crash
    | .ok (s, response) => .ok ⟨s, recordAccepted n.accepted msg response, some (msg, response)⟩
  | .environment installed unregistered =>
    .ok { n with
      storage := { n.storage with installed := installed, unregistered := unregistered }
      last := none }

/-- The names of the files that are not external. -/
def localNames (files : List SnapshotFileDesc) : List FileName :=
  (files.filter (! ·.isExternal)).filterMap fun d => snapshotFileName d.fileType d.tag

def listed (m : SnapshotMetadata) : List FileName := localNames m.files

theorem mem_listed {m : SnapshotMetadata} {d : SnapshotFileDesc} {name : FileName}
    (hd : d ∈ m.files)
    (hlocal : d.isExternal = false) (hname : snapshotFileName d.fileType d.tag = some name) :
    name ∈ listed m :=
  mem_filterMap.mpr ⟨d, mem_filter.mpr ⟨hd, by simp [hlocal]⟩, hname⟩

def Matches (crc64 : Bytes → UInt64) (folder : Folder) (d : SnapshotFileDesc) : Prop :=
  ∃ name bytes, snapshotFileName d.fileType d.tag = some name ∧ folder.lookup name = some bytes ∧
    (bytes.length : Int) = d.fileSize ∧ crc64 bytes = d.fileCrc64

structure HasListed (m : SnapshotMetadata) (folder : Folder) : Prop where
  only : ∀ name ∈ folder, name = .metadata ∨ name ∈ listed m
  matches_listed : ∀ d ∈ m.files, d.isExternal = false → Matches cfg.crc64 folder d

/-- The file that a chunk is appended to: it carries a CRC, the file's next chunk id and running
CRC. -/
def Receiver.target (r : Receiver) (index : Nat) (msg : SnapshotChunkMessage) : Option FileName :=
  if r.metadata.index = index ∧ msg.continueCrc32 ≠ 0 then
    (r.validator msg).bind fun v => if (v.validate cfg msg).2 = none then some v.fileName else none
  else none

variable {cfg}

@[simp] theorem validate_fileName (cfg : ReceiverConfig) (v : ChunkValidator)
    (msg : SnapshotChunkMessage) : (v.validate cfg msg).1.fileName = v.fileName := by
  unfold ChunkValidator.validate
  split_ifs <;> rfl

theorem mem_append {folder : Folder} {name other : FileName} {data : Bytes}
    (h : other ∈ folder.append name data) : other ∈ folder ∨ other = name := by
  rw [Folder.append, AList.mem_insert] at h
  exact h.symm

/-! ## One message -/

theorem deleteDir_receiver (s : Storage) : (deleteDir s).snapshotReceiver = s.snapshotReceiver := by
  unfold deleteDir
  split <;> rfl

variable {s : Storage}

theorem lookup_of_lookup_deleteDir {i : Nat} {f : Folder}
    (h : (deleteDir s).temp.lookup i = some f) : s.temp.lookup i = some f := by
  unfold deleteDir at h
  split at h
  next r _ =>
    by_cases hi : i = r.metadata.index
    · rw [hi, AList.lookup_erase] at h
      cases h
    · rwa [AList.lookup_erase_ne hi] at h
  · exact h

theorem processMetadata_cases (s : Storage) (m : SnapshotMetadata) :
    ((processMetadata s m).2 = none ∧ (processMetadata s m).1.snapshotReceiver = some ⟨m, ∅⟩ ∧
      (processMetadata s m).1.temp.lookup m.index = some ∅) ∨
    ((processMetadata s m).2 ≠ none ∧ (processMetadata s m).1.snapshotReceiver =
      s.snapshotReceiver ∧
      ∀ i f, (processMetadata s m).1.temp.lookup i = some f → s.temp.lookup i = some f) := by
  have hdir := deleteDir_receiver s
  unfold processMetadata
  split
  · exact .inr ⟨by simp, rfl, fun _ _ h => h⟩
  · unfold createReceiver
    split
    · exact .inr ⟨by simp, hdir, fun _ _ => lookup_of_lookup_deleteDir⟩
    · split
      · exact .inr ⟨by simp, hdir, fun _ _ => lookup_of_lookup_deleteDir⟩
      · exact .inl ⟨rfl, rfl, AList.lookup_insert _⟩

def Receives (s s' : Storage) (r : Receiver) (name : Option FileName) : Prop :=
  (∃ validators, s'.snapshotReceiver = some { r with chunkValidator := validators }) ∧
  ∀ f', s'.temp.lookup r.metadata.index = some f' → ∃ f,
    s.temp.lookup r.metadata.index = some f ∧ ∀ other ∈ f', other ∈ f ∨ other ∈ name

variable {r : Receiver}

theorem receives_self (hr : s.snapshotReceiver = some r) (name : Option FileName) :
    Receives s s r name :=
  ⟨⟨r.chunkValidator, hr⟩, fun f' h => ⟨f', h, fun _ hother => .inl hother⟩⟩

theorem receives_withValidators (s : Storage) (r : Receiver)
    (validators : AList fun _ : FileTag => ChunkValidator) (name : Option FileName) :
    Receives s (s.withValidators r validators) r name :=
  ⟨⟨validators, rfl⟩, fun f' h => ⟨f', h, fun _ hother => .inl hother⟩⟩

theorem appendChunk_cases (s : Storage) (r : Receiver) {v : ChunkValidator}
    (msg : SnapshotChunkMessage) (hplain : v.fileName.Plain) :
    ∃ s' e, appendChunk s r v msg = .ok (s', e) ∧ Receives s s' r (some v.fileName) := by
  unfold appendChunk
  rw [if_neg (not_not.mpr hplain)]
  cases hfolder : s.temp.lookup r.metadata.index with
  | none => exact ⟨_, _, rfl, receives_withValidators ..⟩
  | some folder =>
    refine ⟨_, _, rfl, ⟨_, rfl⟩, ?_⟩
    intro f' h
    rw [Storage.withValidators, Storage.withFolder, AList.lookup_insert] at h
    cases h
    refine ⟨folder, hfolder, ?_⟩
    intro other hmem
    exact (mem_append hmem).imp_right (fun heq => Option.mem_some.mpr heq.symm)

theorem processChunk_cases {index : Nat} {msg : SnapshotChunkMessage}
    (hr : s.snapshotReceiver = some r) (hplain : ∀ name ∈ r.target cfg index msg, name.Plain) :
    ∃ s' e, processChunk cfg s index msg = .ok (s', e) ∧
      Receives s s' r (r.target cfg index msg) := by
  simp only [processChunk, hr]
  by_cases hcrc : msg.continueCrc32 = 0
  · rw [if_neg (not_not.mpr hcrc)]
    exact ⟨s, _, rfl, receives_self hr _⟩
  rw [if_pos hcrc, saveChunk]
  by_cases hindex : r.metadata.index = index
  · rw [if_neg (not_not.mpr hindex)]
    cases hv : r.validator msg with
    | none => exact ⟨s, _, rfl, receives_self hr _⟩
    | some v =>
      have hname := validate_fileName cfg v msg
      rcases hval : v.validate cfg msg with ⟨v', _ | e⟩
      · have hsame : v.fileName = v'.fileName := by rw [← hname, hval]
        have htarget : r.target cfg index msg = some v'.fileName := by
          simp [Receiver.target, hindex, hcrc, hv, hval, hsame]
        rw [htarget] at hplain ⊢
        simp only [hval]
        exact appendChunk_cases s r msg (hplain _ rfl)
      · simp only [hval]
        exact ⟨_, _, rfl, receives_withValidators ..⟩
  · rw [if_pos hindex]
    exact ⟨s, _, rfl, receives_self hr _⟩

/-- The check of a file goes on to the next one, ends with an error, or leaves the folder. -/
theorem validateSnapshotFiles_cons (cfg : ReceiverConfig) (folder : Folder) (d : SnapshotFileDesc)
    (rest : List SnapshotFileDesc) :
    (validateSnapshotFiles cfg folder (d :: rest) = validateSnapshotFiles cfg folder rest ∧
      (d.isExternal = false → Matches cfg.crc64 folder d)) ∨
    d.isExternal = false ∧
      ((∃ e, validateSnapshotFiles cfg folder (d :: rest) = .ok (some e) ∧ e ≠ .handlerFailed ∧
          ¬ Matches cfg.crc64 folder d) ∨
        validateSnapshotFiles cfg folder (d :: rest) = .error .outside ∧
          ∃ name ∈ snapshotFileName d.fileType d.tag, ¬ name.Plain) := by
  rw [validateSnapshotFiles]
  cases hext : d.isExternal with
  | true => exact .inl ⟨rfl, nofun⟩
  | false =>
    cases hname : snapshotFileName d.fileType d.tag with
    | none => exact .inr ⟨rfl, .inl ⟨_, rfl, nofun, by simp [Matches, hname]⟩⟩
    | some name =>
      by_cases hplain : name.Plain
      · simp only [hplain, not_true_eq_false, if_false, Bool.false_eq_true]
        cases hbytes : folder.lookup name with
        | none => exact .inr ⟨trivial, .inl ⟨_, rfl, nofun, by simp [Matches, hname, hbytes]⟩⟩
        | some bytes =>
          by_cases hsize : (bytes.length : Int) = d.fileSize
          · by_cases hcrc : cfg.crc64 bytes = d.fileCrc64
            · simp only [hsize, hcrc, ne_eq, not_true_eq_false, if_false]
              exact .inl ⟨trivial, fun _ => ⟨name, bytes, hname, hbytes, hsize, hcrc⟩⟩
            · refine .inr ⟨trivial, .inl ⟨.mismatchCrc d.tag, ?_, nofun, ?_⟩⟩
              · simp [hsize, hcrc]
              · simp [Matches, hname, hbytes, hcrc]
          · refine .inr ⟨trivial, .inl ⟨.mismatchSize d.tag, ?_, nofun, ?_⟩⟩
            · simp [hsize]
            · simp [Matches, hname, hbytes, hsize]
      · exact .inr ⟨rfl, .inr ⟨if_pos hplain, name, rfl, hplain⟩⟩

theorem validateSnapshotFiles_ok (cfg : ReceiverConfig) (folder : Folder)
    {files : List SnapshotFileDesc}
    (hplain : ∀ d ∈ files, d.isExternal = false → ∀ name ∈ snapshotFileName d.fileType d.tag,
      name.Plain) :
    ∃ e, validateSnapshotFiles cfg folder files = .ok e ∧
      (e = none ↔ ∀ d ∈ files, d.isExternal = false → Matches cfg.crc64 folder d) := by
  induction files with
  | nil => exact ⟨none, rfl, by simp⟩
  | cons d rest ih =>
    obtain ⟨hd, hrest⟩ := forall_mem_cons.mp hplain
    rw [forall_mem_cons]
    rcases validateSnapshotFiles_cons cfg folder d rest with
      ⟨hnext, hmatch⟩ | ⟨hext, ⟨e, he, -, hnot⟩ | ⟨-, name, hname, hnot⟩⟩
    · obtain ⟨e, he, hiff⟩ := ih hrest
      exact ⟨e, hnext.trans he, hiff.trans (and_iff_right hmatch).symm⟩
    · exact ⟨some e, he, iff_of_false nofun fun hall => hnot (hall.1 hext)⟩
    · exact absurd (hd hext name hname) hnot

theorem commitSnapshot_cases (cfg : ReceiverConfig) (s : Storage) (index : Nat)
    (m : SnapshotMetadata) (folder : Folder) :
    (commitSnapshot cfg s index m folder).1.snapshotReceiver = s.snapshotReceiver ∧
    (∀ f, (commitSnapshot cfg s index m folder).1.temp.lookup index = some f →
      s.temp.lookup index = some f) ∧
    ((commitSnapshot cfg s index m folder).2 = none →
      (commitSnapshot cfg s index m folder).1.installed.lookup index = some ⟨m, folder⟩) := by
  unfold commitSnapshot
  split
  · exact ⟨rfl, fun _ h => h, by simp⟩
  · have herase : ∀ f, (s.temp.erase index).lookup index = some f →
        s.temp.lookup index = some f := by
      intro f h
      rw [AList.lookup_erase] at h
      cases h
    split
    · exact ⟨rfl, herase, fun _ => AList.lookup_insert _⟩
    · exact ⟨rfl, herase, by simp⟩

theorem lookup_withMetadata {name : FileName} (cfg : ReceiverConfig) (folder : Folder)
    (m : SnapshotMetadata) (h : name ≠ .metadata) :
    (folder.withMetadata cfg m).lookup name = folder.lookup name :=
  AList.lookup_insert_ne h

theorem commitWritten_withMetadata {m : SnapshotMetadata} (hreads : cfg.Reads m) (index : Nat)
    (folder : Folder) :
    commitWritten cfg s index (folder.withMetadata cfg m) =
      if m.version ≠ cfg.version then .ok (s, some (.mismatchVersion cfg.version m.version))
      else match validateSnapshotFiles cfg (folder.withMetadata cfg m) m.files with
        | .error crash => .error crash
        | .ok (some e) => .ok (s, some e)
        | .ok none => .ok (commitSnapshot cfg s index m (folder.withMetadata cfg m)) := by
  have hdecode : decodeMetadata cfg.toCodecConfig
      (((folder.withMetadata cfg m).lookup .metadata).getD []) = .ok m := by
    rw [Folder.withMetadata, AList.lookup_insert, Option.getD_some]
    exact decode_writeAt hreads _
  rw [commitWritten, hdecode]

theorem mem_withMetadata {name : FileName} {folder : Folder} {m : SnapshotMetadata}
    (h : name ∈ folder.withMetadata cfg m) : name ∈ folder ∨ name = .metadata := by
  rw [Folder.withMetadata, AList.mem_insert] at h
  exact h.symm

theorem receives_withMetadata (cfg : ReceiverConfig) {folder : Folder}
    (hr : s.snapshotReceiver = some r)
    (hf : s.temp.lookup r.metadata.index = some folder) :
    Receives s (s.withFolder r.metadata.index (folder.withMetadata cfg r.metadata)) r
      (some .metadata) := by
  refine ⟨⟨r.chunkValidator, hr⟩, fun f' h => ?_⟩
  rw [Storage.withFolder, AList.lookup_insert] at h
  cases h
  exact ⟨folder, hf, fun other h => (mem_withMetadata h).imp_right fun h => by rw [h]; rfl⟩

/-- `Commit` keeps the receiver and adds at most the metadata file to its folder; if it succeeds the
folder is installed and every listed file was checked. -/
theorem commit_cases (cfg : ReceiverConfig) (index : Nat) (hr : s.snapshotReceiver = some r)
    (hreads : r.metadata.index = index → cfg.Reads r.metadata)
    (hplain : ∀ name ∈ listed r.metadata, name.Plain)
    (hfolder : ∀ f, s.temp.lookup r.metadata.index = some f →
      ∀ name ∈ f, name = .metadata ∨ name ∈ listed r.metadata) :
    ∃ s' e, commit cfg s r index = .ok (s', e) ∧ Receives s s' r (some .metadata) ∧
      (e = none → r.metadata.index = index ∧ ∃ folder,
        s'.installed.lookup index = some ⟨r.metadata, folder⟩ ∧
          HasListed cfg r.metadata folder) := by
  unfold commit
  by_cases hindex : r.metadata.index = index
  swap
  · rw [if_pos hindex]
    exact ⟨s, _, rfl, receives_self hr _, by simp⟩
  rw [if_neg (not_not.mpr hindex)]
  subst hindex
  cases hf : s.temp.lookup r.metadata.index with
  | none => exact ⟨s, _, rfl, receives_self hr _, by simp⟩
  | some folder =>
    dsimp only
    have hwritten := receives_withMetadata cfg hr hf
    rw [commitWritten_withMetadata (hreads rfl)]
    by_cases hversion : r.metadata.version = cfg.version
    swap
    · rw [if_pos hversion]
      exact ⟨_, _, rfl, hwritten, by simp⟩
    rw [if_neg (not_not.mpr hversion)]
    obtain ⟨e, he, hmatches⟩ := validateSnapshotFiles_ok cfg (folder.withMetadata cfg r.metadata)
      (fun d hd hlocal name hname => hplain name (mem_listed hd hlocal hname))
    rw [he]
    cases e with
    | some e => exact ⟨_, _, rfl, hwritten, by simp⟩
    | none =>
      obtain ⟨hsame, htemp, hinstalled⟩ := commitSnapshot_cases cfg
        (s.withFolder r.metadata.index (folder.withMetadata cfg r.metadata)) r.metadata.index
        r.metadata (folder.withMetadata cfg r.metadata)
      refine ⟨_, _, rfl, ⟨⟨r.chunkValidator, hsame.trans hr⟩, ?_⟩, ?_⟩
      · intro f' h
        exact hwritten.2 f' (htemp f' h)
      · intro hnone
        refine ⟨rfl, _, hinstalled hnone, ?_, hmatches.mp rfl⟩
        intro name h
        exact (mem_withMetadata h).elim (hfolder folder hf name) .inl

/-! ## Whole runs -/

namespace ReceivingNode

def start (installed : AList fun _ : Nat => InstalledSnapshot) (unregistered : List Nat)
    (temp : AList fun _ : Nat => Folder) : ReceivingNode :=
  ⟨⟨installed, unregistered, temp, none⟩, [], none⟩

/-- Finish comes while there is a receiver, whose metadata the codec reads back, a chunk that is
appended is appended to a listed file, and the listed names are names of files in the folder. -/
def Orderly (cfg : ReceiverConfig) (n : ReceivingNode) : ReceivingInput → Prop
  | .message msg _ => msg.clusterID = cfg.clusterID ∧ msg.toID = cfg.localID →
    match msg.body with
    | .metadata m => ∀ name ∈ listed m, name.Plain
    | .chunk chunk => ∀ r ∈ n.storage.snapshotReceiver, ∀ name ∈ r.target cfg msg.index chunk,
        name ∈ listed r.metadata
    | .finish toID => toID ≠ 0 → ∃ r ∈ n.storage.snapshotReceiver,
        r.metadata.index = msg.index → cfg.Reads r.metadata
    | .unknown => True
  | .environment _ _ => True

/-- The receiver belongs to the last accepted Metadata, and its folder has listed files only. -/
structure Invariant (n : ReceivingNode) : Prop where
  accepted : ∀ r, n.storage.snapshotReceiver = some r → n.accepted.head? = some r.metadata
  plain : ∀ r, n.storage.snapshotReceiver = some r → ∀ name ∈ listed r.metadata, name.Plain
  folder : ∀ r, n.storage.snapshotReceiver = some r →
    ∀ f, n.storage.temp.lookup r.metadata.index = some f →
      ∀ name ∈ f, name = .metadata ∨ name ∈ listed r.metadata

/-- If the last answer was the success of a Finish, the snapshot has the files listed in the last
accepted Metadata for its index. -/
def Finished (cfg : ReceiverConfig) (n : ReceivingNode) : Prop :=
  ∀ msg toID, n.last = some (msg, .success) → msg.body = .finish toID →
    ∃ m folder, n.accepted.find? (·.index = msg.index) = some m ∧
      n.storage.installed.lookup msg.index = some ⟨m, folder⟩ ∧ HasListed cfg m folder

variable {n : ReceivingNode}

theorem invariant_of_none (h : n.storage.snapshotReceiver = none) : n.Invariant := by
  constructor <;> simp [h]

theorem Invariant.receives (hI : n.Invariant) {name : Option FileName}
    (hr : n.storage.snapshotReceiver = some r) (hs : Receives n.storage s r name)
    (hname : ∀ other ∈ name, other = .metadata ∨ other ∈ listed r.metadata)
    (last : Option (SnapshotMessage × Response)) : Invariant ⟨s, n.accepted, last⟩ := by
  obtain ⟨⟨validators, hvalidators⟩, hfolder⟩ := hs
  constructor <;> intro r' hr' <;> cases hvalidators.symm.trans hr'
  · exact hI.accepted r hr
  · exact hI.plain r hr
  · intro f' hf' other hother
    obtain ⟨f, hf, hsub⟩ := hfolder f' hf'
    exact (hsub other hother).elim (hI.folder r hr f hf other) (hname other)

variable {accepted : List SnapshotMetadata} {response : Response}

variable {msg : SnapshotMessage}

theorem recordAccepted_of_ne (h : response ≠ .success) :
    recordAccepted accepted msg response = accepted := by
  cases response <;> simp_all [recordAccepted]

theorem recordAccepted_of_not_metadata (msg : SnapshotMessage) (accepted : List SnapshotMetadata)
    (h : ∀ m, msg.body ≠ .metadata m) (response : Response) :
    recordAccepted accepted msg response = accepted := by
  unfold recordAccepted
  grind

theorem finished_of_not_finish {cfg : ReceiverConfig} (h : ∀ toID, msg.body ≠ .finish toID) :
    Finished cfg ⟨s, accepted, some (msg, response)⟩ := by
  intro msg' toID hlast hbody
  cases hlast
  exact absurd hbody (h toID)

theorem finished_of_not_success {cfg : ReceiverConfig} (h : response ≠ .success) :
    Finished cfg ⟨s, accepted, some (msg, response)⟩ := by
  intro msg' toID hlast hbody
  cases hlast
  exact absurd rfl h

variable {stepped : Bool}

theorem exec_message (h : processSnapshotMessage cfg n.storage msg stepped = .ok (s, response)) :
    n.exec cfg (.message msg stepped) =
      .ok ⟨s, recordAccepted n.accepted msg response, some (msg, response)⟩ := by
  simp only [exec, h]

section

variable (hI : n.Invariant)
  (haddressed : msg.clusterID = cfg.clusterID ∧ msg.toID = cfg.localID)
include hI haddressed

theorem exec_metadata {m : SnapshotMetadata} (hbody : msg.body = .metadata m)
    (hplain : ∀ name ∈ listed m, name.Plain) :
    ∃ n', n.exec cfg (.message msg stepped) = .ok n' ∧ n'.Invariant ∧ n'.Finished cfg := by
  have hmsg : processSnapshotMessage cfg n.storage msg stepped =
      .ok ((processMetadata n.storage m).1, answer (processMetadata n.storage m).2) := by
    simp only [processSnapshotMessage, haddressed, ne_eq, not_true_eq_false, or_self, if_false,
      hbody]
    rfl
  refine ⟨_, exec_message hmsg, ?_, finished_of_not_finish (by simp [hbody])⟩
  obtain ⟨hnone, hr, htemp⟩ | ⟨herror, hr, htemp⟩ := processMetadata_cases n.storage m
  · rw [hnone]
    constructor <;> intro r' hr' <;> cases hr.symm.trans hr'
    · simp [recordAccepted, answer, hbody]
    · exact hplain
    · intro f hf
      cases htemp.symm.trans hf
      simp
  · have hne : answer (processMetadata n.storage m).2 ≠ .success := by
      cases he : (processMetadata n.storage m).2 with
      | none => exact absurd he herror
      | some e => simp [answer]
    rw [recordAccepted_of_ne hne]
    constructor <;> intro r' hr'
    · exact hI.accepted r' (hr.symm.trans hr')
    · exact hI.plain r' (hr.symm.trans hr')
    · exact fun f hf => hI.folder r' (hr.symm.trans hr') f (htemp _ f hf)

theorem exec_chunk {chunk : SnapshotChunkMessage} (hbody : msg.body = .chunk chunk)
    (hlisted : ∀ r ∈ n.storage.snapshotReceiver, ∀ name ∈ r.target cfg msg.index chunk,
      name ∈ listed r.metadata) :
    ∃ n', n.exec cfg (.message msg stepped) = .ok n' ∧ n'.Invariant ∧ n'.Finished cfg := by
  have hmsg : ∀ s e, processChunk cfg n.storage msg.index chunk = .ok (s, e) →
      processSnapshotMessage cfg n.storage msg stepped = .ok (s, answer e) := by
    intro s e h
    simp only [processSnapshotMessage, haddressed, ne_eq, not_true_eq_false, or_self, if_false,
      hbody, h]
    rfl
  have hrecord := recordAccepted_of_not_metadata msg n.accepted (by simp [hbody])
  cases hr : n.storage.snapshotReceiver with
  | none =>
    refine ⟨_, exec_message (hmsg n.storage (some .receiverNil) (by simp only [processChunk, hr])),
      ?_, finished_of_not_finish (by simp [hbody])⟩
    exact invariant_of_none hr
  | some r =>
    have hlisted := hlisted r hr
    obtain ⟨s, e, hs, hreceives⟩ := processChunk_cases hr
      (fun name hname => hI.plain r hr name (hlisted name hname))
    refine ⟨_, exec_message (hmsg s e hs), ?_, finished_of_not_finish (by simp [hbody])⟩
    rw [hrecord]
    exact hI.receives hr hreceives (fun other hother => .inr (hlisted other hother)) _

theorem exec_finish {toID : Nat} (hbody : msg.body = .finish toID)
    (hreceiver : toID ≠ 0 → ∃ r ∈ n.storage.snapshotReceiver,
      r.metadata.index = msg.index → cfg.Reads r.metadata) :
    ∃ n', n.exec cfg (.message msg stepped) = .ok n' ∧ n'.Invariant ∧ n'.Finished cfg := by
  have hrecord := recordAccepted_of_not_metadata msg n.accepted (by simp [hbody])
  by_cases hto : toID = 0
  · have hmsg : processSnapshotMessage cfg n.storage msg stepped =
        .ok (n.storage, .failed .zeroTo) := by
      simp [processSnapshotMessage, haddressed, hbody, processFinish, hto]
    refine ⟨_, exec_message hmsg, ?_, finished_of_not_success (by simp)⟩
    rw [hrecord]
    exact { hI with }
  · obtain ⟨r, hr, hreads⟩ := hreceiver hto
    rw [Option.mem_def] at hr
    obtain ⟨s, e, hs, hreceives, hinstalled⟩ := commit_cases cfg msg.index hr hreads
      (hI.plain r hr) (hI.folder r hr)
    cases e with
    | some e =>
      have hmsg : processSnapshotMessage cfg n.storage msg stepped = .ok (s, .failed e) := by
        simp [processSnapshotMessage, haddressed, hbody, processFinish, hto, hr, hs]
      refine ⟨_, exec_message hmsg, ?_, finished_of_not_success (by simp)⟩
      rw [hrecord]
      refine hI.receives hr hreceives ?_ _
      intro other hother
      exact .inl (Option.mem_some.mp hother).symm
    | none =>
      have hmsg : processSnapshotMessage cfg n.storage msg stepped =
          .ok ({ s with snapshotReceiver := none },
            if stepped then .success else .failed .stepFailed) := by
        simp [processSnapshotMessage, haddressed, hbody, processFinish, hto, hr, hs]
      refine ⟨_, exec_message hmsg, invariant_of_none rfl, ?_⟩
      rw [hrecord]
      intro msg' toID' hlast _
      obtain ⟨rfl, -⟩ : msg = msg' ∧ _ := Prod.mk.inj (Option.some.inj hlast)
      obtain ⟨hindex, folder, hlookup, hlisted⟩ := hinstalled rfl
      refine ⟨r.metadata, folder, ?_, hlookup, hlisted⟩
      -- the receiver belongs to the last Metadata that was accepted
      obtain ⟨rest, hrest⟩ := head?_eq_some_iff.mp (hI.accepted r hr)
      simp [hrest, hindex]

end

theorem exec_orderly (hI : n.Invariant) {i : ReceivingInput} (horderly : n.Orderly cfg i) :
    ∃ n', n.exec cfg i = .ok n' ∧ n'.Invariant ∧ n'.Finished cfg := by
  cases i with
  | environment installed unregistered =>
    exact ⟨_, rfl, { hI with }, nofun⟩
  | message msg stepped =>
    have hrejected : processSnapshotMessage cfg n.storage msg stepped = .ok (n.storage, .rejected) →
        ∃ n', n.exec cfg (.message msg stepped) = .ok n' ∧ n'.Invariant ∧ n'.Finished cfg :=
      fun hmsg => ⟨_, exec_message hmsg, { hI with }, finished_of_not_success nofun⟩
    by_cases haddressed : msg.clusterID = cfg.clusterID ∧ msg.toID = cfg.localID
    · have horderly := horderly haddressed
      cases hbody : msg.body with
      | metadata m => exact exec_metadata hI haddressed hbody (by simpa only [hbody] using horderly)
      | chunk chunk => exact exec_chunk hI haddressed hbody (by simpa only [hbody] using horderly)
      | finish toID => exact exec_finish hI haddressed hbody (by simpa only [hbody] using horderly)
      | unknown => exact hrejected (by simp [processSnapshotMessage, haddressed, hbody])
    · exact hrejected (if_pos (not_and_or.mp haddressed))

theorem run_orderly {is : List ReceivingInput} (hI : n.Invariant) (hF : n.Finished cfg)
    (h : Throughout (exec cfg) (Orderly cfg) n is) :
    ∃ n', run (exec cfg) n is = .ok n' ∧ n'.Finished cfg := by
  induction is generalizing n with
  | nil => exact ⟨n, rfl, hF⟩
  | cons i is ih =>
    obtain ⟨n', hn', hI', hF'⟩ := exec_orderly hI h.1
    obtain ⟨t, ht, hFt⟩ := ih hI' hF' (h.2 n' hn')
    exact ⟨t, (run_cons_ok is hn').trans ht, hFt⟩

/-- Every message of an orderly run is answered, and a snapshot that was finished with success has
the files that the last accepted Metadata for its index lists, and no others. -/
theorem reception_robust (cfg : ReceiverConfig) (installed : AList fun _ : Nat => InstalledSnapshot)
    (unregistered : List Nat) (temp : AList fun _ : Nat => Folder) (is : List ReceivingInput)
    (h : Throughout (exec cfg) (Orderly cfg) (start installed unregistered temp) is) :
    ∀ pre, pre <+: is → ∃ n, run (exec cfg) (start installed unregistered temp) pre = .ok n ∧
      ∀ msg toID, n.last = some (msg, .success) → msg.body = .finish toID →
        ∃ m folder, n.accepted.find? (·.index = msg.index) = some m ∧
          n.storage.installed.lookup msg.index = some ⟨m, folder⟩ ∧ HasListed cfg m folder := by
  rintro pre ⟨rest, rfl⟩
  exact run_orderly (invariant_of_none rfl) nofun (throughout_append.mp h).1

def exampleMetadata : SnapshotMetadata := ⟨1, 3, 5, [⟨.cluster, [], 2, 2, false, [], []⟩]⟩

/-- A codec for one value. -/
def codecOf (m : SnapshotMetadata) : MetadataCodec := ⟨fun _ => some [1], fun _ => some m⟩

def exampleConfig : ReceiverConfig where
  codec := codecOf exampleMetadata
  crc64 bytes := UInt64.ofNat bytes.length
  pool := ⟨[64]⟩
  clusterID := 1
  localID := 2
  version := 1
  crc32 crc data := crc + 1 + UInt32.ofNat data.length
  onSnapshotReceived := none

theorem exampleConfig_reads : exampleConfig.Reads exampleMetadata :=
  ⟨[1], rfl, rfl, by decide, by decide⟩

def exampleMessage (body : SnapshotMessageBody) : ReceivingInput := .message ⟨1, 2, 5, body⟩ true

def exampleChunk (fileType : SnapshotFileType) (tag : FileTag) : SnapshotMessageBody :=
  .chunk ⟨tag, fileType, 1, [7, 8], true, 3⟩

/-- Finish as the first message, or twice, calls a method of a nil receiver. A chunk for a file that
is not listed ends up in the installed snapshot. -/
theorem finish_without_receiver :
    run (exec exampleConfig) (start ∅ [] ∅) [exampleMessage (.finish 2)] = .error .nilReceiver ∧
    run (exec exampleConfig) (start ∅ [] ∅) [exampleMessage (.metadata exampleMetadata),
      exampleMessage (exampleChunk .cluster []), exampleMessage (.finish 2),
      exampleMessage (.finish 2)] = .error .nilReceiver ∧
    ∃ n, run (exec exampleConfig) (start ∅ [] ∅) [exampleMessage (.metadata exampleMetadata),
        exampleMessage (exampleChunk .cluster []), exampleMessage (exampleChunk .session ['s']),
        exampleMessage (.finish 2)] = .ok n ∧
      n.last.map Prod.snd = some .success ∧
      ((n.storage.installed.lookup 5).bind fun snapshot => snapshot.files.lookup .session) =
        some [7, 8] ∧
      FileName.session ∉ listed exampleMetadata := by
  refine ⟨rfl, rfl, _, rfl, rfl, ?_, ?_⟩
  · decide +kernel
  · decide +kernel

theorem single_file_received :
    ∃ n, run (exec exampleConfig) (start ∅ [] ∅) [exampleMessage (.metadata exampleMetadata),
        exampleMessage (exampleChunk .cluster []), exampleMessage (.finish 2)] = .ok n ∧
      n.last.map Prod.snd = some .success ∧
      ∀ msg toID, n.last = some (msg, .success) → msg.body = .finish toID →
        ∃ m folder, n.accepted.find? (·.index = msg.index) = some m ∧
          n.storage.installed.lookup msg.index = some ⟨m, folder⟩ ∧
            HasListed exampleConfig m folder := by
  have horderly : Throughout (exec exampleConfig) (Orderly exampleConfig) (start ∅ [] ∅)
      [exampleMessage (.metadata exampleMetadata), exampleMessage (exampleChunk .cluster []),
        exampleMessage (.finish 2)] := by
    refine ⟨fun _ => by decide +kernel, fun n hn => ?_⟩
    cases hn
    refine ⟨fun _ => ?_, fun n hn => ?_⟩
    · intro r hr name hname
      cases hr
      have htarget : some FileName.cluster = some name := hname
      cases htarget
      decide +kernel
    · cases hn
      exact ⟨fun _ _ => ⟨_, rfl, fun _ => exampleConfig_reads⟩, fun _ _ => trivial⟩
  obtain ⟨n, hn, hfinished⟩ := reception_robust exampleConfig ∅ [] ∅ _ horderly _ (prefix_refl _)
  refine ⟨n, hn, ?_, hfinished⟩
  cases hn
  rfl

end ReceivingNode

end Babuza.Snapshot
