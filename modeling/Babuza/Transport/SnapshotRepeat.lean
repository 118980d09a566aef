import Babuza.Transport.SnapshotTransfer

/-!
# Repeating a transfer

A Metadata message first deletes the folder of the receiver that is still there
(`ProcessMetadataSnapshotMessage` in `raft/raft_storage.go`). A Metadata message for an index that
is installed already, and a Finish message that fails in the handler for external files, leave a
receiver whose folder is gone. The volatile file system does not delete a folder that is not there,
so that from then on every Metadata message fails (`repeat_iff`).
-/

namespace Babuza.Transport

open Lib Snapshot List

/-! ## The model -/

inductive FileSystem
  | durable
  | volatile
  deriving DecidableEq

variable (fs : FileSystem) (cfg : ReceiverConfig)

/-- `DeleteDir` of the receiver, if there is one. -/
def deleteDirOn (s : Storage) : Except ReceiveError Storage :=
  match s.snapshotReceiver with
  | none => .ok s
  | some r =>
    if fs = .volatile ∧ r.metadata.index ∉ s.temp then .error .folderMissing
    else .ok { s with temp := s.temp.erase r.metadata.index }

def processMetadataOn (s : Storage) (m : Snapshot.SnapshotMetadata) :
    Storage × Option ReceiveError :=
  if m.files = [] then (s, some .metadataNil)
  else match deleteDirOn fs s with
    | .error e => (s, some e)
    | .ok s => createReceiver s m

/-- The metadata file. The volatile file system starts with an empty file, the durable one writes
over what is there. -/
def withMetadataOn (folder : Folder) (m : Snapshot.SnapshotMetadata) : Folder :=
  match fs with
  | .durable => folder.withMetadata cfg m
  | .volatile => folder.insert .metadata (encodeMetadata cfg.toCodecConfig m)

/-- `Receiver.Commit`. -/
def commitOn (s : Storage) (r : Receiver) (index : Nat) :
    Except Crash (Storage × Option ReceiveError) :=
  if r.metadata.index ≠ index then .ok (s, some (.mismatchIndex r.metadata.index index))
  else match s.temp.lookup r.metadata.index with
    | none => .ok (s, some .folderMissing)
    | some folder =>
      let folder := withMetadataOn fs cfg folder r.metadata
      commitWritten cfg (s.withFolder r.metadata.index folder) index folder

def processFinishOn (s : Storage) (index toID : Nat) :
    Except Crash (Storage × Option ReceiveError) :=
  if toID = 0 then .ok (s, some .zeroTo)
  else match s.snapshotReceiver with
    | none => .error .nilReceiver
    | some r => match commitOn fs cfg s r index with
      | .error crash => .error crash
      | .ok (s, some e) => .ok (s, some e)
      | .ok (s, none) => .ok ({ s with snapshotReceiver := none }, none)

def processSnapshotMessageOn (s : Storage) (msg : SnapshotMessage) (stepped : Bool) :
    Except Crash (Storage × Snapshot.Response) :=
  if msg.clusterID ≠ cfg.clusterID ∨ msg.toID ≠ cfg.localID then .ok (s, .rejected)
  else match msg.body with
    | .metadata m => .ok ((processMetadataOn fs s m).map id answer)
    | .chunk chunk => (processChunk cfg s msg.index chunk).map (Prod.map id answer)
    | .finish toID => match processFinishOn fs cfg s msg.index toID with
      | .error crash => .error crash
      | .ok (s, some e) => .ok (s, .failed e)
      | .ok (s, none) => .ok (s, if stepped then .success else .failed .stepFailed)
    | .unknown => .ok (s, .rejected)

def deliverOn (s : Storage) : List SnapshotMessage → Except Crash (Storage × List Snapshot.Response)
  | [] => .ok (s, [])
  | msg :: rest => do
    let (s, response) ← processSnapshotMessageOn fs cfg s msg true
    let (s, responses) ← deliverOn s rest
    .ok (s, response :: responses)

def execOn (s : Storage) : ReceivingInput → Except Crash Storage
  | .message msg stepped => (processSnapshotMessageOn fs cfg s msg stepped).map Prod.fst
  | .environment installed unregistered =>
    .ok { s with installed := installed, unregistered := unregistered }

theorem processSnapshotMessageOn_durable :
    processSnapshotMessageOn .durable cfg = processSnapshotMessage cfg := by
  have hdelete : ∀ s, deleteDirOn .durable s = .ok (deleteDir s) := by
    intro s
    unfold deleteDirOn deleteDir
    cases s.snapshotReceiver with
    | none => rfl
    | some r => exact if_neg nofun
  have hmetadata : ∀ s m, processMetadataOn .durable s m = processMetadata s m := by
    intro s m
    simp only [processMetadataOn, processMetadata, hdelete]
  funext s msg stepped
  simp only [processSnapshotMessageOn, processSnapshotMessage, hmetadata]
  rfl

/-- A storage before the first message. The temporary folders of earlier runs have been removed. -/
def startStorage (installed : AList fun _ : Nat => InstalledSnapshot) (unregistered : List Nat) :
    Storage :=
  ⟨installed, unregistered, ∅, none⟩

/-- The input leaves a receiver without a folder: Metadata for an installed index while there is a
receiver, or Finish with a handler that fails. -/
def Strands (s : Storage) : ReceivingInput → Prop
  | .message msg _ => msg.clusterID = cfg.clusterID ∧ msg.toID = cfg.localID ∧
    match msg.body with
    | .metadata m => m.files ≠ [] ∧ m.index ∈ s.installed ∧ s.snapshotReceiver.isSome
    | .finish toID => ∃ s', processFinishOn fs cfg s msg.index toID = .ok (s', some .handlerFailed)
    | .chunk _ | .unknown => False
  | .environment _ _ => False

/-! ## Receivers and folders -/

def Owned (s : Storage) : Prop :=
  ∀ i, i ∈ s.temp → (s.snapshotReceiver.map (·.metadata.index)) = some i

def Stranded (s : Storage) : Prop :=
  ∃ i, s.snapshotReceiver.map (·.metadata.index) = some i ∧ i ∉ s.temp

structure Alike (s s' : Storage) : Prop where
  temp : ∀ i, i ∈ s'.temp ↔ i ∈ s.temp
  receiver : s'.snapshotReceiver.map (·.metadata.index) =
    s.snapshotReceiver.map (·.metadata.index)

variable {fs cfg} {s s' : Storage}

theorem Alike.refl (s : Storage) : Alike s s := ⟨fun _ => Iff.rfl, rfl⟩

theorem Alike.stranded_iff (h : Alike s s') : Stranded s' ↔ Stranded s := by
  simp only [Stranded, h.temp, h.receiver]

variable {r : Receiver}

theorem alike_withValidators (hr : s.snapshotReceiver = some r)
    (validators : AList fun _ : FileTag => ChunkValidator) :
    Alike s (s.withValidators r validators) where
  temp _ := Iff.rfl
  receiver := by rw [hr]; rfl

theorem alike_withFolder {i : Nat} (hi : i ∈ s.temp) (folder : Folder) :
    Alike s (s.withFolder i folder) where
  temp j := by
    rw [Storage.withFolder, AList.mem_insert]
    exact or_iff_right_of_imp fun heq => heq ▸ hi
  receiver := rfl

theorem mem_temp_of_lookup {i : Nat} {folder : Folder} (h : s.temp.lookup i = some folder) :
    i ∈ s.temp :=
  AList.lookup_isSome.mp (Option.isSome_of_eq_some h)

variable {e : Option ReceiveError} {index : Nat}

theorem alike_processChunk {chunk : SnapshotChunkMessage}
    (h : processChunk cfg s index chunk = .ok (s', e)) : Alike s s' := by
  unfold processChunk saveChunk appendChunk at h
  cases hr : s.snapshotReceiver with
  | none =>
    rw [hr] at h
    cases h
    exact .refl s
  | some r =>
    simp only [hr] at h
    repeat' split at h
    all_goals cases h
    -- the chunk is refused, its file is refused, its folder is missing, or it is appended
    all_goals first
      | exact .refl s
      | exact alike_withValidators hr _
      | exact ⟨(alike_withFolder (mem_temp_of_lookup ‹_›) _).temp, by rw [hr]; rfl⟩

theorem validateSnapshotFiles_ne_handlerFailed {folder : Folder} {files : List SnapshotFileDesc} :
    validateSnapshotFiles cfg folder files ≠ .ok (some .handlerFailed) := by
  induction files with
  | nil => nofun
  | cons d files ih =>
    rcases validateSnapshotFiles_cons cfg folder d files with
      ⟨hnext, -⟩ | ⟨-, ⟨e, he, hne, -⟩ | ⟨herr, -⟩⟩
    · rw [hnext]
      exact ih
    · rw [he]
      simpa using hne
    · rw [herr]
      nofun

theorem commitWritten_cases {folder : Folder} (h : commitWritten cfg s index folder = .ok (s', e)) :
    (s' = s ∧ e ≠ none ∧ e ≠ some .handlerFailed) ∨
      ((e = none ∨ e = some .handlerFailed) ∧ s'.snapshotReceiver = s.snapshotReceiver ∧
        s'.temp = s.temp.erase index) := by
  unfold commitWritten at h
  split at h
  · cases h
  · cases h
    exact .inl ⟨rfl, by simp, by simp⟩
  split at h
  · cases h
    exact .inl ⟨rfl, by simp, by simp⟩
  split at h
  · cases h
  · rename_i hvalid
    cases h
    refine .inl ⟨rfl, by simp, ?_⟩
    rintro ⟨⟩
    exact validateSnapshotFiles_ne_handlerFailed hvalid
  · have h := Except.ok.inj h
    unfold commitSnapshot at h
    split at h
    · cases h
      exact .inl ⟨rfl, by simp, by simp⟩
    · split at h
      · cases h
        exact .inr ⟨.inl rfl, rfl, rfl⟩
      · cases h
        exact .inr ⟨.inr rfl, rfl, rfl⟩

/-- `Commit` takes the folder away if it succeeds or the handler fails, and otherwise changes its
contents at most. -/
theorem commitOn_cases (hr : s.snapshotReceiver = some r)
    (h : commitOn fs cfg s r index = .ok (s', e)) :
    (Alike s s' ∧ e ≠ none ∧ e ≠ some .handlerFailed) ∨
      ((e = none ∨ e = some .handlerFailed) ∧ s'.snapshotReceiver = some r ∧
        r.metadata.index ∈ s.temp ∧ ∀ i, i ∈ s'.temp ↔ i ∈ s.temp ∧ i ≠ r.metadata.index) := by
  unfold commitOn at h
  split at h
  · cases h
    exact .inl ⟨.refl s, by simp, by simp⟩
  rename_i hindex
  split at h
  · cases h
    exact .inl ⟨.refl s, by simp, by simp⟩
  rename_i folder hfolder
  have hwritten := alike_withFolder (mem_temp_of_lookup hfolder)
    (withMetadataOn fs cfg folder r.metadata)
  rcases commitWritten_cases h with ⟨rfl, he⟩ | ⟨he, hr', htemp⟩
  · exact .inl ⟨hwritten, he⟩
  · refine .inr ⟨he, hr'.trans hr, mem_temp_of_lookup hfolder, fun i => ?_⟩
    rw [htemp, ← not_not.mp hindex, AList.mem_erase, hwritten.temp, and_comm]

theorem eq_empty_of_forall_notMem {κ : Type} {β : κ → Type} {a : AList β} (h : ∀ k, k ∉ a) :
    a = ∅ := by
  refine AList.ext (eq_nil_iff_forall_not_mem.mpr ?_)
  rintro ⟨k, b⟩ hmem
  exact h k (AList.mem_keys.mpr (mem_map_of_mem hmem))

theorem deleteDirOn_eq_ok (howned : Owned s) (h : ¬(fs = .volatile ∧ Stranded s)) :
    deleteDirOn fs s = .ok { s with temp := ∅ } := by
  unfold deleteDirOn
  cases hr : s.snapshotReceiver with
  | none =>
    have hempty : s.temp = ∅ := eq_empty_of_forall_notMem fun i hi => by
      have hi := howned i hi
      rw [hr] at hi
      cases hi
    simp only [← hempty, ← hr]
  | some r =>
    have hindex : s.snapshotReceiver.map (·.metadata.index) = some r.metadata.index := by
      rw [hr]
      rfl
    dsimp only
    rw [if_neg fun hvolatile => h ⟨hvolatile.1, _, hindex, hvolatile.2⟩]
    have hempty : s.temp.erase r.metadata.index = ∅ := eq_empty_of_forall_notMem fun i hi => by
      obtain ⟨hne, hi⟩ := AList.mem_erase.mp hi
      exact hne (Option.some.inj (hindex.symm.trans (howned i hi))).symm
    rw [hempty]

theorem deleteDirOn_of_stranded (h : Stranded s) :
    deleteDirOn .volatile s = .error .folderMissing := by
  obtain ⟨i, hi, htemp⟩ := h
  obtain ⟨r, hr, rfl⟩ := Option.map_eq_some_iff.mp hi
  simp only [deleteDirOn, hr]
  exact if_pos ⟨trivial, htemp⟩

variable {m : Snapshot.SnapshotMetadata}

variable (fs) in
/-- A Metadata message with files: refused by the file system, refused for an installed index after
the folder was deleted, or accepted. -/
theorem processMetadataOn_cases (howned : Owned s) (hfiles : m.files ≠ []) :
    (fs = .volatile ∧ Stranded s ∧ processMetadataOn fs s m = (s, some .folderMissing)) ∨
    (¬(fs = .volatile ∧ Stranded s) ∧ m.index ∈ s.installed ∧
      processMetadataOn fs s m = ({ s with temp := ∅ }, some .alreadyRegistered)) ∨
    (¬(fs = .volatile ∧ Stranded s) ∧ m.index ∉ s.installed ∧ processMetadataOn fs s m =
      ({ s with temp := AList.insert m.index ∅ ∅, snapshotReceiver := some ⟨m, ∅⟩ }, none)) := by
  rw [processMetadataOn, if_neg hfiles]
  by_cases h : fs = .volatile ∧ Stranded s
  · obtain ⟨rfl, hs⟩ := h
    rw [deleteDirOn_of_stranded hs]
    exact .inl ⟨rfl, hs, rfl⟩
  · rw [deleteDirOn_eq_ok howned h]
    by_cases hinstalled : m.index ∈ s.installed
    · exact .inr (.inl ⟨h, hinstalled, if_pos hinstalled⟩)
    · refine .inr (.inr ⟨h, hinstalled, ?_⟩)
      simp only [createReceiver, if_neg hinstalled]
      exact if_neg (AList.notMem_empty _)

/-! ## One input -/

theorem not_stranded_of_mem (hr : s.snapshotReceiver = some r) (hmem : r.metadata.index ∈ s.temp) :
    ¬Stranded s := by
  rintro ⟨i, hi, htemp⟩
  rw [hr] at hi
  cases hi
  exact htemp hmem

theorem processFinishOn_cases (howned : Owned s) {toID : Nat}
    (h : processFinishOn fs cfg s index toID = .ok (s', e)) :
    (Alike s s' ∧ e ≠ some .handlerFailed) ∨
      ((∀ j, j ∉ s'.temp) ∧ ¬Stranded s ∧
        (e = some .handlerFailed ↔ s'.snapshotReceiver.isSome)) := by
  unfold processFinishOn at h
  split at h
  · cases h
    exact .inl ⟨.refl s, nofun⟩
  · split at h
    · cases h
    · rename_i r hr
      have hempty : ∀ {t : Storage}, (∀ i, i ∈ t.temp ↔ i ∈ s.temp ∧ i ≠ r.metadata.index) →
          ∀ j, j ∉ t.temp := by
        intro t htemp j hj
        obtain ⟨hj, hne⟩ := (htemp j).mp hj
        have hindex := howned j hj
        rw [hr] at hindex
        exact hne (Option.some.inj hindex).symm
      split at h
      · cases h
      · rename_i hcommit
        cases h
        rcases commitOn_cases hr hcommit with ⟨halike, -, hne⟩ | ⟨heither, hr', hmem, htemp⟩
        · exact .inl ⟨halike, hne⟩
        · refine .inr ⟨hempty htemp, not_stranded_of_mem hr hmem, ?_⟩
          rw [hr']
          exact iff_of_true (heither.resolve_left nofun) rfl
      · rename_i hcommit
        cases h
        rcases commitOn_cases hr hcommit with ⟨-, hne, -⟩ | ⟨-, -, hmem, htemp⟩
        · exact absurd rfl hne
        · exact .inr ⟨hempty htemp, not_stranded_of_mem hr hmem, iff_of_false nofun nofun⟩

variable {i : ReceivingInput}

/-- What an input does: it leaves the receiver and its folder as they are, takes the folder away, or
puts a new receiver with its folder in their place. -/
theorem execOn_cases (howned : Owned s) (h : execOn fs cfg s i = .ok s') :
    (Alike s s' ∧ (¬Stranded s → ¬Strands fs cfg s i)) ∨
    ((∀ j, j ∉ s'.temp) ∧ ¬(fs = .volatile ∧ Stranded s) ∧
      (Strands fs cfg s i ↔ s'.snapshotReceiver.isSome)) ∨
    ((∃ m : Snapshot.SnapshotMetadata, s'.temp = AList.insert m.index ∅ ∅ ∧
      s'.snapshotReceiver = some ⟨m, ∅⟩) ∧ ¬(fs = .volatile ∧ Stranded s) ∧
      ¬Strands fs cfg s i) := by
  cases i with
  | environment installed unregistered =>
    cases h
    exact .inl ⟨⟨fun _ => Iff.rfl, rfl⟩, fun _ => id⟩
  | message msg stepped =>
    by_cases haddressed : msg.clusterID = cfg.clusterID ∧ msg.toID = cfg.localID
    · obtain ⟨⟨s₁, response⟩, hmsg, hs₁⟩ := map_eq_ok h
      cases hs₁
      rw [processSnapshotMessageOn, if_neg (by simp [haddressed])] at hmsg
      cases hbody : msg.body with
      | unknown =>
        rw [hbody] at hmsg
        cases hmsg
        refine .inl ⟨.refl s, fun _ => ?_⟩
        simp [Strands, hbody]
      | chunk chunk =>
        rw [hbody] at hmsg
        obtain ⟨⟨s₂, e⟩, hchunk, heq⟩ := map_eq_ok hmsg
        cases heq
        refine .inl ⟨alike_processChunk hchunk, fun _ => ?_⟩
        simp [Strands, hbody]
      | metadata m =>
        rw [hbody] at hmsg
        have hs₁ : s₁ = (processMetadataOn fs s m).1 := (Prod.mk.inj (Except.ok.inj hmsg)).1.symm
        have hstrands : Strands fs cfg s (.message msg stepped) ↔
            m.files ≠ [] ∧ m.index ∈ s.installed ∧ s.snapshotReceiver.isSome := by
          simp [Strands, hbody, haddressed]
        by_cases hfiles : m.files = []
        · rw [processMetadataOn, if_pos hfiles] at hs₁
          subst hs₁
          exact .inl ⟨.refl _, fun _ => by simp [hstrands, hfiles]⟩
        · rcases processMetadataOn_cases fs howned hfiles with
            ⟨-, hstranded, heq⟩ | ⟨hnot, hinstalled, heq⟩ | ⟨hnot, hinstalled, heq⟩
          all_goals
            rw [heq] at hs₁
            subst hs₁
          · exact .inl ⟨.refl _, fun hns => absurd hstranded hns⟩
          · refine .inr (.inl ⟨fun j => AList.notMem_empty j, hnot, ?_⟩)
            rw [hstrands]
            simp [hfiles, hinstalled]
          · exact .inr (.inr ⟨⟨m, rfl, rfl⟩, hnot, by simp [hstrands, hinstalled]⟩)
      | finish toID =>
        rw [hbody] at hmsg
        have hstrands : Strands fs cfg s (.message msg stepped) ↔
            ∃ s', processFinishOn fs cfg s msg.index toID = .ok (s', some .handlerFailed) := by
          simp [Strands, hbody, haddressed]
        obtain ⟨e, hfinish⟩ : ∃ e, processFinishOn fs cfg s msg.index toID = .ok (s₁, e) := by
          dsimp only at hmsg
          split at hmsg <;> cases hmsg <;> exact ⟨_, ‹_›⟩
        have hfailed : Strands fs cfg s (.message msg stepped) ↔ e = some .handlerFailed := by
          rw [hstrands, hfinish]
          simp
        rcases processFinishOn_cases howned hfinish with ⟨halike, hne⟩ | ⟨htemp, hns, hiff⟩
        · exact .inl ⟨halike, fun _ => by rwa [hfailed]⟩
        · exact .inr (.inl ⟨htemp, fun h => hns h.2, hfailed.trans hiff⟩)
    · rw [execOn, processSnapshotMessageOn, if_pos (not_and_or.mp haddressed)] at h
      cases h
      exact .inl ⟨.refl s, fun _ hstrands => haddressed ⟨hstrands.1, hstrands.2.1⟩⟩

theorem owned_execOn (howned : Owned s) (h : execOn fs cfg s i = .ok s') : Owned s' := by
  rcases execOn_cases howned h with ⟨halike, -⟩ | ⟨hempty, -⟩ | ⟨⟨m, htemp, hr⟩, -⟩
  · simpa only [Owned, halike.temp, halike.receiver] using howned
  · exact fun j hj => absurd hj (hempty j)
  · intro j hj
    rw [htemp, AList.mem_insert] at hj
    rw [hr]
    exact congrArg some (hj.resolve_right (AList.notMem_empty j)).symm

theorem stranded_iff_of_empty (h : ∀ j, j ∉ s.temp) : Stranded s ↔ s.snapshotReceiver.isSome := by
  constructor
  · rintro ⟨i, hi, -⟩
    obtain ⟨r, hr, -⟩ := Option.map_eq_some_iff.mp hi
    rw [hr]
    rfl
  · intro hsome
    obtain ⟨r, hr⟩ := Option.isSome_iff_exists.mp hsome
    exact ⟨r.metadata.index, by rw [hr]; rfl, h _⟩

theorem stranded_execOn_iff (howned : Owned s) (hns : ¬Stranded s)
    (h : execOn fs cfg s i = .ok s') : ¬Stranded s' ↔ ¬Strands fs cfg s i := by
  rcases execOn_cases howned h with ⟨halike, hno⟩ | ⟨hempty, -, hiff⟩ | ⟨⟨m, htemp, hr⟩, -, hno⟩
  · exact iff_of_true (halike.stranded_iff.not.mpr hns) (hno hns)
  · rw [stranded_iff_of_empty hempty, hiff]
  · refine iff_of_true (not_stranded_of_mem hr ?_) hno
    rw [htemp]
    exact (AList.mem_insert _).mpr (.inl rfl)

theorem Stranded.execOn (howned : Owned s) (hs : Stranded s)
    (h : execOn .volatile cfg s i = .ok s') : Stranded s' := by
  rcases execOn_cases howned h with ⟨halike, -⟩ | ⟨-, hnot, -⟩ | ⟨-, hnot, -⟩
  · exact halike.stranded_iff.mpr hs
  all_goals exact absurd ⟨rfl, hs⟩ hnot

theorem owned_startStorage (installed : AList fun _ : Nat => InstalledSnapshot)
    (unregistered : List Nat) : Owned (startStorage installed unregistered) :=
  fun i hi => absurd hi (AList.notMem_empty i)

variable {history : List ReceivingInput}

theorem owned_run {start t : Storage} (hstart : Owned start)
    (hrun : run (execOn fs cfg) start history = .ok t) : Owned t :=
  run_induction (fun h hstep => owned_execOn h hstep) hstart hrun

/-- After a history on the volatile file system, the receiver has its folder exactly if no input has
left it without one. -/
theorem not_stranded_iff {start t : Storage} (hstart : Owned start) (hns : ¬Stranded start)
    (hrun : run (execOn .volatile cfg) start history = .ok t) :
    ¬Stranded t ↔
      Throughout (execOn .volatile cfg) (fun s i => ¬Strands .volatile cfg s i) start history := by
  rw [← forall_reached_iff_throughout (I := Owned) (J := fun s => ¬Stranded s)
    (fun h hstep => owned_execOn h hstep) (fun h hns hstep => stranded_execOn_iff h hns hstep)
    hstart hns hrun]
  constructor
  · rintro ht pre s' ⟨rest, rfl⟩ hs' hstranded
    obtain ⟨s'', hpre, hrest⟩ := run_append_eq_ok.mp hrun
    cases hpre.symm.trans hs'
    have hlast : Owned t ∧ Stranded t :=
      run_induction (I := fun s => Owned s ∧ Stranded s)
        (fun h hstep => ⟨owned_execOn h.1 hstep, h.2.execOn h.1 hstep⟩)
        ⟨owned_run hstart hs', hstranded⟩ hrest
    exact ht hlast.2
  · intro h
    exact h history t (prefix_refl _) hrun

/-! ## The transfer -/

/-- Every message is answered with success, and the last state is `s'`. -/
def AcceptsOn (fs : FileSystem) (cfg : ReceiverConfig) (s : Storage) (msgs : List SnapshotMessage)
    (s' : Storage) : Prop :=
  ∃ responses, deliverOn fs cfg s msgs = .ok (s', responses) ∧ ∀ r ∈ responses, r = .success

theorem acceptsOn_nil : AcceptsOn fs cfg s [] s' ↔ s' = s :=
  @accepts_nil cfg s s'

theorem acceptsOn_cons {msg : SnapshotMessage} {msgs : List SnapshotMessage} :
    AcceptsOn fs cfg s (msg :: msgs) s' ↔
      ∃ s₁, processSnapshotMessageOn fs cfg s msg true = .ok (s₁, .success) ∧
        AcceptsOn fs cfg s₁ msgs s' :=
  all_success_cons (processSnapshotMessageOn fs cfg s msg true) fun s => deliverOn fs cfg s msgs

theorem acceptsOn_chunks {chunks : List SnapshotChunkMessage} {last : SnapshotMessage} :
    AcceptsOn fs cfg s ((chunks.map fun chunk => message cfg index (.chunk chunk)) ++ [last]) s' ↔
      ∃ s₂, Accepts cfg s (chunks.map fun chunk => message cfg index (.chunk chunk)) s₂ ∧
        processSnapshotMessageOn fs cfg s₂ last true = .ok (s', .success) := by
  induction chunks generalizing s with
  | nil => simp [acceptsOn_cons, acceptsOn_nil]
  | cons chunk chunks ih =>
    have hsame : processSnapshotMessageOn fs cfg s (message cfg index (.chunk chunk)) true =
        processSnapshotMessage cfg s (message cfg index (.chunk chunk)) true := rfl
    simp only [map_cons, cons_append, acceptsOn_cons, accepts_cons, ih, hsame,
      exists_and_exists_iff]

/-- A Metadata message is accepted as in a storage that has just started, unless the volatile file
system misses the folder of the receiver. -/
theorem metadataOn_success_iff (howned : Owned s) :
    processSnapshotMessageOn fs cfg s (message cfg index (.metadata m)) true = .ok (s', .success) ↔
      ¬(fs = .volatile ∧ Stranded s) ∧
        processSnapshotMessage cfg (startStorage s.installed s.unregistered)
          (message cfg index (.metadata m)) true = .ok (s', .success) := by
  have hon : processSnapshotMessageOn fs cfg s (message cfg index (.metadata m)) true =
      .ok ((processMetadataOn fs s m).1, answer (processMetadataOn fs s m).2) := by
    simp only [processSnapshotMessageOn, message, ne_eq, not_true_eq_false, or_self, if_false]
    rfl
  rw [hon, process_metadata]
  by_cases hfiles : m.files = []
  · simp [processMetadataOn, processMetadata, hfiles, answer]
  · have hstart : processMetadata (startStorage s.installed s.unregistered) m =
        createReceiver (startStorage s.installed s.unregistered) m := if_neg hfiles
    rw [hstart]
    rcases processMetadataOn_cases fs howned hfiles with
      ⟨hfs, hs, heq⟩ | ⟨hnot, hinstalled, heq⟩ | ⟨hnot, hinstalled, heq⟩
    · rw [heq]
      simp [answer, hfs, hs]
    · have hrefused : createReceiver (startStorage s.installed s.unregistered) m =
          (startStorage s.installed s.unregistered, some .alreadyRegistered) := if_pos hinstalled
      rw [heq, hrefused]
      simp [answer]
    · have hcreated : createReceiver (startStorage s.installed s.unregistered) m =
          (⟨s.installed, s.unregistered, AList.insert m.index ∅ ∅, some ⟨m, ∅⟩⟩, none) :=
        (if_neg hinstalled).trans (if_neg (AList.notMem_empty _))
      rw [heq, hcreated]
      exact (and_iff_right hnot).symm

theorem finishOn_eq {base : Storage} {files : FileName → Option Bytes}
    {validators : FileTag → Option ChunkValidator} (h : Receiving base m files validators s)
    (hmetadata : files .metadata = none) (index toID : Nat) :
    processFinishOn fs cfg s index toID = processFinishOn .durable cfg s index toID := by
  obtain ⟨r, folder, hr, rfl, -, hfolder, hfiles, -, -⟩ := h
  have hwrite : withMetadataOn fs cfg folder r.metadata =
      withMetadataOn .durable cfg folder r.metadata := by
    cases fs with
    | durable => rfl
    | volatile =>
      rw [withMetadataOn, withMetadataOn, Folder.withMetadata, hfiles, hmetadata]
      simp [writeAt]
  have hcommit : commitOn fs cfg s r index = commitOn .durable cfg s r index := by
    simp only [commitOn, hfolder, hwrite]
  simp only [processFinishOn, hr, hcommit]

theorem acceptsOn_iff {size : Nat} {snapshot : InstalledSnapshot} (howned : Owned s)
    (hsize : 0 < size) (hwf : WellFormed cfg snapshot) :
    AcceptsOn fs cfg s
        (sendSnapshotMessageLoop cfg.crc32 size cfg.clusterID cfg.localID snapshot) s' ↔
      ¬(fs = .volatile ∧ Stranded s) ∧ Accepts cfg (startStorage s.installed s.unregistered)
        (sendSnapshotMessageLoop cfg.crc32 size cfg.clusterID cfg.localID snapshot) s' := by
  have hfinish : ∀ {s₁ s₂}, processSnapshotMessage cfg (startStorage s.installed s.unregistered)
        (message cfg snapshot.metadata.index (.metadata snapshot.metadata)) true =
          .ok (s₁, .success) →
      Accepts cfg s₁ (chunkMessages cfg size snapshot) s₂ →
      processSnapshotMessageOn fs cfg s₂
          (message cfg snapshot.metadata.index (.finish cfg.localID)) true =
        processSnapshotMessage cfg s₂
          (message cfg snapshot.metadata.index (.finish cfg.localID)) true := by
    intro s₁ s₂ hmetadata hchunks
    obtain ⟨-, -, files, hR, hother, -⟩ := receiving_of_accepts hsize hwf rfl
      (accepts_cons.mpr ⟨s₁, hmetadata, hchunks⟩)
    rw [← processSnapshotMessageOn_durable]
    simp only [processSnapshotMessageOn, message,
      finishOn_eq hR (hother .metadata hwf.not_metadata)]
  rw [sendSnapshotMessageLoop_eq hwf, cons_append, acceptsOn_cons, accepts_cons]
  simp only [metadataOn_success_iff howned, chunkMessages, acceptsOn_chunks, accepts_append,
    accepts_cons, accepts_nil]
  constructor
  · rintro ⟨s₁, ⟨hnot, hmetadata⟩, s₂, hchunks, hlast⟩
    exact ⟨hnot, s₁, hmetadata, s₂, hchunks, s', (hfinish hmetadata hchunks).symm.trans hlast, rfl⟩
  · rintro ⟨hnot, s₁, hmetadata, s₂, hchunks, s₃, hlast, rfl⟩
    exact ⟨s₁, ⟨hnot, hmetadata⟩, s₂, hchunks, (hfinish hmetadata hchunks).trans hlast⟩

/-- After any history, a transfer is accepted and installed exactly if the snapshot is transferable
and, on the volatile file system, no earlier input has left the receiver without a folder. -/
theorem repeat_iff (fs : FileSystem) (cfg : ReceiverConfig)
    (installed : AList fun _ : Nat => InstalledSnapshot) (unregistered : List Nat)
    (history : List ReceivingInput) (s : Storage) (size : Nat) (snapshot : InstalledSnapshot)
    (hrun : run (execOn fs cfg) (startStorage installed unregistered) history = .ok s)
    (hsize : 0 < size) (hid : cfg.localID ≠ 0) (hwf : WellFormed cfg snapshot) :
    (∃ s' responses,
      deliverOn fs cfg s (sendSnapshotMessageLoop cfg.crc32 size cfg.clusterID cfg.localID
        snapshot) = .ok (s', responses) ∧ (∀ r ∈ responses, r = .success) ∧
      ∃ folder, s'.installed.lookup snapshot.metadata.index = some ⟨snapshot.metadata, folder⟩ ∧
        ∀ name, name ≠ .metadata → folder.lookup name =
          if name ∈ listed snapshot.metadata then snapshot.files.lookup name else none) ↔
    Transferable cfg size snapshot (startStorage s.installed s.unregistered) ∧
      (fs = .volatile → Throughout (execOn fs cfg) (fun s i => ¬Strands fs cfg s i)
        (startStorage installed unregistered) history) := by
  have howned := owned_run (owned_startStorage installed unregistered) hrun
  have hstranded : ¬(fs = .volatile ∧ Stranded s) ↔
      (fs = .volatile → Throughout (execOn fs cfg) (fun s i => ¬Strands fs cfg s i)
        (startStorage installed unregistered) history) := by
    rw [not_and]
    refine forall_congr' fun hfs => ?_
    subst hfs
    refine not_stranded_iff (owned_startStorage installed unregistered) ?_ hrun
    rintro ⟨i, hi, -⟩
    cases hi
  rw [← hstranded]
  constructor
  · rintro ⟨s', responses, hdeliver, hall, -⟩
    obtain ⟨hnot, haccepts⟩ := (acceptsOn_iff howned hsize hwf).mp ⟨responses, hdeliver, hall⟩
    exact ⟨transferable_of_accepts hsize hid hwf rfl haccepts, hnot⟩
  · rintro ⟨htransferable, hnot⟩
    obtain ⟨s', haccepts, hfiles⟩ := accepts_of_transferable hsize hid hwf rfl htransferable
    obtain ⟨responses, hdeliver, hall⟩ := (acceptsOn_iff howned hsize hwf).mpr ⟨hnot, haccepts⟩
    exact ⟨s', responses, hdeliver, hall, hfiles⟩

def interrupted : List ReceivingInput :=
  [.message (message ReceivingNode.exampleConfig 5 (.metadata ReceivingNode.exampleMetadata)) true,
    .message (message ReceivingNode.exampleConfig 3
      (.metadata { ReceivingNode.exampleMetadata with index := 3 })) true]

/-- The folder of the receiver is gone, and the volatile file system refuses the transfer. -/
theorem transfer_not_repeated :
    ∃ s, run (execOn .volatile ReceivingNode.exampleConfig)
        (startStorage (AList.insert 3 exampleSnapshot ∅) []) interrupted = .ok s ∧
      (5 ∉ s.installed ∧ 5 ∉ s.unregistered) ∧
      (deliverOn .volatile ReceivingNode.exampleConfig s
        (sendSnapshotMessageLoop ReceivingNode.exampleConfig.crc32 1 1 2 exampleSnapshot)).map
          (fun r => r.2.head?) = .ok (some (.failed .folderMissing)) := by
  refine ⟨_, rfl, ⟨?_, ?_⟩, rfl⟩
  · decide +kernel
  · decide +kernel

theorem transfer_repeated :
    ∃ s s' responses, run (execOn .durable ReceivingNode.exampleConfig)
        (startStorage (AList.insert 3 exampleSnapshot ∅) []) interrupted = .ok s ∧
      deliverOn .durable ReceivingNode.exampleConfig s
        (sendSnapshotMessageLoop ReceivingNode.exampleConfig.crc32 1 1 2 exampleSnapshot) =
          .ok (s', responses) ∧ (∀ r ∈ responses, r = .success) ∧
      ∃ folder, s'.installed.lookup 5 = some ⟨exampleSnapshot.metadata, folder⟩ ∧
        ∀ name, name ≠ .metadata → folder.lookup name =
          if name ∈ listed exampleSnapshot.metadata then exampleSnapshot.files.lookup name
            else none := by
  obtain ⟨s, hs⟩ : ∃ s, run (execOn .durable ReceivingNode.exampleConfig)
      (startStorage (AList.insert 3 exampleSnapshot ∅) []) interrupted = .ok s := ⟨_, rfl⟩
  have htransferable : Transferable ReceivingNode.exampleConfig 1 exampleSnapshot
      (startStorage s.installed s.unregistered) := by
    cases hs
    exact exampleSnapshot_transferable (by decide +kernel) (by decide +kernel) (by decide +kernel)
  obtain ⟨s', responses, hdeliver⟩ := (repeat_iff .durable ReceivingNode.exampleConfig
    (AList.insert 3 exampleSnapshot ∅) [] interrupted s 1 exampleSnapshot hs (by decide) (by decide)
    exampleSnapshot_wellFormed).mpr ⟨htransferable, nofun⟩
  exact ⟨s, s', responses, hs, hdeliver⟩

end Babuza.Transport
