import Babuza.Babuzawal.Frame

/-!
# Purging log files

`Manager.Purge` removes log files that a snapshot has made superfluous. It sorts the files by their
start index, while `ReadValidLogFiles` reads them by id and insists that the ids have no gap. After
an overwritten suffix a later file may start below an earlier one, and then the file that is removed
is not the oldest. The loop removes at most one file, always the first of the sorted ones.
-/

namespace Babuza.Babuzawal

open Lib Allocator Walbase List

/-- `sort.Sort` by the start index of what ranging over the map of files yields. Neither of them
fixes the order of files with the same start index. -/
structure SortByStart where
  sort : List LogFileDesc → List LogFileDesc
  perm : ∀ files, (sort files).Perm files
  sorted : ∀ files, (sort files).Pairwise fun a b => a.startLogIndex ≤ b.startLogIndex

def SortByStart.stable : SortByStart where
  sort := List.insertionSort fun a b => a.startLogIndex ≤ b.startLogIndex
  perm := perm_insertionSort _
  sorted := by
    have : Std.Total fun a b : LogFileDesc => a.startLogIndex ≤ b.startLogIndex :=
      ⟨fun a b => Nat.le_total _ _⟩
    have : IsTrans LogFileDesc fun a b => a.startLogIndex ≤ b.startLogIndex :=
      ⟨fun _ _ _ => Nat.le_trans⟩
    exact pairwise_insertionSort _

def Manager.files (m : Manager) : List LogFileDesc := m.filesDesc.entries.map Sigma.snd

/-- The index behind the loop over the sorted files. -/
def smaller (snapshotIndex : Nat) (r : List LogFileDesc) : Int :=
  match r.findIdx? fun f => snapshotIndex ≤ f.startLogIndex with
  | none => 0
  | some i => i - 1

namespace Wal

/-- `os.RemoveAll` of a log file. The file that the log has open stays there for its handle. -/
def removeAll (w : Wal) (dir : Directory) (desc : LogFileDesc) : Wal × Directory :=
  if w.currentLogFile.name = desc.getLogFileName then
    match dir.lookup desc.getLogFileName with
    | none => (w, dir)
    | some file =>
      let name : FileName := ⟨.unlinked, desc.id, desc.startLogIndex⟩
      ({ w with currentLogFile := { w.currentLogFile with name := name } },
        (dir.erase desc.getLogFileName).insert name file)
  else (w, dir.erase desc.getLogFileName)

def removeFile (w : Wal) (dir : Directory) (desc : LogFileDesc) : Wal × Directory :=
  let (w, dir) := w.removeAll dir desc
  ({ w with logMgr := { w.logMgr with filesDesc := w.logMgr.filesDesc.erase desc.id } }, dir)

/-- The inner loop of `Purge`. The file that is removed stays in front of the sorted ones. As the
outer loop runs only if the first file starts below the snapshot, the end of the list, where a
negative limit would make the code panic, is not reached. -/
def purgeRound (maxKeepLogFiles : Int) (snapshotIndex : Nat) (w : Wal) (dir : Directory) :
    List LogFileDesc → List LogFileDesc × Wal × Directory
  | [] => ([], w, dir)
  | f :: r =>
    if maxKeepLogFiles < (f :: r).length then
      if f.startLogIndex < snapshotIndex then (f :: r, w.removeFile dir f)
      else purgeRound maxKeepLogFiles snapshotIndex w dir r
    else (f :: r, w, dir)

/-- `Manager.Purge`, which the purger calls for the log. The limit, a `uint`, is converted to
`int`. -/
def purge (maxKeepLogFiles : UInt64) (order : SortByStart) (w : Wal) (dir : Directory)
    (snapshotIndex : Nat) : Wal × Directory :=
  let r := order.sort w.logMgr.files
  let round := purgeRound maxKeepLogFiles.toInt64.toInt snapshotIndex
  ((fun x => round x.2.1 x.2.2 x.1)^[(smaller snapshotIndex r).toNat] (r, w, dir)).2

end Wal

/-! ## What a purge does -/

/-- There are more files than are to be kept, at least two of them start below the snapshot and one
does not. -/
def Purges (maxKeepLogFiles : UInt64) (snapshotIndex : Nat) (files : List LogFileDesc) : Prop :=
  maxKeepLogFiles.toInt64.toInt < files.length ∧
    2 ≤ files.countP (fun f => f.startLogIndex < snapshotIndex) ∧
    ∃ f ∈ files, snapshotIndex ≤ f.startLogIndex

instance (maxKeepLogFiles : UInt64) (snapshotIndex : Nat) (files : List LogFileDesc) :
    Decidable (Purges maxKeepLogFiles snapshotIndex files) :=
  inferInstanceAs (Decidable (_ ∧ _ ∧ _))

variable {maxKeepLogFiles : UInt64} {snapshotIndex : Nat}

theorem purges_perm {files files' : List LogFileDesc} (h : files.Perm files') :
    Purges maxKeepLogFiles snapshotIndex files ↔ Purges maxKeepLogFiles snapshotIndex files' := by
  unfold Purges
  rw [h.length_eq, h.countP_eq]
  simp only [h.mem_iff]

variable {r : List LogFileDesc}

section

variable (hsorted : r.Pairwise fun a b => a.startLogIndex ≤ b.startLogIndex)
include hsorted

theorem findIdx?_of_sorted (hmem : ∃ f ∈ r, snapshotIndex ≤ f.startLogIndex) :
    r.findIdx? (fun f => snapshotIndex ≤ f.startLogIndex) =
      some (r.countP fun f => f.startLogIndex < snapshotIndex) := by
  induction r with
  | nil => simp at hmem
  | cons f r ih =>
    obtain ⟨hle, hsorted⟩ := pairwise_cons.mp hsorted
    rw [findIdx?_cons, countP_cons]
    by_cases hf : snapshotIndex ≤ f.startLogIndex
    · have hzero : r.countP (fun f => f.startLogIndex < snapshotIndex) = 0 :=
        countP_eq_zero.mpr fun g hg => by simpa using Nat.le_trans hf (hle g hg)
      simp [hf, hzero]
    · rw [ih hsorted ((or_exists_of_exists_mem_cons hmem).resolve_left hf)]
      simp [hf, Nat.lt_of_not_le hf]

theorem smaller_pos_iff :
    0 < (smaller snapshotIndex r).toNat ↔
      2 ≤ r.countP (fun f => f.startLogIndex < snapshotIndex) ∧
        ∃ f ∈ r, snapshotIndex ≤ f.startLogIndex := by
  unfold smaller
  by_cases hmem : ∃ f ∈ r, snapshotIndex ≤ f.startLogIndex
  · rw [findIdx?_of_sorted hsorted hmem]
    simp only [hmem, and_true]
    omega
  · rw [findIdx?_eq_none_iff.mpr (by simpa using hmem)]
    simp [hmem]

end

namespace Wal

variable {w : Wal} {dir : Directory} {f : LogFileDesc}

theorem erase_of_notMem {α : Type} {β : α → Type} [DecidableEq α] {s : AList β} {a : α}
    (h : a ∉ s) : s.erase a = s := by
  ext : 1
  exact kerase_of_notMem_keys h

theorem erase_twice {α : Type} {β : α → Type} [DecidableEq α] (s : AList β) (a : α) :
    (s.erase a).erase a = s.erase a :=
  erase_of_notMem fun h => (AList.mem_erase.mp h).1 rfl

theorem removeFile_twice (w : Wal) (dir : Directory) (f : LogFileDesc) :
    (w.removeFile dir f).1.removeFile (w.removeFile dir f).2 f = w.removeFile dir f := by
  unfold removeFile removeAll
  by_cases hname : w.currentLogFile.name = f.getLogFileName
  · cases hfile : dir.lookup f.getLogFileName with
    | none => simp [hname, hfile, erase_twice]
    | some file =>
      have hne : (⟨.unlinked, f.id, f.startLogIndex⟩ : FileName) ≠ f.getLogFileName :=
        fun h => nomatch congrArg FileName.kind h
      have hgone : f.getLogFileName ∉
          (dir.erase f.getLogFileName).insert ⟨.unlinked, f.id, f.startLogIndex⟩ file := by
        rw [AList.mem_insert, AList.mem_erase]
        rintro (h | h)
        · exact hne h.symm
        · exact h.1 rfl
      simp [hname, hne, erase_twice, erase_of_notMem hgone]
  · simp [hname, erase_twice]

theorem iterate_purgeRound {n : Nat} {keep : Int} (hn : 0 < n) (hkeep : keep < (f :: r).length)
    (hstart : f.startLogIndex < snapshotIndex) :
    (fun x => purgeRound keep snapshotIndex x.2.1 x.2.2 x.1)^[n] (f :: r, w, dir) =
      (f :: r, w.removeFile dir f) := by
  have hround : ∀ (w : Wal) (dir : Directory),
      purgeRound keep snapshotIndex w dir (f :: r) = (f :: r, w.removeFile dir f) := by
    intro w dir
    rw [purgeRound, if_pos hkeep, if_pos hstart]
  obtain ⟨n, rfl⟩ := Nat.exists_eq_succ_of_ne_zero (Nat.ne_of_gt hn)
  rw [Function.iterate_succ_apply]
  simp only [hround]
  apply Function.iterate_fixed
  simp only [hround, removeFile_twice]

theorem iterate_purgeRound_keep (n : Nat) {keep : Int} (hkeep : ¬ keep < r.length) :
    (fun x => purgeRound keep snapshotIndex x.2.1 x.2.2 x.1)^[n] (r, w, dir) = (r, w, dir) := by
  apply Function.iterate_fixed
  cases r with
  | nil => rfl
  | cons f r => simp only [purgeRound, if_neg hkeep]

theorem purge_of_purges (order : SortByStart) (dir : Directory)
    (h : Purges maxKeepLogFiles snapshotIndex w.logMgr.files) :
    ∃ f r, order.sort w.logMgr.files = f :: r ∧ f ∈ w.logMgr.files ∧
      f.startLogIndex < snapshotIndex ∧
      w.purge maxKeepLogFiles order dir snapshotIndex = w.removeFile dir f := by
  have hsorted := order.sorted w.logMgr.files
  have hperm := order.perm w.logMgr.files
  obtain ⟨hkeep, hcount, hmem⟩ := (purges_perm hperm).mpr h
  have hrounds := (smaller_pos_iff hsorted).mpr ⟨hcount, hmem⟩
  unfold purge
  cases hr : order.sort w.logMgr.files with
  | nil =>
    rw [hr, countP_nil] at hcount
    omega
  | cons f r =>
    rw [hr] at hsorted hperm hkeep hcount hrounds
    have hstart : f.startLogIndex < snapshotIndex := by
      obtain ⟨g, hg, hlt⟩ := countP_pos_iff.mp (Nat.lt_of_lt_of_le Nat.two_pos hcount)
      have hlt : g.startLogIndex < snapshotIndex := of_decide_eq_true hlt
      rcases mem_cons.mp hg with rfl | hg
      · exact hlt
      · exact Nat.lt_of_le_of_lt ((pairwise_cons.mp hsorted).1 g hg) hlt
    refine ⟨f, r, rfl, hperm.mem_iff.mp mem_cons_self, hstart, ?_⟩
    simp only [iterate_purgeRound hrounds hkeep hstart]

theorem purge_of_not_purges (order : SortByStart) (dir : Directory)
    (h : ¬ Purges maxKeepLogFiles snapshotIndex w.logMgr.files) :
    w.purge maxKeepLogFiles order dir snapshotIndex = (w, dir) := by
  rw [← purges_perm (order.perm w.logMgr.files)] at h
  unfold purge
  simp only
  by_cases hkeep : maxKeepLogFiles.toInt64.toInt < (order.sort w.logMgr.files).length
  · have hrounds : (smaller snapshotIndex (order.sort w.logMgr.files)).toNat = 0 :=
      Nat.eq_zero_of_not_pos fun hpos =>
        h ⟨hkeep, (smaller_pos_iff (order.sorted w.logMgr.files)).mp hpos⟩
    rw [hrounds]
    rfl
  · rw [iterate_purgeRound_keep _ hkeep]

end Wal

/-! ## A replay without the oldest file -/

variable {cfg : ManagerConfig} {p : Player}

variable {f : LogFileDesc} {id nextSeq : Nat} {m : Manager}

section Replay

variable {codecs : RaftCodecs} {pool : ByteSlicePool} {dir dir' : Directory} {gone : FileName}

structure Lacks (gone : FileName) (dir dir' : Directory) : Prop where
  kind_eq : gone.kind = .log
  lookup_ne : ∀ n, n ≠ gone → dir'.lookup n = dir.lookup n

theorem Lacks.insert (h : Lacks gone dir dir') (name : FileName) (file : Bytes) :
    Lacks gone (dir.insert name file) (dir'.insert name file) := by
  refine ⟨h.kind_eq, fun n hn => ?_⟩
  by_cases hname : n = name
  · rw [hname, AList.lookup_insert, AList.lookup_insert]
  · rw [AList.lookup_insert_ne hname, AList.lookup_insert_ne hname, h.lookup_ne n hn]

theorem replayFiles_lacks {files : List LogFileDesc} (h : Lacks gone dir dir')
    (hfiles : ∀ f ∈ files, f.getLogFileName ≠ gone) (p : Parser) :
    Player.replayFiles codecs pool snapshotIndex dir' p files =
      Player.replayFiles codecs pool snapshotIndex dir p files := by
  induction files generalizing p with
  | nil => rfl
  | cons f files ih =>
    have hf : getLogFileReader dir' f = getLogFileReader dir f := by
      unfold getLogFileReader
      rw [h.lookup_ne _ (hfiles f mem_cons_self)]
    have hrest := ih fun g hg => hfiles g (mem_cons_of_mem f hg)
    unfold Player.replayFiles
    rw [hf]
    cases getLogFileReader dir f with
    | error e => rfl
    | ok stream =>
      simp only [hrest]

theorem repairLogFile_lacks (h : Lacks gone dir dir') (hf : f.getLogFileName ≠ gone)
    (offset : Nat) :
    (∃ e, repairLogFile dir f offset = .error e ∧ repairLogFile dir' f offset = .error e) ∨
      ∃ dir₁ dir₁', repairLogFile dir f offset = .ok dir₁ ∧
        repairLogFile dir' f offset = .ok dir₁' ∧ Lacks gone dir₁ dir₁' := by
  unfold repairLogFile
  rw [h.lookup_ne _ hf]
  cases dir.lookup f.getLogFileName with
  | none => exact .inl ⟨_, rfl, rfl⟩
  | some file =>
    simp only
    cases openLogFileHandle file with
    | error e => exact .inl ⟨e, rfl, rfl⟩
    | ok _ => exact .inr ⟨_, _, rfl, rfl, (h.insert _ _).insert _ _⟩

theorem repairLogFile_mem {dir₁ : Directory} {offset : Nat}
    (h : repairLogFile dir f offset = .ok dir₁) (n : FileName) (hn : n.kind ≠ .broken) :
    n ∈ dir₁ ↔ n ∈ dir := by
  unfold repairLogFile at h
  split at h
  · cases h
  next file hfile =>
    obtain ⟨_, -, h⟩ := bind_eq_ok.mp h
    cases h
    rw [AList.mem_insert, AList.mem_insert]
    constructor
    · rintro (rfl | rfl | hmem)
      · rw [← AList.lookup_isSome, hfile]
        rfl
      · exact absurd rfl hn
      · exact hmem
    · exact fun hmem => .inr (.inr hmem)

theorem replay_mem (p : Player) (dir : Directory) (r : ReplayResult) (repair : Bool) (n : FileName)
    (hn : n.kind ≠ .broken) : n ∈ (p.replay codecs dir r repair).1 ↔ n ∈ dir := by
  unfold Player.replay
  cases p.replayOnce codecs dir r with
  | mk result err =>
    cases err with
    | none => rfl
    | some x =>
      obtain ⟨desc, e⟩ := x
      simp only
      split
      · cases p.logFiles.getLast? with
        | none => rfl
        | some last =>
          simp only
          split
          · rfl
          · cases hrepair : repairLogFile dir last result.lastValidLogOffset with
            | error e => rfl
            | ok dir₁ => exact repairLogFile_mem hrepair n hn
      · rfl

theorem replayOnce_lacks (h : Lacks gone dir dir')
    (hfiles : ∀ f ∈ p.logFiles, f.getLogFileName ≠ gone) (r : ReplayResult) :
    p.replayOnce codecs dir' r = p.replayOnce codecs dir r := by
  unfold Player.replayOnce
  rw [replayFiles_lacks h hfiles]

theorem replay_lacks (h : Lacks gone dir dir') (hfiles : ∀ f ∈ p.logFiles, f.getLogFileName ≠ gone)
    (r : ReplayResult) (repair : Bool) :
    (p.replay codecs dir' r repair).2 = (p.replay codecs dir r repair).2 ∧
      Lacks gone (p.replay codecs dir r repair).1 (p.replay codecs dir' r repair).1 := by
  unfold Player.replay
  rw [replayOnce_lacks h hfiles]
  cases p.replayOnce codecs dir r with
  | mk result err =>
    cases err with
    | none => exact ⟨rfl, h⟩
    | some x =>
      obtain ⟨desc, e⟩ := x
      simp only
      split
      · cases hlast : p.logFiles.getLast? with
        | none => exact ⟨rfl, h⟩
        | some last =>
          have hname := hfiles last (mem_of_getLast? hlast)
          simp only
          split
          · exact ⟨rfl, h⟩
          · rcases repairLogFile_lacks h hname result.lastValidLogOffset with ⟨e, he, he'⟩ | ⟨dir₁,
              dir₁', hdir, hdir', h₁⟩
            · rw [he, he']
              exact ⟨rfl, h⟩
            · rw [hdir, hdir']
              refine ⟨?_, h₁⟩
              simp only [replayOnce_lacks h₁ hfiles]
      · exact ⟨rfl, h⟩

theorem validLogFiles_append {files more found : List LogFileDesc}
    (h : ∃ f ∈ files, f.startLogIndex ≤ snapshotIndex) :
    validLogFiles snapshotIndex (files ++ more) nextSeq found =
      validLogFiles snapshotIndex files nextSeq found := by
  induction files generalizing nextSeq found with
  | nil => simp at h
  | cons f files ih =>
    rw [cons_append, validLogFiles, validLogFiles]
    split
    · rfl
    · split
      · rfl
      next hstart => exact ih ((or_exists_of_exists_mem_cons h).resolve_left hstart)

theorem validLogFiles_subset {files found read : List LogFileDesc}
    (h : validLogFiles snapshotIndex files nextSeq found = .ok read) : read ⊆ files ++ found := by
  induction files generalizing nextSeq found with
  | nil =>
    cases h
    exact Subset.refl _
  | cons g files ih =>
    rw [validLogFiles] at h
    split at h
    · cases h
    · split at h
      · cases h
        exact cons_subset_cons g (subset_append_right files found)
      · exact Subset.trans (ih h) perm_middle.subset

theorem LogFileDesc.getLogFileName_kind_ne (desc : LogFileDesc) :
    desc.getLogFileName.kind ≠ .broken := by
  exact nofun

variable {desc : LogFileDesc}

theorem mem_parse_iff :
    desc ∈ dir.keys.filterMap parseLogFileName ↔
      desc.getLogFileName ∈ dir ∧ desc.isTempFile = false := by
  rw [mem_filterMap]
  constructor
  · rintro ⟨name, hname, hparse⟩
    obtain ⟨rfl, htemp⟩ := parseLogFileName_eq_some.mp hparse
    exact ⟨AList.mem_keys.mpr hname, htemp⟩
  · rintro ⟨hname, htemp⟩
    exact ⟨_, AList.mem_keys.mp hname, parseLogFileName_eq_some.mpr ⟨rfl, htemp⟩⟩

/-- `dir` has the log files `oldest :: rest`, and `dir'` is the same without the oldest one. -/
structure OldestGone (oldest : LogFileDesc) (rest : List LogFileDesc) (dir dir' : Directory) :
    Prop where
  sorted : (oldest :: rest).Pairwise fun a b => a.id < b.id
  mem : ∀ desc, desc ∈ dir.keys.filterMap parseLogFileName ↔ desc ∈ oldest :: rest
  lacks : Lacks oldest.getLogFileName dir dir'
  gone : oldest.getLogFileName ∉ dir'

namespace OldestGone

variable {oldest : LogFileDesc} {rest : List LogFileDesc}

section

variable (h : OldestGone oldest rest dir dir')
include h

theorem name_ne (hdesc : desc ∈ rest) : desc.getLogFileName ≠ oldest.getLogFileName := by
  intro heq
  have hlt := (pairwise_cons.mp h.sorted).1 desc hdesc
  exact Nat.ne_of_gt hlt (congrArg FileName.id heq)

theorem logFiles_eq : logFiles dir = oldest :: rest :=
  logFiles_eq_of_mem h.sorted h.mem

theorem mem_gone (desc : LogFileDesc) :
    desc ∈ dir'.keys.filterMap parseLogFileName ↔ desc ∈ rest := by
  have hmem := h.mem desc
  rw [mem_parse_iff, mem_cons] at hmem
  rw [mem_parse_iff]
  constructor
  · rintro ⟨hname, htemp⟩
    have hne : desc.getLogFileName ≠ oldest.getLogFileName := fun heq => h.gone (heq ▸ hname)
    rw [← AList.lookup_isSome, h.lacks.lookup_ne _ hne, AList.lookup_isSome] at hname
    rcases hmem.mp ⟨hname, htemp⟩ with rfl | hrest
    · exact absurd rfl hne
    · exact hrest
  · intro hrest
    obtain ⟨hname, htemp⟩ := hmem.mpr (.inr hrest)
    rw [← AList.lookup_isSome, h.lacks.lookup_ne _ (h.name_ne hrest), AList.lookup_isSome]
    exact ⟨hname, htemp⟩

theorem logFiles_gone : logFiles dir' = rest :=
  logFiles_eq_of_mem (pairwise_cons.mp h.sorted).2 h.mem_gone

theorem readValidLogFiles_eq (hlow : ∃ f ∈ rest, f.startLogIndex ≤ snapshotIndex) :
    readValidLogFiles dir' snapshotIndex = readValidLogFiles dir snapshotIndex := by
  unfold readValidLogFiles
  rw [h.logFiles_eq, h.logFiles_gone, reverse_cons]
  refine (validLogFiles_append ?_).symm
  obtain ⟨f, hf, hle⟩ := hlow
  exact ⟨f, mem_reverse.mpr hf, hle⟩

theorem mem_rest {read : List LogFileDesc}
    (hread : readValidLogFiles dir' snapshotIndex = .ok read) : ∀ f ∈ read, f ∈ rest := by
  intro f hf
  unfold readValidLogFiles at hread
  rw [h.logFiles_gone] at hread
  simpa using validLogFiles_subset hread hf

end

theorem replay (codecs : RaftCodecs) (h : OldestGone oldest rest dir dir')
    (hfiles : ∀ f ∈ p.logFiles, f ∈ rest) (r : ReplayResult) (repair : Bool) :
    (p.replay codecs dir' r repair).2 = (p.replay codecs dir r repair).2 ∧
      OldestGone oldest rest (p.replay codecs dir r repair).1
        (p.replay codecs dir' r repair).1 := by
  have hnames : ∀ f ∈ p.logFiles, f.getLogFileName ≠ oldest.getLogFileName :=
    fun f hf => h.name_ne (hfiles f hf)
  refine ⟨(replay_lacks h.lacks hnames r repair).1, h.sorted, fun desc => ?_,
    (replay_lacks h.lacks hnames r repair).2, ?_⟩
  · rw [mem_parse_iff, replay_mem p dir r repair _ desc.getLogFileName_kind_ne, ← mem_parse_iff]
    exact h.mem desc
  · rw [replay_mem p dir' r repair _ oldest.getLogFileName_kind_ne]
    exact h.gone

end OldestGone

theorem lookup_foldl_insert {files : List LogFileDesc} {m : AList fun _ : Nat => LogFileDesc}
    (h : (files.foldl (fun m f => m.insert f.id f) m).lookup id = some desc) :
    desc.id = id ∧ desc ∈ files ∨ m.lookup id = some desc := by
  induction files generalizing m with
  | nil => exact .inr h
  | cons f files ih =>
    rcases ih h with ⟨hid, hmem⟩ | h
    · exact .inl ⟨hid, mem_cons_of_mem f hmem⟩
    · by_cases hid : id = f.id
      · rw [hid, AList.lookup_insert] at h
        cases h
        exact .inl ⟨hid.symm, mem_cons_self⟩
      · rw [AList.lookup_insert_ne hid] at h
        exact .inr h

namespace OldestGone

variable {oldest : LogFileDesc} {rest : List LogFileDesc}

section

variable (h : OldestGone oldest rest dir dir')
include h

section

variable (hscan : Manager.newManagerWithScan cfg dir' snapshotIndex pool = .ok m)
include hscan

theorem mem_rest_of_scan (hdesc : m.filesDesc.lookup id = some desc) : desc ∈ rest := by
  obtain ⟨files, hfiles, hscan⟩ := bind_eq_ok.mp hscan
  split at hscan
  · cases hscan
  · cases hscan
    rcases lookup_foldl_insert hdesc with ⟨-, hmem⟩ | hdesc
    · exact h.mem_rest hfiles desc hmem
    · cases hdesc

theorem openWal_eq (result : ReplayResult) : openWal m dir' result = openWal m dir result := by
  have hopen : ∀ id seekTo crc, m.openLogFile dir' id seekTo crc =
      m.openLogFile dir id seekTo crc := by
    intro id seekTo crc
    unfold Manager.openLogFile
    cases hdesc : m.filesDesc.lookup id with
    | none => rfl
    | some desc =>
      simp only
      rw [h.lacks.lookup_ne _ (h.name_ne (h.mem_rest_of_scan hscan hdesc))]
  unfold openWal
  rw [hopen]

end

theorem newManagerWithScan_eq (hlow : ∃ f ∈ rest, f.startLogIndex ≤ snapshotIndex)
    (cfg : ManagerConfig) :
    Manager.newManagerWithScan cfg dir snapshotIndex pool =
      Manager.newManagerWithScan cfg dir' snapshotIndex pool := by
  unfold Manager.newManagerWithScan
  rw [h.readValidLogFiles_eq hlow]

theorem replayWal_eq (options : Options) {snapshot : Option Snapshot}
    (hlow : ∃ f ∈ rest, f.startLogIndex ≤ startIndex snapshot) :
    (replayWal codecs dir' snapshot options pool).map (fun x => (x.1, x.2.1)) =
      (replayWal codecs dir snapshot options pool).map (fun x => (x.1, x.2.1)) := by
  have hread := h.readValidLogFiles_eq hlow
  rw [startIndex] at hread hlow
  unfold replayWal Player.create
  simp only
  rw [hread]
  cases hfiles : readValidLogFiles dir ((snapshot.map Snapshot.toWal).getD .empty).index with
  | error e => rfl
  | ok files =>
    rw [← hread] at hfiles
    simp only [ok_bind, pure_bind]
    generalize hplayer : Player.mk files _ pool = p
    have hp : ∀ f ∈ p.logFiles, f ∈ rest := by
      rw [← hplayer]
      exact h.mem_rest hfiles
    obtain ⟨heq, hgone⟩ := h.replay codecs hp (.newReplayResult options.newCollection) true
    generalize Player.replay codecs p dir' _ true = out' at heq hgone ⊢
    generalize Player.replay codecs p dir _ true = out at heq hgone ⊢
    obtain ⟨dir₁', result', err'⟩ := out'
    obtain ⟨dir₁, result, err⟩ := out
    cases heq
    simp only
    split
    on_goal 3 => rfl
    all_goals
      rw [hgone.newManagerWithScan_eq hlow]
      cases hm : Manager.newManagerWithScan options.managerConfig dir₁' _ pool with
      | error e => rfl
      | ok m =>
        simp only [ok_bind]
        rw [hgone.openWal_eq hm]
        cases openWal m dir₁ result' <;> rfl

end

end OldestGone

end Replay

/-! ## Which files there are -/

/-- The log files are `files`: their ids have no gap and end with the current file, the directory
has no others and the manager knows them all. -/
structure Tidy (w : Wal) (dir : Directory) (files : List LogFileDesc) : Prop where
  ids : ∃ base, Consecutive LogFileDesc.id base files ∧ base + files.length = w.logMgr.nextLogId
  mem : ∀ desc, desc ∈ dir.keys.filterMap parseLogFileName ↔ desc ∈ files
  known : w.logMgr.filesDesc.entries.Perm (files.map fun f => ⟨f.id, f⟩)
  current : ∃ cur, files.getLast? = some cur ∧ w.currentLogFile.name = cur.getLogFileName

theorem files_perm_of_known {w : Wal} {files : List LogFileDesc}
    (h : w.logMgr.filesDesc.entries.Perm (files.map fun f => ⟨f.id, f⟩)) :
    w.logMgr.files.Perm files := by
  have hperm := h.map Sigma.snd
  rw [map_map] at hperm
  exact hperm.trans (List.Perm.of_eq (map_id files))

namespace Tidy

variable {codecs : RaftCodecs} {w w' : Wal} {dir dir' : Directory} {files : List LogFileDesc}

section

variable (h : Tidy w dir files)
include h

theorem sorted : files.Pairwise fun a b => a.id < b.id := by
  obtain ⟨base, hids, -⟩ := h.ids
  exact hids.pairwise_lt

theorem files_perm : w.logMgr.files.Perm files :=
  files_perm_of_known h.known

theorem sameFiles (hsame : SameFiles w dir w' dir') :
    Tidy w' dir' files where
  ids := by
    rw [hsame.logMgr_eq]
    exact h.ids
  mem := by
    intro desc
    rw [mem_parse_iff, hsame.mem_iff, ← mem_parse_iff]
    exact h.mem desc
  known := by
    rw [hsame.logMgr_eq]
    exact h.known
  current := by
    rw [hsame.name_eq]
    exact h.current

theorem id_lt (hf : f ∈ files) : f.id < w.logMgr.nextLogId := by
  obtain ⟨base, hids, hnext⟩ := h.ids
  exact Nat.lt_of_lt_of_eq (hids.index_lt hf) hnext

theorem cycled (hcycle : Wal.Cycled w dir w' dir') :
    Tidy w' dir' (files ++ [w.nextDesc]) where
  ids := by
    obtain ⟨base, hids, hnext⟩ := h.ids
    refine ⟨base, consecutive_append.mpr ⟨hids, consecutive_cons.mpr ⟨hnext.symm, consecutive_nil⟩⟩,
      ?_⟩
    rw [length_append, hcycle.nextLogId_eq, ← hnext]
    rfl
  mem := by
    intro desc
    rw [mem_parse_iff, hcycle.mem_iff, List.mem_append, ← h.mem, mem_parse_iff, mem_singleton]
    have htemp : desc.getLogFileName ≠ w.nextDesc.getTempLogFileName :=
      fun heq => nomatch congrArg FileName.kind heq
    obtain ⟨id, start, temp⟩ := desc
    simp only [LogFileDesc.getLogFileName, Wal.nextDesc, FileName.mk.injEq, LogFileDesc.mk.injEq,
      true_and] at htemp ⊢
    tauto
  known := by
    have hnew : w.nextDesc.id ∉ w.logMgr.filesDesc := by
      intro hmem
      have hkeys := (h.known.map Sigma.fst).mem_iff.mp (AList.mem_keys.mp hmem)
      rw [map_map] at hkeys
      obtain ⟨f, hf, hid⟩ := mem_map.mp hkeys
      exact Nat.ne_of_lt (h.id_lt hf) hid
    rw [hcycle.filesDesc_eq, AList.entries_insert_of_notMem hnew, map_append]
    exact (h.known.cons _).trans (perm_append_singleton _ _).symm
  current := ⟨w.nextDesc, getLast?_concat, hcycle.name_eq⟩

theorem exec {op : WalOp} (hexec : op.exec codecs (w, dir) = .ok (w', dir')) :
    ∃ files', Tidy w' dir' files' := by
  rcases WalOp.exec_files hexec with hsame | ⟨w₁, dir₁, hsame, hcycle⟩
  · exact ⟨files, h.sameFiles hsame⟩
  · exact ⟨_, (h.sameFiles hsame).cycled hcycle⟩

end

end Tidy

variable {pool : ByteSlicePool} {codecs : RaftCodecs} {dir : Directory} {w : Wal} {metadata : Bytes}

theorem createWal_tidy (h : createWal codecs metadata (.newManager cfg pool) ∅ = .ok (w, dir)) :
    Tidy w dir [⟨0, 0, false⟩] := by
  obtain ⟨⟨l₀, m₀, dir₀⟩, hcreate, h⟩ := bind_eq_ok.mp h
  obtain ⟨⟨l₁, dir₁⟩, hcrc, h⟩ := bind_eq_ok.mp h
  obtain ⟨⟨l₂, dir₂⟩, hmetadata, h⟩ := bind_eq_ok.mp h
  obtain ⟨⟨l₃, dir₃⟩, hsnapshot, h⟩ := bind_eq_ok.mp h
  obtain ⟨⟨l₄, dir₄⟩, hsync, h⟩ := bind_eq_ok.mp h
  obtain ⟨⟨m₁, dir₅⟩, hfinalize, h⟩ := bind_eq_ok.mp h
  obtain ⟨cur, hopen, h⟩ := bind_eq_ok.mp h
  cases h
  obtain ⟨-, -, rfl, hmem₀⟩ := Wal.createNextTempLogFile_ok hcreate
  obtain ⟨-, hmem₁⟩ := LogFile.encode_keeps hcrc
  obtain ⟨-, hmem₂⟩ := LogFile.encode_keeps hmetadata
  obtain ⟨-, hmem₃⟩ := LogFile.encode_keeps hsnapshot
  obtain ⟨-, hmem₄⟩ := LogFile.withFile_keeps hsync
  obtain ⟨rfl, hmem₅⟩ := Wal.finalizeTempLogFile_ok (AList.lookup_insert _) hfinalize
  refine ⟨⟨0, rfl, rfl⟩, fun desc => ?_, ?_,
    ⟨_, rfl, Wal.openLogFile_name (AList.lookup_insert _) hopen⟩⟩
  · rw [mem_parse_iff, hmem₅, hmem₄, hmem₃, hmem₂, hmem₁, hmem₀, mem_singleton]
    obtain ⟨id, start, temp⟩ := desc
    simp [LogFileDesc.getLogFileName]
    tauto
  · exact List.Perm.refl _

/-! ## Runs with purges -/

/-- What happens to a log file by file: the operations that write to it, and the purger. -/
inductive PurgeOp
  | write (op : WalOp)
  | purge (order : SortByStart) (snapshotIndex : Nat)

/-- The ids of the log files have no gap and end with the file that the log writes to. -/
def Contiguous (w : Wal) (dir : Directory) : Prop :=
  ∃ base, Consecutive LogFileDesc.id base (logFiles dir) ∧
    base + (logFiles dir).length = w.currentLogFile.name.id + 1

namespace PurgeOp

variable (codecs : RaftCodecs) (options : Options) (pool : ByteSlicePool) (maxKeepLogFiles : UInt64)

def exec (s : Wal × Directory) : PurgeOp → Except WalError (Wal × Directory)
  | write op => op.exec codecs s
  | purge order snapshotIndex => .ok (s.1.purge maxKeepLogFiles order s.2 snapshotIndex)

/-- After a purge the files have no gap, and `ReplayWal` from the snapshot returns what it would
have returned before. -/
def Safe (s : Wal × Directory) : PurgeOp → Prop
  | write _ => True
  | purge order snapshotIndex =>
    let s' := s.1.purge maxKeepLogFiles order s.2 snapshotIndex
    Contiguous s'.1 s'.2 ∧ ∀ snapshot : Snapshot, snapshot.metadata.index = snapshotIndex →
      (replayWal codecs s'.2 (some snapshot) options pool).map (fun x => (x.1, x.2.1)) =
        (replayWal codecs s.2 (some snapshot) options pool).map (fun x => (x.1, x.2.1))

/-- If there is a file to remove, the one that starts lowest is the oldest. -/
def Oldest (s : Wal × Directory) : PurgeOp → Prop
  | write _ => True
  | purge order snapshotIndex =>
    Purges maxKeepLogFiles snapshotIndex s.1.logMgr.files →
      ∀ f ∈ (order.sort s.1.logMgr.files).head?, ∀ g ∈ s.1.logMgr.files, f.id ≤ g.id

instance (s : Wal × Directory) : (op : PurgeOp) → Decidable (op.Oldest maxKeepLogFiles s)
  | write _ => .isTrue trivial
  | purge _ _ => inferInstanceAs (Decidable (_ → ∀ f ∈ _, ∀ g ∈ _, _ ≤ _))

end PurgeOp

theorem removeFile_mem (w : Wal) (dir : Directory) (f desc : LogFileDesc) :
    desc.getLogFileName ∈ (w.removeFile dir f).2 ↔
      desc.getLogFileName ≠ f.getLogFileName ∧ desc.getLogFileName ∈ dir := by
  change desc.getLogFileName ∈ (w.removeAll dir f).2 ↔ _
  unfold Wal.removeAll
  split
  · cases hfile : dir.lookup f.getLogFileName with
    | none =>
      have hgone : f.getLogFileName ∉ dir := by
        rw [← AList.lookup_isSome, hfile]
        exact Bool.false_ne_true
      exact ⟨fun h => ⟨fun heq => hgone (heq ▸ h), h⟩, And.right⟩
    | some file =>
      have hne : desc.getLogFileName ≠ ⟨.unlinked, f.id, f.startLogIndex⟩ :=
        fun h => nomatch congrArg FileName.kind h
      simp only [AList.mem_insert, AList.mem_erase, hne, false_or]
  · exact AList.mem_erase

theorem removeFile_filesDesc (w : Wal) (dir : Directory) (f : LogFileDesc) :
    (w.removeFile dir f).1.logMgr.filesDesc = w.logMgr.filesDesc.erase f.id := by
  change (w.removeAll dir f).1.logMgr.filesDesc.erase f.id = _
  unfold Wal.removeAll
  split
  · cases dir.lookup f.getLogFileName <;> rfl
  · rfl

theorem removeFile_name_id (w : Wal) (dir : Directory) (f : LogFileDesc) :
    (w.removeFile dir f).1.currentLogFile.name.id = w.currentLogFile.name.id := by
  change (w.removeAll dir f).1.currentLogFile.name.id = _
  unfold Wal.removeAll
  split
  next hname =>
    cases dir.lookup f.getLogFileName with
    | none => rfl
    | some file => exact (congrArg FileName.id hname).symm
  · rfl

namespace Tidy

variable {files : List LogFileDesc}

section

variable (h : Tidy w dir files)
include h

theorem nodup : files.Nodup :=
  h.sorted.imp fun hlt heq => Nat.ne_of_lt hlt (congrArg _ heq)

theorem temp_eq (hf : f ∈ files) : f.isTempFile = false :=
  (mem_parse_iff.mp ((h.mem f).mpr hf)).2

theorem contiguous : Contiguous w dir := by
  obtain ⟨base, hids, hnext⟩ := h.ids
  obtain ⟨cur, hlast, hname⟩ := h.current
  unfold Contiguous
  rw [logFiles_eq_of_mem h.sorted h.mem, hname]
  refine ⟨base, hids, ?_⟩
  have hne : files ≠ [] := by
    rintro rfl
    cases hlast
  have hcur : files.getLast hne = cur :=
    Option.some.inj ((getLast?_eq_some_getLast hne).symm.trans hlast)
  have hid := hids.getLast hne
  rw [hcur] at hid
  exact hid.symm

theorem logFiles_removeFile (hf : f ∈ files) : logFiles (w.removeFile dir f).2 = files.erase f := by
  refine logFiles_eq_of_mem (h.sorted.sublist erase_sublist) fun desc => ?_
  rw [mem_parse_iff, removeFile_mem, h.nodup.mem_erase_iff, ← h.mem, mem_parse_iff]
  have htemp := h.temp_eq hf
  obtain ⟨id, start, temp⟩ := f
  obtain ⟨id', start', temp'⟩ := desc
  subst htemp
  simp only [LogFileDesc.getLogFileName, ne_eq, FileName.mk.injEq, LogFileDesc.mk.injEq, true_and]
  tauto

theorem oldest_of_contiguous (hf : f ∈ files)
    (hcontiguous : Contiguous (w.removeFile dir f).1 (w.removeFile dir f).2) :
    ∃ rest, files = f :: rest := by
  obtain ⟨base, hids, hend⟩ := hcontiguous
  obtain ⟨base₀, hids₀, hend₀⟩ := h.contiguous
  rw [h.logFiles_removeFile hf] at hids hend
  rw [logFiles_eq_of_mem h.sorted h.mem] at hids₀ hend₀
  rw [removeFile_name_id, ← hend₀] at hend
  -- one file is missing, so the ids start one higher
  have hlength := length_erase_add_one hf
  cases files with
  | nil => cases hf
  | cons g rest =>
    by_cases hg : g = f
    · exact ⟨rest, by rw [hg]⟩
    · have hmem : g ∈ (g :: rest).erase f := h.nodup.mem_erase_iff.mpr ⟨hg, mem_cons_self⟩
      have hle := hids.le_index hmem
      have hid := (consecutive_cons.mp hids₀).1
      omega

end

variable {rest : List LogFileDesc}

theorem removeFile_eq (h : Tidy w dir (f :: rest)) (hne : rest ≠ []) :
    w.removeFile dir f =
      ({ w with logMgr := { w.logMgr with filesDesc := w.logMgr.filesDesc.erase f.id } },
        dir.erase f.getLogFileName) := by
  obtain ⟨cur, hlast, hname⟩ := h.current
  have hcur : cur ∈ rest := by
    rw [getLast?_cons, getLast?_eq_some_getLast hne] at hlast
    cases hlast
    exact getLast_mem hne
  have hother : w.currentLogFile.name ≠ f.getLogFileName := by
    rw [hname]
    intro heq
    have hlt := (pairwise_cons.mp h.sorted).1 cur hcur
    exact Nat.ne_of_gt hlt (congrArg FileName.id heq)
  unfold Wal.removeFile Wal.removeAll
  rw [if_neg hother]

theorem removeFile_gone (h : Tidy w dir (f :: rest)) (hne : rest ≠ []) :
    OldestGone f rest dir (w.removeFile dir f).2 := by
  rw [h.removeFile_eq hne]
  exact ⟨h.sorted, h.mem, ⟨rfl, fun n hn => AList.lookup_erase_ne hn⟩,
    fun hmem => (AList.mem_erase.mp hmem).1 rfl⟩

theorem removeFile_tidy (h : Tidy w dir (f :: rest)) (hne : rest ≠ []) :
    Tidy (w.removeFile dir f).1 (w.removeFile dir f).2 rest where
  ids := by
    obtain ⟨base, hids, hnext⟩ := h.ids
    rw [h.removeFile_eq hne]
    refine ⟨base + 1, (consecutive_cons.mp hids).2, ?_⟩
    rw [← hnext, length_cons]
    omega
  mem := (h.removeFile_gone hne).mem_gone
  known := by
    rw [h.removeFile_eq hne]
    have hperm := List.Perm.kerase w.logMgr.filesDesc.nodupKeys h.known (a := f.id)
    rwa [map_cons, kerase_cons_eq (by rfl)] at hperm
  current := by
    obtain ⟨cur, hlast, hname⟩ := h.current
    rw [h.removeFile_eq hne]
    refine ⟨cur, ?_, hname⟩
    rwa [← getLast?_cons_of_ne_nil hne]

theorem exists_low_of_purges (h : Purges maxKeepLogFiles snapshotIndex (f :: rest)) :
    ∃ g ∈ rest, g.startLogIndex < snapshotIndex := by
  have hcount := h.2.1
  rw [countP_cons] at hcount
  have hpos : 0 < rest.countP fun f => decide (f.startLogIndex < snapshotIndex) := by
    split at hcount <;> omega
  obtain ⟨g, hg, hlow⟩ := countP_pos_iff.mp hpos
  exact ⟨g, hg, of_decide_eq_true hlow⟩

section

variable (h : Tidy w dir files)
include h

theorem eq_cons_of_le (hf : f ∈ files) (hle : ∀ g ∈ files, f.id ≤ g.id) :
    ∃ rest, files = f :: rest := by
  cases files with
  | nil => cases hf
  | cons g rest =>
    rcases mem_cons.mp hf with rfl | hrest
    · exact ⟨rest, rfl⟩
    · have hlt := (pairwise_cons.mp h.sorted).1 f hrest
      have := hle g mem_cons_self
      omega

theorem purge_of_oldest {order : SortByStart}
    (holdest : (PurgeOp.purge order snapshotIndex).Oldest maxKeepLogFiles (w, dir))
    (hpurges : Purges maxKeepLogFiles snapshotIndex w.logMgr.files) :
    ∃ f rest, rest ≠ [] ∧ files = f :: rest ∧ (∃ g ∈ rest, g.startLogIndex < snapshotIndex) ∧
      w.purge maxKeepLogFiles order dir snapshotIndex = w.removeFile dir f := by
  obtain ⟨f, r, hsort, hf, -, hpurge⟩ := Wal.purge_of_purges order dir hpurges
  have hhead : f ∈ (order.sort w.logMgr.files).head? := by
    rw [hsort]
    rfl
  obtain ⟨rest, rfl⟩ := h.eq_cons_of_le (h.files_perm.mem_iff.mp hf) fun g hg =>
    holdest hpurges f hhead g (h.files_perm.mem_iff.mpr hg)
  obtain ⟨g, hg, hlow⟩ := exists_low_of_purges ((purges_perm h.files_perm).mp hpurges)
  exact ⟨f, rest, ne_nil_of_mem hg, rfl, ⟨g, hg, hlow⟩, hpurge⟩

theorem safe_iff (codecs : RaftCodecs) (options : Options) (pool : ByteSlicePool)
    (maxKeepLogFiles : UInt64) (op : PurgeOp) :
    op.Safe codecs options pool maxKeepLogFiles (w, dir) ↔ op.Oldest maxKeepLogFiles (w, dir) := by
  cases op with
  | write op => exact Iff.rfl
  | purge order snapshotIndex =>
    unfold PurgeOp.Safe PurgeOp.Oldest
    simp only
    by_cases hpurges : Purges maxKeepLogFiles snapshotIndex w.logMgr.files
    · constructor
      · rintro ⟨hcontiguous, -⟩ - f hhead
        obtain ⟨f', r, hsort, hf, -, hpurge⟩ := Wal.purge_of_purges order dir hpurges
        rw [hsort] at hhead
        cases hhead
        rw [hpurge] at hcontiguous
        obtain ⟨rest, rfl⟩ := h.oldest_of_contiguous (h.files_perm.mem_iff.mp hf) hcontiguous
        simp only [h.files_perm.mem_iff]
        exact forall_mem_cons.mpr ⟨Nat.le_refl _, fun g hg =>
          Nat.le_of_lt ((pairwise_cons.mp h.sorted).1 g hg)⟩
      · intro holdest
        obtain ⟨f, rest, hne, rfl, ⟨g, hg, hlow⟩, hpurge⟩ := h.purge_of_oldest holdest hpurges
        rw [hpurge]
        refine ⟨(h.removeFile_tidy hne).contiguous, fun snapshot hsnapshot => ?_⟩
        refine (h.removeFile_gone hne).replayWal_eq options ⟨g, hg, ?_⟩
        rw [← hsnapshot] at hlow
        exact Nat.le_of_lt hlow
    · rw [Wal.purge_of_not_purges order dir hpurges]
      exact ⟨fun _ hp => absurd hp hpurges, fun _ => ⟨h.contiguous, fun _ _ => rfl⟩⟩

theorem exec_purge {op : PurgeOp} (holdest : op.Oldest maxKeepLogFiles (w, dir)) {w' : Wal}
    {dir' : Directory} (hexec : op.exec codecs maxKeepLogFiles (w, dir) = .ok (w', dir')) :
    ∃ files', Tidy w' dir' files' := by
  cases op with
  | write op => exact h.exec hexec
  | purge order snapshotIndex =>
    by_cases hpurges : Purges maxKeepLogFiles snapshotIndex w.logMgr.files
    · obtain ⟨f, rest, hne, rfl, -, hpurge⟩ := h.purge_of_oldest holdest hpurges
      cases (congrArg Except.ok hpurge).symm.trans hexec
      exact ⟨rest, h.removeFile_tidy hne⟩
    · cases (congrArg Except.ok (Wal.purge_of_not_purges order dir hpurges)).symm.trans hexec
      exact ⟨files, h⟩

end

end Tidy

theorem createWalInternal_tidy {options : Options}
    (h : createWalInternal codecs metadata options pool = .ok (w, dir)) :
    Tidy w dir [⟨0, 0, false⟩] := by
  obtain ⟨⟨w₀, dir₀⟩, hcreate, h⟩ := bind_eq_ok.mp h
  have htidy := createWal_tidy hcreate
  simp only at h
  split at h
  · cases h
    exact htidy
  · cases h
    exact { htidy with }

/-- In a run on a new log, every purge leaves files without a gap and does not change what
`ReplayWal` returns from its snapshot, exactly if every purge that removes a file removes the
oldest. -/
theorem purges_safe_iff {codecs : RaftCodecs} {metadata : Bytes} {options : Options}
    {pool : ByteSlicePool} {w : Wal} {dir : Directory}
    (hcreate : createWalInternal codecs metadata options pool = .ok (w, dir))
    (maxKeepLogFiles : UInt64) (ops : List PurgeOp) :
    Throughout (PurgeOp.exec codecs maxKeepLogFiles)
        (PurgeOp.Safe codecs options pool maxKeepLogFiles) (w, dir) ops ↔
      Throughout (PurgeOp.exec codecs maxKeepLogFiles) (PurgeOp.Oldest maxKeepLogFiles)
        (w, dir) ops := by
  apply throughout_iff (I := fun s => ∃ files, Tidy s.1 s.2 files)
  · rintro ⟨w, dir⟩ op - ⟨files, htidy⟩
    exact htidy.safe_iff codecs options pool maxKeepLogFiles op
  · rintro ⟨w, dir⟩ op ⟨w', dir'⟩ - ⟨files, htidy⟩ holdest hexec
    exact htidy.exec_purge holdest hexec
  · exact ⟨_, createWalInternal_tidy hcreate⟩

/-- The third file starts below the second, since the first entries have been overwritten in the
second; one purge has removed the first file. -/
def overwrittenOps : List PurgeOp :=
  [.write (.save ⟨1, 1, 0⟩ [⟨1, 1, .normal, [7]⟩, ⟨1, 2, .normal, [7]⟩, ⟨1, 3, .normal, [7]⟩]),
    .write (.save ⟨2, 1, 0⟩ [⟨2, 1, .normal, [7]⟩]),
    .write (.save ⟨2, 1, 5⟩ [⟨2, 2, .normal, [7]⟩, ⟨2, 3, .normal, [7]⟩, ⟨2, 4, .normal, [7]⟩,
      ⟨2, 5, .normal, [7]⟩, ⟨2, 6, .normal, [7]⟩]),
    .write (.saveSnapshot (smallSnapshot 5)),
    .purge .stable 5]

def orderedOps : List PurgeOp :=
  [.write (.save ⟨1, 1, 0⟩ [⟨1, 1, .normal, [7]⟩, ⟨1, 2, .normal, [7]⟩, ⟨1, 3, .normal, [7]⟩]),
    .write (.save ⟨1, 1, 5⟩ [⟨1, 4, .normal, [7]⟩, ⟨1, 5, .normal, [7]⟩]),
    .purge .stable 5]

def collectedFrom (snapshot : Snapshot) (dir : Directory) : Except WalError EntryCollection :=
  (replayWal .unary dir (some snapshot) (smallOptions 150) smallPool).map fun x =>
    x.1.entryCollection

set_option maxRecDepth 20000 in
/-- The second purge removes the third file, and the log cannot be replayed any more. -/
theorem purge_leaves_gap :
    ∃ w₀ dir₀ w dir,
      createWalInternal .unary [1, 2, 3, 4] (smallOptions 150) smallPool = .ok (w₀, dir₀) ∧
      run (PurgeOp.exec .unary 1) (w₀, dir₀) overwrittenOps = .ok (w, dir) ∧
      w.state.hardState.commit = 5 ∧ collectedFrom (smallSnapshot 5) dir =
        .ok (.entryStore [⟨2, 6, .normal, [7]⟩]) ∧
      collectedFrom (smallSnapshot 5) (w.purge 1 .stable dir 5).2 = .error (.idNotContinuous 2 1) ∧
      ¬ (PurgeOp.purge .stable 5).Safe .unary (smallOptions 150) smallPool 1 (w, dir) := by
  have h : (do
      let s ← createWalInternal .unary [1, 2, 3, 4] (smallOptions 150) smallPool
      let s ← run (PurgeOp.exec .unary 1) s overwrittenOps
      return (s.1.state.hardState.commit, collectedFrom (smallSnapshot 5) s.2,
        collectedFrom (smallSnapshot 5) (s.1.purge 1 .stable s.2 5).2)) =
      Except.ok (5, .ok (.entryStore [⟨2, 6, .normal, [7]⟩]),
        .error (.idNotContinuous 2 1)) := by decide +kernel
  obtain ⟨⟨w₀, dir₀⟩, hcreate, h⟩ := bind_eq_ok.mp h
  obtain ⟨⟨w, dir⟩, hrun, h⟩ := bind_eq_ok.mp h
  have hvalue := Except.ok.inj h
  have hbefore := congrArg (fun x => x.2.1) hvalue
  have hafter := congrArg (fun x => x.2.2) hvalue
  refine ⟨w₀, dir₀, w, dir, hcreate, hrun, congrArg Prod.fst hvalue, hbefore, hafter, ?_⟩
  rintro ⟨-, hsame⟩
  obtain ⟨x, hx, -⟩ := map_eq_ok hbefore
  have hmap := hsame (smallSnapshot 5) rfl
  simp only [hx] at hmap
  obtain ⟨y, hy, -⟩ := map_eq_ok hmap
  unfold collectedFrom at hafter
  rw [hy] at hafter
  cases hafter

theorem purges_in_order_safe :
    ∃ w₀ dir₀ w dir,
      createWalInternal .unary [1, 2, 3, 4] (smallOptions 150) smallPool = .ok (w₀, dir₀) ∧
      run (PurgeOp.exec .unary 1) (w₀, dir₀) orderedOps = .ok (w, dir) ∧
      w.logMgr.files.map LogFileDesc.id = [2, 1] ∧
      Throughout (PurgeOp.exec .unary 1) (PurgeOp.Safe .unary (smallOptions 150) smallPool 1)
        (w₀, dir₀) orderedOps := by
  have h : (do
      let s ← createWalInternal .unary [1, 2, 3, 4] (smallOptions 150) smallPool
      let s' ← run (PurgeOp.exec .unary 1) s orderedOps
      return (decide (Throughout (PurgeOp.exec .unary 1) (PurgeOp.Oldest 1) s orderedOps),
        s'.1.logMgr.files.map LogFileDesc.id)) = Except.ok (true, [2, 1]) := by decide +kernel
  obtain ⟨⟨w₀, dir₀⟩, hcreate, h⟩ := bind_eq_ok.mp h
  obtain ⟨⟨w, dir⟩, hrun, h⟩ := bind_eq_ok.mp h
  have hvalue := Except.ok.inj h
  refine ⟨w₀, dir₀, w, dir, hcreate, hrun, congrArg Prod.snd hvalue, ?_⟩
  exact (purges_safe_iff hcreate 1 orderedOps).mpr (of_decide_eq_true (congrArg Prod.fst hvalue))

end Babuza.Babuzawal
