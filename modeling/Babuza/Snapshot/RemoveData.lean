import Babuza.Lib.Bytes
import Mathlib.Data.Finset.Basic
import Mathlib.Data.List.AList

/-!
# Removing the snapshots of a group

The multi-raft manager keeps the snapshots of a group in a directory named by the decimal id of the
group; `RemoveData` removes it if the file system says that it exists
(`pkg/snapshot/multiraft_snapshotor.go`). On disk it is a directory. In memory there is a set of
names, and no group's directory is ever in it. In S3 it is all keys that start with its name, so the
directory of group 1 contains that of group 10. `removeData_iff` says for each file system when
`RemoveData` removes the snapshots of the group and nothing else.
-/

namespace Babuza.Snapshot

open Lib List

section Names

variable (root : List Char)

/-- `getGroupSnapshotDir`. The root ends with a separator, and for S3 it starts with the prefix of
the bucket's keys. -/
def groupDir (groupID : Nat) : List Char := root ++ Nat.toDigits 10 groupID

def below (groupID : Nat) (path : List Char) : List Char := groupDir root groupID ++ '/' :: path

def snapshotFolderName (index : Nat) : List Char :=
  let digits := Nat.toDigits 16 index
  "snapshot".toList ++ List.replicate (16 - digits.length) '0' ++ digits

def hexValue (c : Char) : Option Nat :=
  if c.isDigit then some (c.toNat - 48)
  else if 'a' ≤ c ∧ c ≤ 'f' then some (c.toNat - 87)
  else if 'A' ≤ c ∧ c ≤ 'F' then some (c.toNat - 55)
  else none

/-- `ParseSnapshotFolderName`: up to 16 hexadecimal digits are read, whatever follows. -/
def parseSnapshotFolderName (name : List Char) : Option Nat :=
  if "snapshot".toList <+: name then
    match ((name.drop 8).take 16).takeWhile fun c => (hexValue c).isSome with
    | [] => none
    | digits => some (digits.foldl (fun n c => n * 16 + (hexValue c).getD 0) 0)
  else none

def filePath (groupID index : Nat) (name : List Char) : List Char :=
  below root groupID (snapshotFolderName index ++ '/' :: name)

end Names

/-! ## The file systems -/

structure FileTree where
  dirs : List (List Char)
  files : List Char → Option Bytes

/-- The file system in memory. Only folders of snapshots are created or renamed. -/
structure VolatileTree (root : List Char) extends FileTree where
  folders : ∀ dir ∈ dirs, ∃ groupID path, dir = below root groupID path

inductive FolderType
  | tempWrite
  | tempReceive
  | installSnapshot
  deriving DecidableEq

/-- An object in S3, with the folder type that a touch file carries. -/
structure S3Object where
  data : Bytes
  folderType : Option FolderType

abbrev Objects := AList fun _ : List Char => S3Object

inductive SnapshotFs (root : List Char)
  | durable (tree : FileTree)
  | volatile (tree : VolatileTree root)
  | s3 (objects : Objects)

inductive GroupScanFailure
  | notExist
  | invalid
  deriving DecidableEq

/-- What the scan makes of a folder, by its files. -/
inductive FolderVerdict
  | skipped
  | registered
  | failed
  deriving DecidableEq

abbrev FolderFiles := List Char → Option Bytes

/-- A directory right below `dir`, by its name. -/
def childName (dir path : List Char) : Option (List Char) :=
  if dir ++ ['/'] <+: path then
    let name := path.drop (dir.length + 1)
    if '/' ∈ name then none else some name
  else none

/-- The name of the last part of a path, and of the part before it. -/
def lastTwo (path : List Char) : List Char × List Char :=
  match (path.splitOn '/').reverse with
  | base :: parent :: _ => (parent, base)
  | [base] => ([], base)
  | [] => ([], [])

def touchIndex (key : List Char) (object : S3Object) : Option Nat :=
  if (lastTwo key).2 = "touch".toList then
    match parseSnapshotFolderName (lastTwo key).1 with
    | none => none
    | some index => if object.folderType = some .installSnapshot then some index else none
  else none

/-- `ListObjectsV2`, all pages. -/
def listObjects (objects : Objects) (dirKey : List Char) : List ((_ : List Char) × S3Object) :=
  objects.entries.filter fun object => dirKey <+: object.1

namespace FileTree

def removeAll (t : FileTree) (path : List Char) : FileTree where
  dirs := t.dirs.filter fun dir => ¬(dir = path ∨ path ++ ['/'] <+: dir)
  files file := if path ++ ['/'] <+: file then none else t.files file

end FileTree

/-- `RemoveDir` in memory: the files below, and the directory itself. -/
def VolatileTree.removeDir {root : List Char} (t : VolatileTree root) (path : List Char) :
    VolatileTree root where
  dirs := t.dirs.filter fun dir => dir ≠ path
  files file := if path ++ ['/'] <+: file then none else t.files file
  folders := fun dir hdir => t.folders dir (mem_filter.mp hdir).1

/-- `RemoveDir` in S3: every object that is listed. -/
def removeObjects (objects : Objects) (dirKey : List Char) : Objects where
  entries := objects.entries.filter fun object => ¬ dirKey <+: object.1
  nodupKeys := objects.nodupKeys.sublist filter_sublist

namespace SnapshotFs

variable {root : List Char}

/-- `RemoveData`, with `ExistDir` and `RemoveDir` of the file system. -/
def removeData (fs : SnapshotFs root) (groupID : Nat) : SnapshotFs root :=
  match fs with
  | durable t =>
    if groupDir root groupID ∈ t.dirs then durable (t.removeAll (groupDir root groupID)) else fs
  | volatile t =>
    if groupDir root groupID ∈ t.dirs then volatile (t.removeDir (groupDir root groupID)) else fs
  | s3 objects =>
    if listObjects objects (groupDir root groupID) ≠ [] then
      s3 (removeObjects objects (groupDir root groupID))
    else fs

/-- `ScanInstalledSnapshot` of the file system, for the directory of a group. -/
def listed (fs : SnapshotFs root) (groupID : Nat) : Except GroupScanFailure (List Nat) :=
  match fs with
  | durable t =>
    if groupDir root groupID ∈ t.dirs then
      .ok (t.dirs.filterMap fun dir =>
        (childName (groupDir root groupID) dir).bind parseSnapshotFolderName)
    else .error .notExist
  | volatile t =>
    .ok ((t.dirs.filter fun dir => below root groupID "snapshot".toList <+: dir).filterMap
      fun dir => parseSnapshotFolderName (lastTwo dir).2)
  | s3 objects =>
    .ok ((listObjects objects (groupDir root groupID)).filterMap fun object =>
      touchIndex object.1 object.2)

def files (fs : SnapshotFs root) (groupID index : Nat) : FolderFiles := fun name =>
  match fs with
  | durable t => t.files (filePath root groupID index name)
  | volatile t => t.files (filePath root groupID index name)
  | s3 objects => (objects.lookup (filePath root groupID index name)).map (·.data)

end SnapshotFs

def scanLoop (verdict : FolderFiles → FolderVerdict) (files : Nat → FolderFiles) :
    List Nat → Finset Nat → Except GroupScanFailure (Finset Nat)
  | [], installed => .ok installed
  | index :: rest, installed =>
    match verdict (files index) with
    | .skipped => scanLoop verdict files rest installed
    | .failed => .error .invalid
    | .registered => scanLoop verdict files rest (insert index installed)

namespace SnapshotFs

variable {root : List Char} (verdict : FolderFiles → FolderVerdict)

/-- `ScanInstalledSnapshots` for one group. -/
def scan (fs : SnapshotFs root) (groupID : Nat) : Except GroupScanFailure (Finset Nat) :=
  match fs.listed groupID with
  | .error e => .error e
  | .ok indices => scanLoop verdict (fs.files groupID) indices ∅

def FindsNone (fs : SnapshotFs root) (groupID : Nat) : Prop :=
  ∀ installed, fs.scan verdict groupID = .ok installed → installed = ∅

/-- After `RemoveData` the group has no snapshot, and every other group what it had before. -/
def RemovesOnly (fs : SnapshotFs root) (groupID : Nat) : Prop :=
  (fs.removeData groupID).FindsNone verdict groupID ∧
  ∀ other, other ≠ groupID →
    (fs.removeData groupID).scan verdict other = fs.scan verdict other ∧
    ∀ installed, fs.scan verdict other = .ok installed → ∀ index ∈ installed,
      (fs.removeData groupID).files other index = fs.files other index

end SnapshotFs

/-- The indices that are listed for the group `other` through objects that are not in the directory
of the group `groupID`. -/
def listedOutside (root : List Char) (objects : Objects) (groupID other : Nat) : List Nat :=
  ((listObjects objects (groupDir root other)).filter
    fun object => ¬ groupDir root groupID <+: object.1).filterMap
      fun object => touchIndex object.1 object.2

/-- What is listed for the group `other` through objects of the group `groupID` alone is passed over
by the scan, unless the scan fails anyway. -/
def KeepsGroup (root : List Char) (verdict : FolderFiles → FolderVerdict) (objects : Objects)
    (groupID other : Nat) : Prop :=
  (∃ index ∈ listedOutside root objects groupID other,
    verdict ((SnapshotFs.s3 objects : SnapshotFs root).files other index) = .failed) ∨
  ∀ indices, (SnapshotFs.s3 objects : SnapshotFs root).listed other = .ok indices →
    ∀ index ∈ indices, index ∉ listedOutside root objects groupID other →
      verdict ((SnapshotFs.s3 objects : SnapshotFs root).files other index) = .skipped

theorem slash_notMem_toDigits (n : Nat) : '/' ∉ Nat.toDigits 10 n := by
  intro h
  have hdigit := Nat.isDigit_of_mem_toDigits (by omega) (by omega) h
  exact absurd hdigit (by decide)

theorem toDigits_injective {m n : Nat} (h : Nat.toDigits 10 m = Nat.toDigits 10 n) : m = n := by
  have hvalue := congrArg (fun digits => Nat.ofDigitChars 10 digits 0) h
  simpa only [Nat.ofDigitChars_ten_toDigits] using hvalue

variable {a b dir path x : List Char}

theorem prefix_append_cons_iff {c : Char} (h : c ∉ a) : a <+: b ++ c :: x ↔ a <+: b := by
  constructor
  · intro hp
    rcases prefix_or_prefix_of_prefix hp (prefix_append b (c :: x)) with hab | ⟨t, rfl⟩
    · exact hab
    · rw [prefix_append_right_inj] at hp
      cases t with
      | nil => rw [append_nil]
      | cons d t =>
        obtain ⟨rest, hrest⟩ := hp
        cases hrest
        exact absurd (mem_append_right b mem_cons_self) h
  · intro hp
    exact hp.trans (prefix_append b _)

theorem append_cons_prefix_iff {c : Char} {y : List Char} (ha : c ∉ a) (hb : c ∉ b) :
    a ++ c :: x <+: b ++ c :: y ↔ a = b ∧ x <+: y := by
  constructor
  · intro hp
    have hab : a <+: b := (prefix_append_cons_iff ha).mp ((prefix_append a _).trans hp)
    obtain ⟨t, rfl⟩ := hab
    rw [append_assoc, prefix_append_right_inj] at hp
    cases t with
    | nil =>
      obtain ⟨rest, hrest⟩ := hp
      cases hrest
      exact ⟨(append_nil a).symm, prefix_append x rest⟩
    | cons d t =>
      obtain ⟨rest, hrest⟩ := hp
      obtain ⟨rfl, -⟩ := List.cons.inj hrest
      exact absurd (mem_append_right a mem_cons_self) hb
  · rintro ⟨rfl, hxy⟩
    exact (prefix_append_right_inj a).mpr ((prefix_append_right_inj [c]).mpr hxy)

section

variable {root : List Char} {groupID other : Nat}

theorem groupDir_prefix_below_iff :
    groupDir root groupID <+: below root other path ↔
      Nat.toDigits 10 groupID <+: Nat.toDigits 10 other := by
  rw [below, groupDir, groupDir, append_assoc, prefix_append_right_inj,
    prefix_append_cons_iff (slash_notMem_toDigits groupID)]

theorem below_prefix_below_iff {path' : List Char} :
    below root groupID path <+: below root other path' ↔ groupID = other ∧ path <+: path' := by
  rw [below, below, groupDir, groupDir, append_assoc, append_assoc,
    prefix_append_right_inj,
    append_cons_prefix_iff (slash_notMem_toDigits groupID) (slash_notMem_toDigits other)]
  exact and_congr_left fun _ => ⟨toDigits_injective, fun h => h ▸ rfl⟩

theorem not_below_prefix_groupDir : ¬ below root groupID path <+: groupDir root other := by
  rw [below, groupDir, groupDir, append_assoc, prefix_append_right_inj]
  intro h
  exact slash_notMem_toDigits other (h.subset (mem_append_right _ mem_cons_self))

end

/-! ## The scan -/

section

variable {verdict : FolderFiles → FolderVerdict} {files : Nat → FolderFiles}

variable {indices fewer : List Nat}

theorem scanLoop_of_failed {index : Nat} (hmem : index ∈ indices)
    (h : verdict (files index) = .failed) (installed : Finset Nat) :
    scanLoop verdict files indices installed = .error .invalid := by
  induction indices generalizing installed with
  | nil => cases hmem
  | cons first rest ih =>
    rw [scanLoop]
    rcases mem_cons.mp hmem with rfl | hmem
    · rw [h]
    · split
      · exact ih hmem _
      · rfl
      · exact ih hmem _

theorem scanLoop_of_no_failed (h : ∀ index ∈ indices, verdict (files index) ≠ .failed)
    (installed : Finset Nat) :
    ∃ result, scanLoop verdict files indices installed = .ok result ∧
      ∀ index, index ∈ result ↔
        index ∈ installed ∨ index ∈ indices ∧ verdict (files index) = .registered := by
  induction indices generalizing installed with
  | nil => exact ⟨installed, rfl, by simp⟩
  | cons first rest ih =>
    obtain ⟨hfirst, hrest⟩ := forall_mem_cons.mp h
    rw [scanLoop]
    cases hverdict : verdict (files first) with
    | failed => exact absurd hverdict hfirst
    | skipped =>
      obtain ⟨result, hresult, hmem⟩ := ih hrest installed
      refine ⟨result, hresult, fun index => ?_⟩
      rw [hmem, mem_cons]
      grind
    | registered =>
      obtain ⟨result, hresult, hmem⟩ := ih hrest (insert first installed)
      refine ⟨result, hresult, fun index => ?_⟩
      rw [hmem, Finset.mem_insert, mem_cons]
      grind

/-- A scan that goes through fewer folders finds the same if it fails anyway, or the other folders
are passed over. -/
theorem scanLoop_eq_iff (hsub : ∀ index ∈ fewer, index ∈ indices) :
    scanLoop verdict files fewer ∅ = scanLoop verdict files indices ∅ ↔
      (∃ index ∈ fewer, verdict (files index) = .failed) ∨
        ∀ index ∈ indices, index ∉ fewer → verdict (files index) = .skipped := by
  by_cases hfailed : ∃ index ∈ fewer, verdict (files index) = .failed
  · obtain ⟨index, hmem, hindex⟩ := hfailed
    rw [scanLoop_of_failed hmem hindex, scanLoop_of_failed (hsub index hmem) hindex]
    exact iff_of_true rfl (.inl ⟨index, hmem, hindex⟩)
  · rw [or_iff_right hfailed]
    have hfewer : ∀ index ∈ fewer, verdict (files index) ≠ .failed :=
      fun index hmem hindex => hfailed ⟨index, hmem, hindex⟩
    obtain ⟨result, hresult, hin⟩ := scanLoop_of_no_failed hfewer ∅
    rw [hresult]
    by_cases hall : ∀ index ∈ indices, verdict (files index) ≠ .failed
    · obtain ⟨result', hresult', hin'⟩ := scanLoop_of_no_failed hall ∅
      rw [hresult', Except.ok.injEq, Finset.ext_iff]
      constructor
      · intro heq index hmem hnot
        cases hverdict : verdict (files index) with
        | skipped => rfl
        | failed => exact absurd hverdict (hall index hmem)
        | registered =>
          have hfound := (heq index).mpr ((hin' index).mpr (.inr ⟨hmem, hverdict⟩))
          rcases (hin index).mp hfound with hold | ⟨hmem', -⟩
          · exact absurd hold (Finset.notMem_empty index)
          · exact absurd hmem' hnot
      · intro hskipped index
        rw [hin, hin']
        refine or_congr_right (and_congr_left fun hreg => ⟨hsub index, fun hmem => ?_⟩)
        by_contra hnot
        rw [hskipped index hmem hnot] at hreg
        cases hreg
    · obtain ⟨index, hmem, hindex⟩ : ∃ index ∈ indices, verdict (files index) = .failed := by
        by_contra hnone
        exact hall fun index hmem hindex => hnone ⟨index, hmem, hindex⟩
      rw [scanLoop_of_failed hmem hindex]
      refine iff_of_false nofun fun hskipped => ?_
      rw [hskipped index hmem fun hmem' => hfewer index hmem' hindex] at hindex
      cases hindex

end

/-! ## Each file system -/

namespace SnapshotFs

variable {root : List Char} {verdict : FolderFiles → FolderVerdict} {groupID other : Nat}

theorem not_prefix_of_ne (hne : other ≠ groupID) (h : below root other path <+: dir) :
    ¬ below root groupID [] <+: dir := by
  intro hgroup
  rcases prefix_or_prefix_of_prefix h hgroup with hp | hp
  · exact hne (below_prefix_below_iff.mp hp).1
  · exact hne (below_prefix_below_iff.mp hp).1.symm

theorem childName_removed (hne : other ≠ groupID)
    (h : dir = groupDir root groupID ∨ groupDir root groupID ++ ['/'] <+: dir) :
    childName (groupDir root other) dir = none := by
  refine if_neg fun hchild => ?_
  have hbelow : below root other [] <+: dir := hchild
  rcases h with rfl | h
  · exact not_below_prefix_groupDir hbelow
  · exact not_prefix_of_ne hne hbelow h

theorem removesOnly_durable (t : FileTree) :
    (durable t : SnapshotFs root).RemovesOnly verdict groupID := by
  by_cases hmem : groupDir root groupID ∈ t.dirs
  · have hremove : (durable t : SnapshotFs root).removeData groupID =
        durable (t.removeAll (groupDir root groupID)) := if_pos hmem
    rw [RemovesOnly, hremove]
    constructor
    · intro installed hscan
      have hgone : groupDir root groupID ∉ (t.removeAll (groupDir root groupID)).dirs := by
        simp [FileTree.removeAll]
      rw [scan, listed, if_neg hgone] at hscan
      cases hscan
    · intro other hne
      have hkept : groupDir root other ∈ (t.removeAll (groupDir root groupID)).dirs ↔
          groupDir root other ∈ t.dirs := by
        refine mem_filter.trans (and_iff_left (decide_eq_true ?_))
        rintro (heq | hp)
        · exact hne (toDigits_injective (append_cancel_left heq))
        · exact not_below_prefix_groupDir hp
      have hchildren : (t.removeAll (groupDir root groupID)).dirs.filterMap (fun dir =>
          (childName (groupDir root other) dir).bind parseSnapshotFolderName) =
          t.dirs.filterMap fun dir =>
            (childName (groupDir root other) dir).bind parseSnapshotFolderName := by
        rw [FileTree.removeAll, filterMap_filter]
        refine filterMap_congr fun dir _ => ?_
        split
        · rfl
        next hremoved =>
          rw [childName_removed hne (not_not.mp fun hnot => hremoved (decide_eq_true hnot))]
          rfl
      have hfiles : (durable (t.removeAll (groupDir root groupID)) : SnapshotFs root).files other =
          (durable t : SnapshotFs root).files other := by
        funext index name
        exact if_neg (not_prefix_of_ne hne (below_prefix_below_iff.mpr ⟨rfl, List.nil_prefix⟩))
      refine ⟨?_, fun _ _ index _ => congrFun hfiles index⟩
      simp only [scan, listed, hkept, hchildren, hfiles]
  · have hsame : (durable t : SnapshotFs root).removeData groupID = durable t := if_neg hmem
    rw [RemovesOnly, hsame]
    refine ⟨fun installed hscan => ?_, fun other _ => ⟨rfl, fun _ _ _ _ => rfl⟩⟩
    rw [scan, listed, if_neg hmem] at hscan
    cases hscan

theorem removesOnly_volatile_iff (t : VolatileTree root) :
    (volatile t).RemovesOnly verdict groupID ↔ (volatile t).FindsNone verdict groupID := by
  have hnot : groupDir root groupID ∉ t.dirs := by
    intro hmem
    obtain ⟨other, path, heq⟩ := t.folders _ hmem
    have hp : below root other path <+: groupDir root groupID := by rw [heq]
    exact not_below_prefix_groupDir hp
  have hsame : (volatile t).removeData groupID = volatile t := if_neg hnot
  rw [RemovesOnly, hsame]
  exact and_iff_left fun other _ => ⟨rfl, fun _ _ _ _ => rfl⟩

variable (objects : Objects)

theorem removeData_s3 :
    (s3 objects : SnapshotFs root).removeData groupID =
      s3 (removeObjects objects (groupDir root groupID)) := by
  by_cases hempty : listObjects objects (groupDir root groupID) = []
  · have hsame : removeObjects objects (groupDir root groupID) = objects := by
      refine AList.ext (filter_eq_self.mpr fun object hobject => decide_eq_true fun hp => ?_)
      have hlisted : object ∈ listObjects objects (groupDir root groupID) :=
        mem_filter.mpr ⟨hobject, decide_eq_true hp⟩
      rw [hempty] at hlisted
      cases hlisted
    rw [hsame]
    exact if_neg (not_not.mpr hempty)
  · exact if_pos hempty

theorem listed_removeObjects :
    (s3 (removeObjects objects (groupDir root groupID)) : SnapshotFs root).listed other =
      .ok (listedOutside root objects groupID other) := by
  simp only [listed, listObjects, removeObjects, listedOutside, filter_filter, Bool.and_comm]

theorem lookup_removeObjects (dirKey key : List Char) :
    (removeObjects objects dirKey).lookup key = if dirKey <+: key then none
      else objects.lookup key := by
  apply Option.ext
  intro object
  have hmem : (removeObjects objects dirKey).lookup key = some object ↔
      objects.lookup key = some object ∧ ¬ dirKey <+: key := by
    rw [← Option.mem_def, AList.mem_lookup_iff, ← Option.mem_def, AList.mem_lookup_iff,
      removeObjects, mem_filter, decide_eq_true_iff]
  rw [hmem]
  split
  next hp => exact iff_of_false (fun h => h.2 hp) nofun
  next hp => exact and_iff_left hp

theorem removesOnly_s3_iff :
    (s3 objects : SnapshotFs root).RemovesOnly verdict groupID ↔
      ∀ other, other ≠ groupID → KeepsGroup root verdict objects groupID other := by
  have hoffspring : ∀ {other}, Nat.toDigits 10 groupID <+: Nat.toDigits 10 other →
      listedOutside root objects groupID other = [] := by
    intro other hdigits
    have hnone : (listObjects objects (groupDir root other)).filter
        (fun object => ¬ groupDir root groupID <+: object.1) = [] := by
      refine filter_eq_nil_iff.mpr fun object hobject => ?_
      have hp : groupDir root other <+: object.1 :=
        of_decide_eq_true (mem_filter.mp hobject).2
      have hdirs : groupDir root groupID <+: groupDir root other :=
        (prefix_append_right_inj root).mpr hdigits
      simpa using hdirs.trans hp
    rw [listedOutside, hnone]
    rfl
  have hsub : ∀ {other}, ∀ index ∈ listedOutside root objects groupID other,
      index ∈ (listObjects objects (groupDir root other)).filterMap
        fun object => touchIndex object.1 object.2 := by
    intro other index hindex
    obtain ⟨object, hobject, htouch⟩ := mem_filterMap.mp hindex
    exact mem_filterMap.mpr ⟨object, (mem_filter.mp hobject).1, htouch⟩
  rw [RemovesOnly, removeData_s3]
  have hgone : (s3 (removeObjects objects (groupDir root groupID)) : SnapshotFs root).FindsNone
      verdict groupID := by
    intro installed hscan
    rw [scan, listed_removeObjects, hoffspring (prefix_refl _)] at hscan
    cases hscan
    rfl
  rw [and_iff_right hgone]
  refine forall_congr' fun other => forall_congr' fun hne => ?_
  -- the scan after the removal, in terms of the files before it
  have hfiles : ¬ Nat.toDigits 10 groupID <+: Nat.toDigits 10 other →
      (s3 (removeObjects objects (groupDir root groupID)) : SnapshotFs root).files other =
        (s3 objects : SnapshotFs root).files other := by
    intro hdigits
    funext index name
    have hlookup := lookup_removeObjects objects (groupDir root groupID)
      (filePath root other index name)
    have hnot : ¬ groupDir root groupID <+: filePath root other index name :=
      fun hp => hdigits (groupDir_prefix_below_iff.mp hp)
    rw [if_neg hnot] at hlookup
    exact congrArg (Option.map S3Object.data) hlookup
  have hscan :
      (s3 (removeObjects objects (groupDir root groupID)) : SnapshotFs root).scan verdict other =
      scanLoop verdict ((s3 objects : SnapshotFs root).files other)
        (listedOutside root objects groupID other) ∅ := by
    simp only [scan, listed_removeObjects]
    by_cases hdigits : Nat.toDigits 10 groupID <+: Nat.toDigits 10 other
    · rw [hoffspring hdigits]
      rfl
    · rw [hfiles hdigits]
  have hkept : scanLoop verdict ((s3 objects : SnapshotFs root).files other)
      (listedOutside root objects groupID other) ∅ =
        (s3 objects : SnapshotFs root).scan verdict other →
      ∀ installed, (s3 objects : SnapshotFs root).scan verdict other = .ok installed →
        ∀ index ∈ installed,
          (s3 (removeObjects objects (groupDir root groupID)) : SnapshotFs root).files other index =
            (s3 objects : SnapshotFs root).files other index := by
    intro heq installed hinstalled index hindex
    by_cases hdigits : Nat.toDigits 10 groupID <+: Nat.toDigits 10 other
    · rw [hoffspring hdigits, hinstalled] at heq
      cases heq
      cases hindex
    · rw [hfiles hdigits]
  rw [hscan, and_iff_left_of_imp hkept, KeepsGroup]
  refine (scanLoop_eq_iff hsub).trans (or_congr_right ?_)
  exact ⟨fun h indices hindices => by cases hindices; exact h, fun h => h _ rfl⟩

/-- When `RemoveData` removes the snapshots of the group and nothing else: always on disk; in memory
if there are none; and in S3 if no other group loses a snapshot that its scan finds through an
object of the group's directory. -/
theorem removeData_iff (verdict : FolderFiles → FolderVerdict) (fs : SnapshotFs root)
    (groupID : Nat) : fs.RemovesOnly verdict groupID ↔
      match fs with
      | durable _ => True
      | volatile t => (volatile t).FindsNone verdict groupID
      | s3 objects => ∀ other, other ≠ groupID → KeepsGroup root verdict objects groupID other := by
  cases fs with
  | durable t => exact iff_of_true (removesOnly_durable t) trivial
  | volatile t => exact removesOnly_volatile_iff t
  | s3 objects => exact removesOnly_s3_iff objects

def exampleVerdict (files : FolderFiles) : FolderVerdict :=
  if (files "metadata".toList).isSome then .registered else .skipped

def exampleSnapshotObjects (groupID : Nat) (objects : Objects) : Objects :=
  (objects.insert (filePath [] groupID 5 "touch".toList) ⟨[], some .installSnapshot⟩).insert
    (filePath [] groupID 5 "metadata".toList) ⟨[1], none⟩

def exampleVolatile (groupID : Nat) : VolatileTree [] where
  dirs := [below [] groupID (snapshotFolderName 5)]
  files file := if file = filePath [] groupID 5 "metadata".toList then some [1] else none
  folders := forall_mem_singleton.mpr ⟨groupID, _, rfl⟩

/-- In S3 the snapshot of group 10 is removed with group 1. In memory that of group 1 is not
removed. -/
theorem removeData_misses :
    ((s3 (exampleSnapshotObjects 1 (exampleSnapshotObjects 10 ∅)) : SnapshotFs []).scan
        exampleVerdict 10 = .ok {5} ∧
      ((s3 (exampleSnapshotObjects 1 (exampleSnapshotObjects 10 ∅)) : SnapshotFs []).removeData
        1).scan exampleVerdict 10 = .ok ∅) ∧
    ((volatile (exampleVolatile 1)).removeData 1).scan exampleVerdict 1 = .ok {5} := by
  decide +kernel

theorem removeData_keeps_other :
    (s3 (exampleSnapshotObjects 1 (exampleSnapshotObjects 2 ∅)) : SnapshotFs []).RemovesOnly
      exampleVerdict 1 := by
  refine (removeData_iff exampleVerdict _ 1).mpr fun other hne => .inr ?_
  rintro indices ⟨⟩ index hindex hnot
  refine absurd ?_ hnot
  obtain ⟨object, hobject, htouch⟩ := mem_filterMap.mp hindex
  refine mem_filterMap.mpr ⟨object, mem_filter.mpr ⟨hobject, decide_eq_true ?_⟩, htouch⟩
  -- an object of group 1 is not listed for another group whose id is no prefix of it
  obtain ⟨hentry, hp⟩ := mem_filter.mp hobject
  have hp := of_decide_eq_true hp
  have hgroup : ∀ {path}, object.1 = below [] 1 path → False := by
    intro path heq
    rw [heq, groupDir_prefix_below_iff] at hp
    rcases prefix_concat_iff.mp (show Nat.toDigits 10 other <+: [] ++ ['1'] from hp) with heq | hnil
    · exact hne (toDigits_injective heq)
    · exact Nat.toDigits_ne_nil (prefix_nil.mp hnil)
  have hother : ∀ {path}, object.1 = below [] 2 path → ¬ groupDir [] 1 <+: object.1 := by
    intro path heq hp
    rw [heq, groupDir_prefix_below_iff] at hp
    exact absurd hp (by decide)
  have hkey := AList.mem_keys.mpr (mem_map_of_mem hentry)
  simp only [exampleSnapshotObjects, AList.mem_insert] at hkey
  rcases hkey with heq | heq | heq | heq | hempty
  · exact (hgroup heq).elim
  · exact (hgroup heq).elim
  · exact hother heq
  · exact hother heq
  · exact absurd hempty (AList.notMem_empty _)

end SnapshotFs

end Babuza.Snapshot
