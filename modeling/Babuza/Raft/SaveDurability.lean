import Babuza.Babuzawal.Frame
import Babuza.Lsmtwal.Recovery

/-!
# What `Save` has synced when it returns

The three logs are run together with the calls they make on the device: a `write` for what may be
lost in a crash and a `sync` that makes the earlier writes to the same file safe. Erasing the calls
gives the `Save` of the model back (`saveNative_erase`). `raft.MustSync` decides against the hard
state that the log remembers. All logs store the new hard state there first, so a new term or vote
that comes without entries is not synced; the native log is saved by a rotation only.
-/

namespace Babuza.Raft

open Lib Allocator Walbase Babuzawal List

inductive DeviceCall (F : Type)
  | write (file : F)
  | sync (file : F)
  deriving DecidableEq

namespace DeviceCall

variable {F : Type} [DecidableEq F]

/-- Every write is followed by a sync of the file it went to. -/
def AllSynced : List (DeviceCall F) → Prop
  | [] => True
  | write file :: calls => sync file ∈ calls ∧ AllSynced calls
  | sync _ :: calls => AllSynced calls

instance decidableAllSynced : (calls : List (DeviceCall F)) → Decidable (AllSynced calls)
  | [] => .isTrue trivial
  | write file :: calls =>
    have := decidableAllSynced calls
    inferInstanceAs (Decidable (sync file ∈ calls ∧ AllSynced calls))
  | sync _ :: calls => decidableAllSynced calls

omit [DecidableEq F] in
theorem allSynced_writes_append {file : F} {writes calls : List (DeviceCall F)}
    (hwrites : ∀ c ∈ writes, c = write file) (hne : writes ≠ []) :
    AllSynced (writes ++ calls) ↔ sync file ∈ calls ∧ AllSynced calls := by
  induction writes with
  | nil => exact absurd rfl hne
  | cons c writes ih =>
    obtain rfl : c = write file := hwrites c mem_cons_self
    have hrest : ∀ c ∈ writes, c = write file := fun c hc => hwrites c (mem_cons_of_mem _ hc)
    have hmem : sync file ∈ writes ++ calls ↔ sync file ∈ calls := by
      rw [List.mem_append, or_iff_right]
      intro h
      exact absurd (hrest _ h) nofun
    rw [cons_append, AllSynced, hmem]
    cases writes with
    | nil => rfl
    | cons d writes =>
      rw [ih hrest nofun, ← and_assoc, and_self]

end DeviceCall

open DeviceCall

abbrev LogCall := DeviceCall (Option FileName)

/-- `Sync(!enableNoSync)`. -/
def syncCalls (enableNoSync : Bool) (l : LogFile) : List LogCall :=
  if enableNoSync then [] else [sync (some l.name)]

/-- The calls for the records of a `Save`; the announcement of an entry counts with the entry. -/
def recordCalls (w : Wal) (st : HardState) (entries : List Entry) : List LogCall :=
  (entries.map fun _ => write (some w.currentLogFile.name)) ++
    if isEmptyHardState st then [] else [write (some w.currentLogFile.name)]

/-- The calls of `cycle`, with `next` for the name that the new file has before it is renamed. -/
def cycleCalls (enableNoSync : Bool) (w : Wal) (next : FileName) : List LogCall :=
  syncCalls enableNoSync w.currentLogFile ++
    -- the new file with its records: checksum, metadata, hard state and next entry
    [write none, write (some next), write (some next), write (some next)] ++
    (if w.state.emptyNextEntry then [] else [write (some next)]) ++
    -- `Sync(true)`, the renaming and `SyncWalFolder`
    [sync (some next), write none, sync none]

def saveNative (codecs : RaftCodecs) (enableNoSync : Bool) (w : Wal) (dir : Directory)
    (st : HardState) (entries : List Entry) :
    Except WalError ((Wal × Directory) × List LogCall) := do
  let (w₁, dir) ← (if entries = [] then .ok (w, dir) else w.saveEntry codecs dir entries)
  let (w₁, dir) ← w₁.saveHardState codecs dir st
  if w₁.currentLogFile.doCycle then
    let (w', dir) ← w₁.cycle codecs dir
    return ((w', dir), recordCalls w st entries ++
      cycleCalls enableNoSync w₁ { w'.currentLogFile.name with kind := .temp })
  else if mustSync st w₁.state.hardState entries.length then
    let (w', dir) ← w₁.sync dir
    return ((w', dir), recordCalls w st entries ++ syncCalls enableNoSync w₁.currentLogFile)
  else
    return ((w₁, dir), recordCalls w st entries)

theorem saveNative_erase (codecs : RaftCodecs) (enableNoSync : Bool) (w : Wal) (dir : Directory)
    (st : HardState) (entries : List Entry) :
    (saveNative codecs enableNoSync w dir st entries).map Prod.fst =
      w.save codecs dir st entries := by
  rw [saveNative, Wal.save]
  cases (if entries = [] then .ok (w, dir) else w.saveEntry codecs dir entries) with
  | error e => rfl
  | ok s =>
    simp only [ok_bind]
    cases s.1.saveHardState codecs s.2 st with
    | error e => rfl
    | ok s =>
      simp only [ok_bind]
      split
      · cases s.1.cycle codecs s.2 <;> rfl
      · split
        · cases s.1.sync s.2 <;> rfl
        · rfl

/-! ### When `Save` syncs -/

variable {codecs : RaftCodecs}

variable {entries : List Entry} {last st : HardState} {dir dir' : Directory} {w w' : Wal}

theorem save_hardState (h : w.save codecs dir st entries = .ok (w', dir')) :
    w'.state.hardState = if isEmptyHardState st then w.state.hardState else st := by
  obtain ⟨⟨w₁, dir₁⟩, hentries, h⟩ := bind_eq_ok.mp h
  obtain ⟨⟨w₂, dir₂⟩, hst, h⟩ := bind_eq_ok.mp h
  have hw₁ : w₁.state.hardState = w.state.hardState := by
    split at hentries
    · cases hentries
      rfl
    · exact (Wal.saveEntry_keeps hentries).2
  have hw₂ := Wal.saveHardState_hardState hst
  rw [hw₁] at hw₂
  simp only at h
  split at h
  · rw [(Wal.cycle_cycled h).state_eq, hw₂]
  · split at h
    · rw [(Wal.sync_keeps h).2, hw₂]
    · cases h
      exact hw₂

theorem saveHardState_size (hst : isEmptyHardState st = false)
    (h : w.saveHardState codecs dir st = .ok (w', dir')) :
    w'.currentLogFile.pw.segmentSize = w.currentLogFile.pw.segmentSize ∧
      w'.currentLogFile.offset =
        w.currentLogFile.offset + recordSize codecs (.hardState st) := by
  unfold Wal.saveHardState at h
  simp only [hst, Bool.false_eq_true, if_false] at h
  obtain ⟨⟨l, dir₁⟩, hencode, h⟩ := bind_eq_ok.mp h
  cases h
  have hsize := LogFile.encode_size hencode
  exact hsize

theorem recordCalls_eq_write :
    ∀ c ∈ recordCalls w st entries, c = write (some w.currentLogFile.name) := by
  intro c hc
  rcases List.mem_append.mp hc with hc | hc
  · obtain ⟨_, -, rfl⟩ := mem_map.mp hc
    rfl
  · split at hc
    · cases hc
    · exact mem_singleton.mp hc

theorem allSynced_cycleCalls (w : Wal) (next : FileName) : AllSynced (cycleCalls false w next) := by
  unfold cycleCalls syncCalls
  cases w.state.emptyNextEntry <;> simp [AllSynced]

theorem sync_mem_cycleCalls (w : Wal) (next : FileName) :
    sync (some w.currentLogFile.name) ∈ cycleCalls false w next := by
  simp [cycleCalls, syncCalls]

def Changed (last st : HardState) : Prop :=
  isEmptyHardState st = false ∧ (st.term ≠ last.term ∨ st.vote ≠ last.vote)

instance (last st : HardState) : Decidable (Changed last st) :=
  inferInstanceAs (Decidable (_ ∧ _))

/-- The hard state takes the current file of the log beyond its chunk size. -/
def FillsFile (codecs : RaftCodecs) (w : Wal) (st : HardState) : Prop :=
  w.currentLogFile.pw.segmentSize <
    w.currentLogFile.offset + recordSize codecs (.hardState st)

variable {calls : List LogCall}

theorem saveNative_entries_synced (hne : entries ≠ [])
    (h : saveNative codecs false w dir st entries = .ok ((w', dir'), calls)) : AllSynced calls := by
  obtain ⟨⟨w₁, dir₁⟩, hentries, h⟩ := bind_eq_ok.mp h
  obtain ⟨⟨w₂, dir₂⟩, hst, h⟩ := bind_eq_ok.mp h
  rw [if_neg hne] at hentries
  have hname : w₂.currentLogFile.name = w.currentLogFile.name :=
    (Wal.saveHardState_keeps hst).name_eq.trans (Wal.saveEntry_keeps hentries).1.name_eq
  have hcalls : recordCalls w st entries ≠ [] := by simp [recordCalls, hne]
  have hmust : mustSync st w₂.state.hardState entries.length = true := by
    simp [mustSync, hne]
  simp only [hmust, if_true] at h
  split at h
  · obtain ⟨⟨w₃, dir₃⟩, -, h⟩ := bind_eq_ok.mp h
    cases h
    rw [allSynced_writes_append recordCalls_eq_write hcalls, ← hname]
    exact ⟨sync_mem_cycleCalls w₂ _, allSynced_cycleCalls w₂ _⟩
  · obtain ⟨⟨w₃, dir₃⟩, -, h⟩ := bind_eq_ok.mp h
    cases h
    rw [allSynced_writes_append recordCalls_eq_write hcalls, ← hname]
    exact ⟨mem_singleton_self _, trivial⟩

theorem saveNative_hardState_synced_iff (hst : isEmptyHardState st = false)
    (h : saveNative codecs false w dir st [] = .ok ((w', dir'), calls)) :
    AllSynced calls ↔ FillsFile codecs w st := by
  obtain ⟨⟨w₁, dir₁⟩, hentries, hrest⟩ := bind_eq_ok.mp h
  rw [if_pos rfl] at hentries
  cases hentries
  obtain ⟨⟨w₂, dir₂⟩, hsave, hdecide⟩ := bind_eq_ok.mp hrest
  have hname := (Wal.saveHardState_keeps hsave).name_eq
  have hlast := Wal.saveHardState_hardState hsave
  obtain ⟨hsegment, hoffset⟩ := saveHardState_size hst hsave
  have hcycle : w₂.currentLogFile.doCycle = true ↔ FillsFile codecs w st := by
    unfold LogFile.doCycle Writer.checkCycle FillsFile
    rw [decide_eq_true_iff, hsegment, ← hoffset]
    rfl
  have hmust : mustSync st w₂.state.hardState ([] : List Entry).length = false := by
    rw [hlast, hst]
    simp [mustSync]
  have hcalls : recordCalls w st [] = [write (some w.currentLogFile.name)] := by
    simp [recordCalls, hst]
  simp only [hmust, if_false, Bool.false_eq_true] at hdecide
  rw [← hcycle]
  split at hdecide
  next hdo =>
    obtain ⟨⟨w₃, dir₃⟩, -, hdone⟩ := bind_eq_ok.mp hdecide
    cases hdone
    rw [allSynced_writes_append recordCalls_eq_write (by rw [hcalls]; exact nofun), ← hname]
    exact iff_of_true ⟨sync_mem_cycleCalls w₂ _, allSynced_cycleCalls w₂ _⟩ hdo
  next hdo =>
    cases hdecide
    rw [hcalls]
    exact iff_of_false (fun h => nomatch h.1) hdo

/-! ## Pebble and Badger -/

/-- `PebbleWal` and `BadgerWal` with the fields that decide about syncing. -/
structure LsmtLog where
  wal : Lsmtwal.LsmtWal
  hardState : HardState
  noFsync : Bool
  /-- `Opts().InMemory` of the Badger store. -/
  inMemory : Bool

variable {l : LsmtLog}

namespace LsmtLog

def syncBadger (l : LsmtLog) : List (DeviceCall Unit) :=
  if l.noFsync then [] else if l.inMemory then [] else [sync ()]

/-- The sync of a `Save`: the mode in which Pebble commits the batch, or a call of `Sync` after
Badger has flushed it. -/
def saveSync (type : Lsmtwal.WalManagerType) (l : LsmtLog) (st : HardState)
    (entries : List Entry) : List (DeviceCall Unit) :=
  match type with
  | .pebble => if !l.noFsync && mustSync st l.hardState entries.length then [sync ()] else []
  | .badger => if mustSync st l.hardState entries.length then l.syncBadger else []

/-- The calls for what a `Save` puts into the batch. -/
def batchCalls (st : HardState) (entries : List Entry) : List (DeviceCall Unit) :=
  (if isEmptyHardState st then [] else [write ()]) ++ entries.map fun _ => write ()

def save (codecs : RaftCodecs) (type : Lsmtwal.WalManagerType) (l : LsmtLog) (st : HardState)
    (entries : List Entry) : LsmtLog × List (DeviceCall Unit) :=
  let l := { l with
    hardState := if isEmptyHardState st then l.hardState else st
    wal := l.wal.save codecs st entries }
  (l, batchCalls st entries ++ l.saveSync type st entries)

def saveSnapshot (codecs : RaftCodecs) (l : LsmtLog) (snapshot : Snapshot) : LsmtLog :=
  { l with wal := l.wal.saveSnapshot codecs snapshot }

def Syncs (l : LsmtLog) : Prop := l.noFsync = false ∧ l.inMemory = false

theorem batchCalls_eq_write : ∀ c ∈ batchCalls st entries, c = write () := by
  intro c hc
  rcases List.mem_append.mp hc with hc | hc
  · split at hc
    · cases hc
    · exact mem_singleton.mp hc
  · obtain ⟨_, -, rfl⟩ := mem_map.mp hc
    rfl

theorem save_calls (hsyncs : l.Syncs) (type : Lsmtwal.WalManagerType) (st : HardState)
    (entries : List Entry) :
    (l.save codecs type st entries).2 = batchCalls st entries ++
      if mustSync st (if isEmptyHardState st then l.hardState else st) entries.length then [sync ()]
      else [] := by
  refine congrArg (batchCalls st entries ++ ·) ?_
  cases type with
  | pebble => simp [saveSync, hsyncs.1]
  | badger => simp [saveSync, syncBadger, hsyncs.1, hsyncs.2]

theorem save_entries_synced (hsyncs : l.Syncs) (type : Lsmtwal.WalManagerType) (st : HardState)
    (hne : entries ≠ []) : AllSynced (l.save codecs type st entries).2 := by
  rw [save_calls hsyncs,
    allSynced_writes_append batchCalls_eq_write (by simp [batchCalls, hne])]
  simp [mustSync, hne, AllSynced]

theorem save_hardState_not_synced (hsyncs : l.Syncs) (type : Lsmtwal.WalManagerType)
    (hst : isEmptyHardState st = false) : ¬ AllSynced (l.save codecs type st []).2 := by
  rw [save_calls hsyncs]
  simp [batchCalls, mustSync, hst, AllSynced]

end LsmtLog

/-! ## Runs -/

/-- What happens to a log before a `Save`: saves, and a node that finds it again in the state that a
shutdown or a crash has left on the device. -/
inductive LogOp (D : Type)
  | save (st : HardState) (entries : List Entry)
  | saveSnapshot (snapshot : Snapshot)
  | reopen (device : D) (snapshot : Option Snapshot)

namespace LogOp

/-- The native log, and the last hard state that was saved or recovered. -/
def stepNative (codecs : RaftCodecs) (options : Options) (pool : ByteSlicePool) :
    (Wal × Directory) × HardState → LogOp Directory →
      Except WalError ((Wal × Directory) × HardState)
  | ((w, dir), last), save st entries => do
    let s ← w.save codecs dir st entries
    return (s, if isEmptyHardState st then last else st)
  | ((w, dir), last), saveSnapshot snapshot => do
    let s ← w.saveSnapshot codecs dir snapshot
    return (s, last)
  | _, reopen dir snapshot => do
    let (result, w, dir) ← reopenWal codecs options pool dir snapshot
    return ((w, dir), result.hardState)

/-- A Pebble or Badger log, and the last hard state that was saved or recovered. -/
def stepLsmt (codecs : RaftCodecs) (type : Lsmtwal.WalManagerType) :
    LsmtLog × HardState → LogOp Lsmtwal.Db → Except Lsmtwal.LsmtError (LsmtLog × HardState)
  | (l, last), save st entries =>
    .ok ((l.save codecs type st entries).1, if isEmptyHardState st then last else st)
  | (l, last), saveSnapshot snapshot => .ok (l.saveSnapshot codecs snapshot, last)
  | (l, _), reopen db snapshot => do
    let (result, wal) ← Lsmtwal.replayWal codecs type db snapshot false
    return ({ l with wal := wal, hardState := .empty }, result.hardState)

end LogOp

variable {pool : ByteSlicePool} {options : Options}

theorem reopenWal_hardState {snapshot : Option Snapshot} {result : ReplayResult}
    (h : reopenWal codecs options pool dir snapshot = .ok (result, w, dir')) :
    w.state.hardState = result.hardState := by
  obtain ⟨⟨result₁, w₁, dir₁⟩, hreplay, hreopen⟩ := bind_eq_ok.mp h
  have hw₁ : w₁.state.hardState = result₁.hardState := by
    obtain ⟨p, -, hreplay⟩ := bind_eq_ok.mp hreplay
    simp only at hreplay
    split at hreplay
    rotate_left 2
    · cases hreplay
    -- a log that ends in a torn record is opened like a complete one
    all_goals
      obtain ⟨m, -, hreplay⟩ := bind_eq_ok.mp hreplay
      obtain ⟨w₂, hopen, hreplay⟩ := bind_eq_ok.mp hreplay
      obtain ⟨l, -, hopen⟩ := bind_eq_ok.mp hopen
      cases hopen
      cases hreplay
      rfl
  simp only at hreopen
  split at hreopen
  · cases hreopen
    exact hw₁
  · obtain ⟨⟨result₂, es⟩, hstorage, hreopen⟩ := bind_eq_ok.mp hreopen
    obtain ⟨collection, -, hstorage⟩ := bind_eq_ok.mp hstorage
    obtain ⟨es', -, hstorage⟩ := bind_eq_ok.mp hstorage
    cases hstorage
    cases hreopen
    exact hw₁

theorem stepNative_hardState {s s' : (Wal × Directory) × HardState} {op : LogOp Directory}
    (hs : s.1.1.state.hardState = s.2) (h : op.stepNative codecs options pool s = .ok s') :
    s'.1.1.state.hardState = s'.2 := by
  obtain ⟨⟨w, dir⟩, last⟩ := s
  simp only at hs
  cases op with
  | save st entries =>
    obtain ⟨⟨w', dir'⟩, hsave, h⟩ := bind_eq_ok.mp h
    cases h
    rw [← hs]
    exact save_hardState hsave
  | saveSnapshot snapshot =>
    obtain ⟨⟨w', dir'⟩, hsave, h⟩ := bind_eq_ok.mp h
    cases h
    exact (Wal.saveSnapshot_keeps hsave).2.trans hs
  | reopen dir snapshot =>
    obtain ⟨⟨result, w', dir'⟩, hreopen, h⟩ := bind_eq_ok.mp h
    cases h
    exact reopenWal_hardState hreopen

variable {type : Lsmtwal.WalManagerType}

theorem stepLsmt_syncs {s s' : LsmtLog × HardState} {op : LogOp Lsmtwal.Db} (hs : s.1.Syncs)
    (h : op.stepLsmt codecs type s = .ok s') : s'.1.Syncs := by
  obtain ⟨l, last⟩ := s
  cases op with
  | save st entries | saveSnapshot snapshot =>
    cases h
    exact hs
  | reopen db snapshot =>
    obtain ⟨⟨result, wal⟩, -, h⟩ := bind_eq_ok.mp h
    cases h
    exact hs

/-- What `Save` has to sync before it returns: entries, and a new term or vote. -/
def SyncsSave (last st : HardState) (entries : List Entry) {F : Type}
    (calls : List (DeviceCall F)) : Prop :=
  entries ≠ [] ∨ Changed last st → AllSynced calls

theorem saveNative_syncsSave_iff
    (h : saveNative codecs false w dir st entries = .ok ((w', dir'), calls)) :
    SyncsSave last st entries calls ↔
      (Changed last st → entries ≠ [] ∨ FillsFile codecs w st) := by
  by_cases hne : entries = []
  · subst hne
    constructor
    · intro hsave hchanged
      exact .inr ((saveNative_hardState_synced_iff hchanged.1 h).mp (hsave (.inr hchanged)))
    · rintro hsave (hne | hchanged)
      · exact absurd rfl hne
      · rcases hsave hchanged with hne | hfills
        · exact absurd rfl hne
        · exact (saveNative_hardState_synced_iff hchanged.1 h).mpr hfills
  · exact iff_of_true (fun _ => saveNative_entries_synced hne h) (fun _ => .inl hne)

theorem lsmt_syncsSave_iff (hsyncs : l.Syncs) :
    SyncsSave last st entries (l.save codecs type st entries).2 ↔
      (Changed last st → entries ≠ []) := by
  by_cases hne : entries = []
  · subst hne
    constructor
    · intro hsave hchanged
      exact absurd (hsave (.inr hchanged)) (LsmtLog.save_hardState_not_synced hsyncs type
        hchanged.1)
    · rintro hsave (hne | hchanged)
      · exact absurd rfl hne
      · exact absurd rfl (hsave hchanged)
  · exact iff_of_true (fun _ => LsmtLog.save_entries_synced hsyncs type st hne) (fun _ => hne)

section Runs

variable {metadata : Bytes} {s₀ : Wal × Directory} {last' : HardState}

/-- In every run of the three logs, a `Save` syncs what it has to exactly if a new term or vote
comes with entries or, in the native log, makes it rotate its file. -/
theorem save_synced_iff {ops : List (LogOp Directory)} {calls : List LogCall}
    {type : Lsmtwal.WalManagerType} {ops' : List (LogOp Lsmtwal.Db)} {l : LsmtLog}
    (hcreate : createWalInternal codecs metadata options pool = .ok s₀)
    (hrun : run (LogOp.stepNative codecs options pool) (s₀, .empty) ops = .ok ((w, dir), last))
    (hsave : saveNative codecs false w dir st entries = .ok ((w', dir'), calls))
    (hlsmt : run (LogOp.stepLsmt codecs type)
      (⟨Lsmtwal.createWal codecs metadata, .empty, false, false⟩, .empty) ops' = .ok (l, last')) :
    w.state.hardState = last ∧
    (SyncsSave last st entries calls ↔
      (Changed last st → entries ≠ [] ∨ FillsFile codecs w st)) ∧
    (SyncsSave last' st entries (l.save codecs type st entries).2 ↔
      (Changed last' st → entries ≠ [])) := by
  refine ⟨?_, saveNative_syncsSave_iff hsave, lsmt_syncsSave_iff ?_⟩
  · apply run_induction (I := fun s => s.1.1.state.hardState = s.2) stepNative_hardState _ hrun
    rw [(createWalInternal_represents hcreate).state_eq]
    rfl
  · exact run_induction (I := fun s => s.1.Syncs) stepLsmt_syncs ⟨rfl, rfl⟩ hlsmt

/-- The calls with which a new native log saves the hard state and the entries. -/
def firstCalls (st : HardState) (entries : List Entry) : Except WalError (List LogCall) := do
  let s ← createWalInternal .unary [1] (smallOptions 400) smallPool
  let (_, calls) ← saveNative .unary false s.1 s.2 st entries
  return calls

/-- The first vote of a node, which comes without entries, is in none of the three logs synced. -/
theorem first_vote_not_synced :
    Changed .empty ⟨1, 1, 0⟩ ∧
    (∃ w dir w' dir' calls,
      createWalInternal .unary [1] (smallOptions 400) smallPool = .ok (w, dir) ∧
      saveNative .unary false w dir ⟨1, 1, 0⟩ [] = .ok ((w', dir'), calls) ∧
      ¬ SyncsSave .empty ⟨1, 1, 0⟩ [] calls) ∧
    ∀ type, ¬ SyncsSave .empty ⟨1, 1, 0⟩ []
      ((⟨Lsmtwal.createWal .unary [1], .empty, false, false⟩ : LsmtLog).save .unary type
        ⟨1, 1, 0⟩ []).2 := by
  have hcalls : firstCalls ⟨1, 1, 0⟩ [] = .ok [write (some ⟨.log, 0, 0⟩)] := by decide +kernel
  obtain ⟨⟨w, dir⟩, hcreate, hcalls⟩ := bind_eq_ok.mp hcalls
  obtain ⟨⟨⟨w', dir'⟩, calls⟩, hsave, hcalls⟩ := bind_eq_ok.mp hcalls
  cases hcalls
  refine ⟨by decide, ⟨w, dir, w', dir', _, hcreate, hsave, ?_⟩, ?_⟩
  · intro h
    exact absurd (h (.inr (by decide))) (by decide)
  · intro type h
    refine absurd (h (.inr (by decide))) ?_
    cases type <;> decide

theorem vote_with_entry_synced :
    ∃ w dir w' dir' calls,
      createWalInternal .unary [1] (smallOptions 400) smallPool = .ok (w, dir) ∧
      saveNative .unary false w dir ⟨1, 1, 0⟩ [⟨1, 1, .normal, [7]⟩] =
        .ok ((w', dir'), calls) ∧
      SyncsSave .empty ⟨1, 1, 0⟩ [⟨1, 1, .normal, [7]⟩] calls ∧
      SyncsSave .empty ⟨1, 1, 0⟩ [⟨1, 1, .normal, [7]⟩]
        ((⟨Lsmtwal.createWal .unary [1], .empty, false, false⟩ : LsmtLog).save .unary .pebble
          ⟨1, 1, 0⟩ [⟨1, 1, .normal, [7]⟩]).2 := by
  have hok : (firstCalls ⟨1, 1, 0⟩ [⟨1, 1, .normal, [7]⟩]).isOk := by decide +kernel
  obtain ⟨calls, hcalls⟩ := exists_eq_ok hok
  obtain ⟨⟨w, dir⟩, hcreate, hcalls⟩ := bind_eq_ok.mp hcalls
  obtain ⟨⟨⟨w', dir'⟩, calls'⟩, hsave, -⟩ := bind_eq_ok.mp hcalls
  have hrun : run (LogOp.stepNative .unary (smallOptions 400) smallPool) ((w, dir), .empty) [] =
    .ok ((w, dir), .empty) := rfl
  have hlsmt : run (LogOp.stepLsmt .unary .pebble)
    (⟨Lsmtwal.createWal .unary [1], .empty, false, false⟩, .empty) [] = .ok _ := rfl
  have hsynced := save_synced_iff hcreate hrun hsave hlsmt
  exact ⟨w, dir, w', dir', calls', hcreate, hsave, hsynced.2.1.mpr fun _ => .inl nofun,
    hsynced.2.2.mpr fun _ => nofun⟩

end Runs

end Babuza.Raft
