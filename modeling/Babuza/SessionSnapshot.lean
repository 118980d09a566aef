import Babuza.Lib.Stream
import Babuza.Session
import Babuza.Utility.Allocator

/-!
# Snapshots of the sessions

The managers write their sessions one after another, each with its results (`Snapshot` and `Restore`
in `pkg/session`). A result is its log index, a number that says what follows, and the response in
the encoding of the application or the text of the error.

A result with an error is written without its response. For the text of an error the reader asks the
allocator, which panics if it is asked for nothing or for more than 16 MiB. All other results come
back as they were (`sessions_restored_iff`).
-/

namespace Babuza

open Lib Allocator List

variable {R : Type}

/-! ## The model -/

/-- `Error()` and `errors.New`. -/
structure ErrorText where
  text : ApplyError → Bytes
  new : Bytes → ApplyError
  text_new : ∀ bytes, text (new bytes) = bytes

structure ResponseSerializer (R : Type) where
  serialize : Response R → Option Bytes
  deserialize : Bytes → Option (Response R × Bytes)

/-- `Deserialize` consumes what `Serialize` wrote and returns an equal value. -/
def ResponseSerializer.Lawful (rs : ResponseSerializer R) : Prop :=
  ∀ response data, rs.serialize response = some data →
    ∀ rest, rs.deserialize (data ++ rest) = some (response, rest)

inductive SessionFailure
  | serialize
  | read (e : ReadError)
  | deserialize
  | panic
  | unknownResponseType (responseType : Nat)
  | mismatchVersion (version : Nat)
  | invalidFileType (fileType : Nat)
  | mismatchedCount (expected real : Nat)
  /-- Two sessions with one id in the list of the LRU manager, which is not modelled. -/
  | outside
  deriving DecidableEq

def fileReadUint64 (stream : Bytes) : Except SessionFailure (Nat × Bytes) :=
  (readUint64 stream).mapError .read

def uint64OfInt64 (n : Int) : Nat := (n % 2 ^ 64).toNat

def int64OfUint64 (n : Nat) : Int := if n < 2 ^ 63 then n else n - 2 ^ 64

section

variable (rs : ResponseSerializer R) (texts : ErrorText)

def ApplyResultSerializer.marshal (ar : ApplyResult R) : Except SessionFailure Bytes :=
  match ar.error, ar.response with
  | none, none => .ok (leBytes 8 ar.logIndex ++ leBytes 8 3)
  | some e, _ =>
    .ok (leBytes 8 ar.logIndex ++ leBytes 8 2 ++ leBytes 8 (texts.text e).length ++ texts.text e)
  | none, some response => match rs.serialize response with
    | none => .error .serialize
    | some data => .ok (leBytes 8 ar.logIndex ++ leBytes 8 1 ++ data)

def ApplyResultSerializer.unmarshal (stream : Bytes) :
    Except SessionFailure (ApplyResult R × Bytes) := do
  let (logIndex, stream) ← fileReadUint64 stream
  let (responseType, stream) ← fileReadUint64 stream
  if responseType = 1 then
    match rs.deserialize stream with
    | none => .error .deserialize
    | some (response, stream) => .ok (⟨logIndex, some response, none⟩, stream)
  else if responseType = 2 then do
    let (dataSize, stream) ← fileReadUint64 stream
    -- as an `int` the size is negative from `2 ^ 63` on
    if 2 ^ 63 ≤ dataSize then .error .panic
    else match defaultByteSlicePool.acquire dataSize with
      | none => .error .panic
      | some _ => do
        let (data, stream) ← (readFull dataSize stream).mapError .read
        .ok (⟨logIndex, none, some (texts.new data)⟩, stream)
  else if responseType = 3 then .ok (⟨logIndex, none, none⟩, stream)
  else .error (.unknownResponseType responseType)

abbrev ResultEntry (R : Type) := (_ : Nat) × ApplyResult R

/-- `Session.Snapshot`. The entries are the results in the order of the loop over the map. -/
def Session.snapshot (s : Session R) (entries : List (ResultEntry R)) :
    Except SessionFailure Bytes := do
  let parts ← entries.mapM fun entry =>
    (ApplyResultSerializer.marshal rs texts entry.2).map (leBytes 8 entry.1 ++ ·)
  .ok (leBytes 8 s.id ++ leBytes 8 (uint64OfInt64 s.lastActiveNanoseconds) ++
    leBytes 8 entries.length ++ parts.flatten)

/-- One round of `Session.Restore`. -/
def restoreResult (stream : Bytes) : Except SessionFailure (ResultEntry R × Bytes) := do
  let (seqNum, stream) ← fileReadUint64 stream
  let (ar, stream) ← ApplyResultSerializer.unmarshal rs texts stream
  .ok (⟨seqNum, ar⟩, stream)

def resultMap (entries : List (ResultEntry R)) : AList fun _ : Nat => ApplyResult R :=
  entries.foldl (fun result entry => result.insert entry.1 entry.2) ∅

def Session.restore (stream : Bytes) : Except SessionFailure (Session R × Bytes) := do
  let (id, stream) ← fileReadUint64 stream
  let (lastActive, stream) ← fileReadUint64 stream
  let (count, stream) ← fileReadUint64 stream
  let (entries, stream) ← readMany (restoreResult rs texts) count stream
  .ok (⟨id, int64OfUint64 lastActive, resultMap entries⟩, stream)

/-- The sessions in the order in which a manager writes them, each with its results in the order in
which it writes these. -/
abbrev Iteration (R : Type) := List (Session R × List (ResultEntry R))

/-- The part of `Snapshot` that both managers share. -/
def writeSessions (fileType : Nat) (it : Iteration R) : Except SessionFailure Bytes := do
  let parts ← it.mapM fun x => x.1.snapshot rs texts x.2
  .ok (leBytes 8 (1 <<< 32 ||| fileType) ++ leBytes 8 it.length ++ parts.flatten)

/-- The part of `Restore` that all managers share. -/
def readHeader (fileType : Nat) (stream : Bytes) : Except SessionFailure Bytes := do
  let (value, stream) ← fileReadUint64 stream
  if value >>> 32 ≠ 1 then .error (.mismatchVersion (value >>> 32))
  else if value % 2 ^ 32 ≠ fileType then .error (.invalidFileType (value % 2 ^ 32))
  else .ok stream

def readSessions (stream : Bytes) : Except SessionFailure (Nat × List (Session R)) := do
  let (totalCount, stream) ← fileReadUint64 stream
  let (sessions, _) ← readMany (Session.restore rs texts) totalCount stream
  .ok (totalCount, sessions)

def sessionMap (sessions : List (Session R)) : Keyed (Session.id : Session R → Nat) :=
  sessions.foldl Keyed.pushFront .empty

def ExpiredManager.restore (m : ExpiredManager R) (stream : Bytes) :
    Except SessionFailure (ExpiredManager R) := do
  let stream ← readHeader 1 stream
  let (totalCount, sessions) ← readSessions rs texts stream
  if (sessionMap sessions).toList.length ≠ totalCount then
    .error (.mismatchedCount totalCount (sessionMap sessions).toList.length)
  else .ok { m with sessions := sessionMap sessions }

def LruManager.restore (m : LruManager R) (stream : Bytes) :
    Except SessionFailure (LruManager R) := do
  let stream ← readHeader 2 stream
  let (_, sessions) ← readSessions rs texts stream
  if h : (sessions.map Session.id).Nodup then .ok { m with lru := ⟨sessions, h⟩ }
  else .error .outside

def SessionManager.restore (m : SessionManager R) (stream : Bytes) :
    Except SessionFailure (SessionManager R) :=
  match m with
  | .expired m => (m.restore rs texts stream).map .expired
  | .lru m => (m.restore rs texts stream).map .lru
  | .noOp => (readHeader 3 stream).map fun _ => .noOp

/-- An order in which the loops can go: over a map in any order, over the list of the LRU manager
from its front. -/
def SessionManager.Iterates (m : SessionManager R) (it : Iteration R) : Prop :=
  (∀ x ∈ it, x.2.Perm x.1.result.entries) ∧
  match m with
  | .expired m => (it.map Prod.fst).Perm m.sessions.toList
  | .lru m => it.map Prod.fst = m.lru.toList
  | .noOp => it = []

def SessionManager.snapshot (m : SessionManager R) (it : Iteration R) :
    Except SessionFailure Bytes :=
  match m with
  | .expired _ => writeSessions rs texts 1 it
  | .lru _ => writeSessions rs texts 2 it
  | .noOp => .ok (leBytes 8 (1 <<< 32 ||| 3))

/-- The result that is read for a result that was written. -/
def restoredResult (ar : ApplyResult R) : Except SessionFailure (ApplyResult R) :=
  match ar.error with
  | none => .ok ar
  | some e => match defaultByteSlicePool.acquire (texts.text e).length with
    | none => .error .panic
    | some _ => .ok ⟨ar.logIndex, none, some (texts.new (texts.text e))⟩

def restoredEntry (entry : ResultEntry R) : Except SessionFailure (ResultEntry R) :=
  (restoredResult texts entry.2).map fun ar => ⟨entry.1, ar⟩

def restoredSession (x : Session R × List (ResultEntry R)) : Except SessionFailure (Session R) :=
  (x.2.mapM (restoredEntry texts)).map fun entries =>
    ⟨x.1.id, x.1.lastActiveNanoseconds, resultMap entries⟩

/-- The numbers have the width of their types in the source. -/
structure Session.Fits (s : Session R) : Prop where
  id_lt : s.id < 2 ^ 64
  lastActive : -2 ^ 63 ≤ s.lastActiveNanoseconds ∧ s.lastActiveNanoseconds < 2 ^ 63
  count_lt : s.result.entries.length < 2 ^ 64
  seqNum_lt : ∀ entry ∈ s.result.entries, entry.1 < 2 ^ 64
  logIndex_lt : ∀ entry ∈ s.result.entries, entry.2.logIndex < 2 ^ 64
  text_lt : ∀ entry ∈ s.result.entries, ∀ e, entry.2.error = some e →
    (texts.text e).length < 2 ^ 63

structure SessionManager.Fits (m : SessionManager R) : Prop where
  count_lt : m.toList.length < 2 ^ 64
  sessions : ∀ s ∈ m.toList, s.Fits texts

/-- The same result, errors compared by their text. -/
structure SameResult (ar ar' : ApplyResult R) : Prop where
  logIndex : ar'.logIndex = ar.logIndex
  response : ar'.response = ar.response
  error : ar'.error.map texts.text = ar.error.map texts.text

structure SameSession (s s' : Session R) : Prop where
  id : s'.id = s.id
  lastActive : s'.lastActiveNanoseconds = s.lastActiveNanoseconds
  results : ∀ seqNum, Option.Rel (SameResult texts) (s.getResult seqNum) (s'.getResult seqNum)

/-- The same sessions, and for the LRU manager in the same order. -/
def SessionManager.Restored (m m' : SessionManager R) : Prop :=
  (∀ sessionID, Option.Rel (SameSession texts) (m.find? sessionID) (m'.find? sessionID)) ∧
  match m, m' with
  | .lru l, .lru l' => l'.lru.toList.map Session.id = l.lru.toList.map Session.id
  | _, _ => True

/-- There is no error, or an error alone whose text the allocator has room for. -/
def Restorable (ar : ApplyResult R) : Prop :=
  ∀ e, ar.error = some e →
    ar.response = none ∧ texts.text e ≠ [] ∧ (texts.text e).length ≤ 16 * 1024 * 1024

end

variable {rs : ResponseSerializer R} {texts : ErrorText}

theorem fileReadUint64_leBytes {n : Nat} (h : n < 2 ^ 64) (rest : Bytes) :
    fileReadUint64 (leBytes 8 n ++ rest) = .ok (n, rest) := by
  rw [fileReadUint64, readUint64_leBytes h]
  rfl

variable {ar : ApplyResult R}

theorem decodes_unmarshal (hrs : rs.Lawful) (hindex : ar.logIndex < 2 ^ 64)
    (htext : ∀ e, ar.error = some e → (texts.text e).length < 2 ^ 63) {data : Bytes}
    (h : ApplyResultSerializer.marshal rs texts ar = .ok data) :
    Decodes (ApplyResultSerializer.unmarshal rs texts) data (restoredResult texts ar) := by
  intro rest
  obtain ⟨logIndex, response, error⟩ := ar
  have htype : ∀ {n : Nat} (rest : Bytes), n < 4 →
      fileReadUint64 (leBytes 8 n ++ rest) = .ok (n, rest) :=
    fun rest hn => fileReadUint64_leBytes (by omega) rest
  unfold ApplyResultSerializer.marshal at h
  cases error with
  | none =>
    cases response with
    | none =>
      cases h
      simp only [ApplyResultSerializer.unmarshal, append_assoc,
        fileReadUint64_leBytes hindex, ok_bind, htype _ (show 3 < 4 by omega)]
      rfl
    | some response =>
      dsimp only at h
      split at h <;> cases h
      rename_i data' hserialize
      simp only [ApplyResultSerializer.unmarshal, append_assoc,
        fileReadUint64_leBytes hindex, ok_bind, htype _ (show 1 < 4 by omega), if_true,
        hrs response data' hserialize rest]
      rfl
  | some e =>
    cases h
    have hlength : (texts.text e).length < 2 ^ 63 := htext e rfl
    simp only [ApplyResultSerializer.unmarshal, append_assoc,
      fileReadUint64_leBytes hindex, ok_bind, htype _ (show 2 < 4 by omega),
      fileReadUint64_leBytes (show (texts.text e).length < 2 ^ 64 by omega),
      if_neg (not_le.mpr hlength), restoredResult]
    cases defaultByteSlicePool.acquire (texts.text e).length with
    | none => rfl
    | some level =>
      simp only [readFull_append]
      rfl

theorem exists_restoredResult_iff :
    (∃ ar', restoredResult texts ar = .ok ar' ∧ SameResult texts ar ar') ↔ Restorable texts ar := by
  obtain ⟨logIndex, response, error⟩ := ar
  cases error with
  | none => exact iff_of_true ⟨_, rfl, rfl, rfl, rfl⟩ nofun
  | some e =>
    have hroom := acquire_default_isSome_iff (texts.text e).length
    rw [Ne, List.length_eq_zero_iff] at hroom
    constructor
    · rintro ⟨ar', har', hsame⟩ e' he'
      cases he'
      rw [restoredResult] at har'
      dsimp only at har'
      split at har' <;> cases har'
      rename_i hacquire
      exact ⟨hsame.response.symm, hroom.mp (by rw [hacquire]; rfl)⟩
    · intro h
      obtain ⟨rfl, hacquire⟩ := h e rfl
      obtain ⟨level, hlevel⟩ := Option.isSome_iff_exists.mp (hroom.mpr hacquire)
      refine ⟨⟨logIndex, none, some (texts.new (texts.text e))⟩, ?_, rfl, rfl, ?_⟩
      · rw [restoredResult]
        dsimp only
        rw [hlevel]
      · exact congrArg some (texts.text_new _)

/-! ## One session -/

variable {entry : ResultEntry R} {part : Bytes}

theorem decodes_restoreResult (hrs : rs.Lawful) (hseq : entry.1 < 2 ^ 64)
    (hindex : entry.2.logIndex < 2 ^ 64)
    (htext : ∀ e, entry.2.error = some e → (texts.text e).length < 2 ^ 63)
    (h : (ApplyResultSerializer.marshal rs texts entry.2).map (leBytes 8 entry.1 ++ ·) = .ok part) :
    Decodes (restoreResult rs texts) part (restoredEntry texts entry) := by
  intro rest
  obtain ⟨data, hdata, rfl⟩ := map_eq_ok h
  rw [restoreResult, append_assoc, fileReadUint64_leBytes hseq, ok_bind]
  dsimp only
  rw [decodes_unmarshal hrs hindex htext hdata, restoredEntry]
  cases restoredResult texts entry.2 <;> rfl

theorem int64OfUint64_uint64OfInt64 {n : Int} (h : -2 ^ 63 ≤ n ∧ n < 2 ^ 63) :
    uint64OfInt64 n < 2 ^ 64 ∧ int64OfUint64 (uint64OfInt64 n) = n := by
  unfold int64OfUint64 uint64OfInt64
  split <;> omega

variable {entries : List (ResultEntry R)}

theorem decodes_restore (hrs : rs.Lawful) {s : Session R} (hfits : s.Fits texts)
    (hentries : entries.Perm s.result.entries) (h : s.snapshot rs texts entries = .ok part) :
    Decodes (Session.restore rs texts) part (restoredSession texts (s, entries)) := by
  intro rest
  obtain ⟨parts, hparts, h⟩ := bind_eq_ok.mp h
  cases h
  obtain ⟨hactive, hback⟩ := int64OfUint64_uint64OfInt64 hfits.lastActive
  have hcount : entries.length < 2 ^ 64 := hentries.length_eq ▸ hfits.count_lt
  have hdecodes : Decodes (readMany (restoreResult rs texts) entries.length) parts.flatten
      (entries.mapM (restoredEntry texts)) := by
    refine readMany_flatten hparts fun entry hentry part hpart => ?_
    have hmem := hentries.mem_iff.mp hentry
    exact decodes_restoreResult hrs (hfits.seqNum_lt entry hmem) (hfits.logIndex_lt entry hmem)
      (hfits.text_lt entry hmem) hpart
  simp only [Session.restore, append_assoc, fileReadUint64_leBytes hfits.id_lt, ok_bind,
    fileReadUint64_leBytes hactive, fileReadUint64_leBytes hcount, hdecodes rest, hback,
      restoredSession]
  cases entries.mapM (restoredEntry texts) <;> rfl

variable {es : List (ResultEntry R)} {seqNum : Nat}

theorem lookup_foldl_of_notMem (h : seqNum ∉ es.keys)
    (result : AList fun _ : Nat => ApplyResult R) :
    (es.foldl (fun result entry => result.insert entry.1 entry.2) result).lookup seqNum =
      result.lookup seqNum := by
  induction es generalizing result with
  | nil => rfl
  | cons entry es ih =>
    rw [keys_cons, mem_cons, not_or] at h
    rw [foldl_cons, ih h.2, AList.lookup_insert_ne h.1]

theorem lookup_foldl_of_mem (h : es.NodupKeys) (hmem : entry ∈ es)
    (result : AList fun _ : Nat => ApplyResult R) :
    (es.foldl (fun result entry => result.insert entry.1 entry.2) result).lookup entry.1 =
      some entry.2 := by
  induction es generalizing result with
  | nil => cases hmem
  | cons first es ih =>
    obtain ⟨hnew, hes⟩ := nodupKeys_cons.mp h
    rw [foldl_cons]
    rcases mem_cons.mp hmem with rfl | hmem
    · rw [lookup_foldl_of_notMem hnew, AList.lookup_insert]
    · exact ih hes hmem _

theorem keys_of_restored
    (h : List.Forall₂ (fun entry entry' => restoredEntry texts entry = .ok entry') entries es) :
    es.keys = entries.keys := by
  induction h with
  | nil => rfl
  | cons hentry _ ih =>
    obtain ⟨ar, -, rfl⟩ := map_eq_ok hentry
    rw [keys_cons, keys_cons, ih]

theorem lookup_resultMap_of_mem (hnodup : entries.NodupKeys)
    (hes : entries.mapM (restoredEntry texts) = .ok es) (hmem : ⟨seqNum, ar⟩ ∈ entries) :
    ∃ ar', restoredResult texts ar = .ok ar' ∧ (resultMap es).lookup seqNum = some ar' := by
  obtain ⟨entry', hentry', hrestored⟩ := exists_of_mapM_eq_ok hes hmem
  obtain ⟨ar', har', rfl⟩ := map_eq_ok hrestored
  have hes_nodup : es.NodupKeys := by
    rwa [List.NodupKeys, keys_of_restored (mapM_eq_ok_iff.mp hes)]
  exact ⟨ar', har', lookup_foldl_of_mem hes_nodup hentry' ∅⟩

theorem exists_restoredSession_iff {s : Session R} (hentries : entries.Perm s.result.entries) :
    (∃ s', restoredSession texts (s, entries) = .ok s' ∧ SameSession texts s s') ↔
      ∀ seqNum ar, s.getResult seqNum = some ar → Restorable texts ar := by
  have hnodup : entries.NodupKeys := (perm_nodupKeys hentries).mpr s.result.nodupKeys
  have hget : ∀ {seqNum ar}, s.getResult seqNum = some ar → ⟨seqNum, ar⟩ ∈ entries :=
    fun h => hentries.mem_iff.mpr (AList.mem_lookup_iff.mp h)
  constructor
  · rintro ⟨s', hs', hsame⟩ seqNum ar har
    obtain ⟨es, hes, rfl⟩ := map_eq_ok hs'
    obtain ⟨ar', har', hfound⟩ := lookup_resultMap_of_mem hnodup hes (hget har)
    have hrel := hsame.results seqNum
    rw [har, Session.getResult, hfound] at hrel
    cases hrel with
    | some hrel => exact exists_restoredResult_iff.mp ⟨ar', har', hrel⟩
  · intro h
    obtain ⟨es, hes⟩ : ∃ es, entries.mapM (restoredEntry texts) = .ok es := by
      refine exists_mapM_eq_ok fun entry hentry => ?_
      have hfound : s.getResult entry.1 = some entry.2 :=
        AList.mem_lookup_iff.mpr (hentries.mem_iff.mp hentry)
      obtain ⟨ar, har, -⟩ := exists_restoredResult_iff.mpr (h entry.1 entry.2 hfound)
      exact ⟨⟨entry.1, ar⟩, by rw [restoredEntry, har]; rfl⟩
    refine ⟨⟨s.id, s.lastActiveNanoseconds, resultMap es⟩, by
      rw [restoredSession, hes]; rfl, rfl, rfl, fun seqNum => ?_⟩
    cases hresult : s.getResult seqNum with
    | none =>
      have hnone : seqNum ∉ entries.keys := by
        rw [List.keys, (hentries.map Sigma.fst).mem_iff]
        exact AList.lookup_eq_none.mp hresult
      rw [← keys_of_restored (mapM_eq_ok_iff.mp hes)] at hnone
      rw [Session.getResult, resultMap, lookup_foldl_of_notMem hnone, AList.lookup_empty]
      exact .none
    | some ar =>
      obtain ⟨ar', har', hfound⟩ := lookup_resultMap_of_mem hnodup hes (hget hresult)
      obtain ⟨ar'', har'', hsame⟩ := exists_restoredResult_iff.mpr (h seqNum ar hresult)
      cases har'.symm.trans har''
      rw [Session.getResult, hfound]
      exact .some hsame

/-! ## A manager -/

variable {it : Iteration R}

theorem readSessions_eq (hrs : rs.Lawful) (hcount : it.length < 2 ^ 64)
    (hfits : ∀ x ∈ it, x.1.Fits texts) (hentries : ∀ x ∈ it, x.2.Perm x.1.result.entries)
    {parts : List Bytes} (h : it.mapM (fun x => x.1.snapshot rs texts x.2) = .ok parts) :
    readSessions rs texts (leBytes 8 it.length ++ parts.flatten) =
      (it.mapM (restoredSession texts)).map fun sessions => (it.length, sessions) := by
  have hdecodes := readMany_flatten h fun x hx part hpart => decodes_restore hrs (hfits x hx)
    (hentries x hx) hpart
  have hread := hdecodes []
  rw [append_nil] at hread
  simp only [readSessions, fileReadUint64_leBytes hcount, ok_bind, hread]
  cases it.mapM (restoredSession texts) <;> rfl

theorem readHeader_eq {fileType : Nat} (h : fileType < 4) (rest : Bytes) :
    readHeader fileType (leBytes 8 (1 <<< 32 ||| fileType) ++ rest) = .ok rest := by
  have hvalue : 1 <<< 32 ||| fileType = 2 ^ 32 + fileType :=
    (Nat.two_pow_add_eq_or_of_lt (show fileType < 2 ^ 32 by omega) 1).symm
  rw [readHeader, hvalue, fileReadUint64_leBytes (by omega), ok_bind]
  dsimp only
  rw [Nat.shiftRight_eq_div_pow, if_neg (by omega), if_neg (by omega)]

variable {sessions : List (Session R)}

theorem ids_of_restored (h : it.mapM (restoredSession texts) = .ok sessions) :
    sessions.map Session.id = (it.map Prod.fst).map Session.id := by
  have hrounds := mapM_eq_ok_iff.mp h
  clear h
  induction hrounds with
  | nil => rfl
  | cons hx _ ih =>
    obtain ⟨entries, -, rfl⟩ := map_eq_ok hx
    rw [map_cons, ih]
    rfl

variable {l l' : Keyed (Session.id : Session R → Nat)}

theorem find?_restored_iff (hentries : ∀ x ∈ it, x.2.Perm x.1.result.entries)
    (hl : (it.map Prod.fst).Perm l.toList) (hl' : l'.toList.Perm sessions)
    (h : it.mapM (restoredSession texts) = .ok sessions) :
    (∀ sessionID, Option.Rel (SameSession texts) (l.find? sessionID) (l'.find? sessionID)) ↔
      ∀ s ∈ l.toList, ∀ seqNum ar, s.getResult seqNum = some ar → Restorable texts ar := by
  have hpartner : ∀ {s}, s ∈ l.toList → ∃ entries s', (s, entries) ∈ it ∧
      restoredSession texts (s, entries) = .ok s' ∧ l'.find? s.id = some s' := by
    intro s hs
    obtain ⟨⟨s, entries⟩, hx, rfl⟩ := mem_map.mp (hl.mem_iff.mpr hs)
    obtain ⟨s', hs', hrestored⟩ := exists_of_mapM_eq_ok h hx
    obtain ⟨es, -, rfl⟩ := map_eq_ok hrestored
    exact ⟨entries, _, hx, hrestored, Keyed.find?_eq_some_iff.mpr ⟨hl'.mem_iff.mpr hs', rfl⟩⟩
  constructor
  · intro hrel s hs
    obtain ⟨entries, s', hx, hrestored, hfound⟩ := hpartner hs
    have hsame := hrel s.id
    rw [Keyed.find?_eq_some_iff.mpr ⟨hs, rfl⟩, hfound] at hsame
    cases hsame with
    | some hsame => exact (exists_restoredSession_iff (hentries _ hx)).mp ⟨s', hrestored, hsame⟩
  · intro hrestorable sessionID
    cases hfind : l.find? sessionID with
    | none =>
      have hnone : l'.find? sessionID = none := by
        rw [Keyed.find?_eq_none_iff] at hfind ⊢
        rwa [(hl'.map Session.id).mem_iff, ids_of_restored h, (hl.map Session.id).mem_iff]
      rw [hnone]
      exact .none
    | some s =>
      obtain ⟨hs, rfl⟩ := Keyed.find?_eq_some_iff.mp hfind
      obtain ⟨entries, s', hx, hrestored, hfound⟩ := hpartner hs
      obtain ⟨s'', hs'', hsame⟩ := (exists_restoredSession_iff (hentries _ hx)).mpr
        (hrestorable s hs)
      cases hrestored.symm.trans hs''
      rw [hfound]
      exact .some hsame

theorem sessionMap_perm (h : (sessions.map Session.id).Nodup) :
    (sessionMap sessions).toList.Perm sessions := by
  have heq : (sessionMap sessions).toList = sessions.reverse ++ [] :=
    Keyed.toList_foldl_pushFront (by simpa [Keyed.empty] using h)
  rw [heq, append_nil]
  exact reverse_perm sessions

section Restore

variable {stream : Bytes}
  (h : readSessions rs texts stream = (it.mapM (restoredSession texts)).map fun sessions =>
    (it.length, sessions))
  (hl : (it.map Prod.fst).Perm l.toList)

include hl in
theorem nodup_ids (h : it.mapM (restoredSession texts) = .ok sessions) :
    (sessions.map Session.id).Nodup := by
  rw [ids_of_restored h, (hl.map Session.id).nodup_iff]
  exact l.nodup

include h hl

theorem restore_expired_iff (target m' : ExpiredManager R) :
    target.restore rs texts (leBytes 8 (1 <<< 32 ||| 1) ++ stream) = .ok m' ↔
      ∃ sessions, it.mapM (restoredSession texts) = .ok sessions ∧
        m' = { target with sessions := sessionMap sessions } := by
  rw [ExpiredManager.restore, readHeader_eq (by omega), ok_bind, h]
  cases hsessions : it.mapM (restoredSession texts) with
  | error e => exact iff_of_false nofun nofun
  | ok sessions =>
    have hlength : (sessionMap sessions).toList.length = it.length := by
      rw [(sessionMap_perm (nodup_ids hl hsessions)).length_eq,
        (mapM_eq_ok_iff.mp hsessions).length_eq]
    simp only [Except.map, ok_bind, hlength, ne_eq, not_true_eq_false, if_false, Except.ok.injEq,
      exists_eq_left', eq_comm]

theorem restore_lru_iff (target m' : LruManager R) :
    target.restore rs texts (leBytes 8 (1 <<< 32 ||| 2) ++ stream) = .ok m' ↔
      ∃ sessions, it.mapM (restoredSession texts) = .ok sessions ∧
        m'.maxSessions = target.maxSessions ∧ m'.lru.toList = sessions := by
  rw [LruManager.restore, readHeader_eq (by omega), ok_bind, h]
  cases hsessions : it.mapM (restoredSession texts) with
  | error e => exact iff_of_false nofun nofun
  | ok sessions =>
    simp only [Except.map, ok_bind, dif_pos (nodup_ids hl hsessions), Except.ok.injEq,
      exists_eq_left']
    constructor
    · rintro rfl
      exact ⟨rfl, rfl⟩
    · obtain ⟨maxSessions, lru⟩ := m'
      rintro ⟨rfl, rfl⟩
      rfl

end Restore

def SessionManager.SameType : SessionManager R → SessionManager R → Prop
  | .expired _, .expired _ | .lru _, .lru _ | .noOp, .noOp => True
  | _, _ => False

/-- What `Snapshot` writes is restored exactly if every result is restorable. -/
theorem sessions_restored_iff (rs : ResponseSerializer R) (texts : ErrorText)
    (m target : SessionManager R) (it : Iteration R) (bytes : Bytes) (hrs : rs.Lawful)
    (htype : target.SameType m) (hfits : m.Fits texts) (hit : m.Iterates it)
    (hbytes : m.snapshot rs texts it = .ok bytes) :
    (∃ m', target.restore rs texts bytes = .ok m' ∧ m.Restored texts m') ↔
      ∀ s ∈ m.toList, ∀ seqNum ar, s.getResult seqNum = some ar → Restorable texts ar := by
  obtain ⟨hentries, hit⟩ := hit
  have hread : (it.map Prod.fst).Perm m.toList → ∀ {parts},
      it.mapM (fun x => x.1.snapshot rs texts x.2) = .ok parts →
      readSessions rs texts (leBytes 8 it.length ++ parts.flatten) =
        (it.mapM (restoredSession texts)).map fun sessions => (it.length, sessions) := by
    intro hperm parts hparts
    have hlength : it.length = m.toList.length := by
      rw [← hperm.length_eq, length_map]
    refine readSessions_eq hrs (hlength ▸ hfits.count_lt) (fun x hx => ?_) hentries hparts
    exact hfits.sessions x.1 (hperm.mem_iff.mp (mem_map_of_mem hx))
  have hexists : (it.map Prod.fst).Perm m.toList →
      (∀ s ∈ m.toList, ∀ seqNum ar, s.getResult seqNum = some ar → Restorable texts ar) →
      ∃ sessions, it.mapM (restoredSession texts) = .ok sessions := by
    refine fun hperm hall => exists_mapM_eq_ok fun x hx => ?_
    obtain ⟨s', hs', -⟩ := (exists_restoredSession_iff (hentries x hx)).mpr
      (hall x.1 (hperm.mem_iff.mp (mem_map_of_mem hx)))
    exact ⟨s', hs'⟩
  cases m with
  | noOp =>
    cases target with
    | noOp =>
      cases hbytes
      have hheader := readHeader_eq (show 3 < 4 by omega) []
      rw [append_nil] at hheader
      refine iff_of_true ⟨.noOp, ?_, fun _ => .none, trivial⟩ nofun
      rw [SessionManager.restore, hheader]
      rfl
    | expired target | lru target => cases htype
  | expired m =>
    cases target with
    | noOp | lru target => cases htype
    | expired target =>
      obtain ⟨parts, hparts, hbytes⟩ := bind_eq_ok.mp hbytes
      cases hbytes
      rw [append_assoc]
      have hrestore := restore_expired_iff (hread hit hparts) hit target
      constructor
      · rintro ⟨m', hm', hrel, -⟩
        obtain ⟨restored, hrestored, rfl⟩ := map_eq_ok hm'
        obtain ⟨sessions, hsessions, rfl⟩ := (hrestore restored).mp hrestored
        exact (find?_restored_iff hentries hit (sessionMap_perm (nodup_ids hit hsessions))
          hsessions).mp hrel
      · intro hall
        obtain ⟨sessions, hsessions⟩ := hexists hit hall
        refine ⟨.expired { target with sessions := sessionMap sessions }, ?_, ?_, trivial⟩
        · rw [SessionManager.restore, (hrestore _).mpr ⟨sessions, hsessions, rfl⟩]
          rfl
        · exact (find?_restored_iff hentries hit (sessionMap_perm (nodup_ids hit hsessions))
            hsessions).mpr hall
  | lru m =>
    cases target with
    | noOp | expired target => cases htype
    | lru target =>
      have hperm : (it.map Prod.fst).Perm m.lru.toList := List.Perm.of_eq hit
      obtain ⟨parts, hparts, hbytes⟩ := bind_eq_ok.mp hbytes
      cases hbytes
      rw [append_assoc]
      have hrestore := restore_lru_iff (hread hperm hparts) hperm target
      constructor
      · rintro ⟨m', hm', hrel, -⟩
        obtain ⟨restored, hrestored, rfl⟩ := map_eq_ok hm'
        obtain ⟨sessions, hsessions, -, hlist⟩ := (hrestore restored).mp hrestored
        exact (find?_restored_iff hentries hperm (List.Perm.of_eq hlist) hsessions).mp hrel
      · intro hall
        obtain ⟨sessions, hsessions⟩ := hexists hperm hall
        refine ⟨.lru ⟨target.maxSessions, ⟨sessions, nodup_ids hperm hsessions⟩⟩, ?_, ?_, ?_⟩
        · rw [SessionManager.restore,
            (hrestore ⟨target.maxSessions, ⟨sessions, nodup_ids hperm hsessions⟩⟩).mpr
              ⟨sessions, hsessions, rfl, rfl⟩]
          rfl
        · exact (find?_restored_iff hentries hperm (.refl sessions) hsessions).mpr hall
        · exact (ids_of_restored hsessions).trans (congrArg (List.map Session.id) hit)

def exampleTexts : ErrorText where
  text
    | .stateMachine text => text.toList.map Char.toUInt8
    | _ => []
  new bytes := .stateMachine (String.ofList (bytes.map Char.ofUInt8))
  text_new bytes := by
    have hbyte : ∀ byte, (Char.ofUInt8 byte).toUInt8 = byte := UInt8.toUInt8_toUInt32
    simp [map_map, Function.comp_def, hbyte]

def exampleSerializer : ResponseSerializer Unit where
  serialize
    | .value () => some [1]
    | _ => none
  deserialize
    | 1 :: rest => some (.value (), rest)
    | _ => none

theorem exampleSerializer_lawful : exampleSerializer.Lawful := by
  intro response data h rest
  cases response with
  | value r =>
    cases h
    rfl
  | confState cs | clusterError e => cases h

def exampleSessions (ar : ApplyResult Unit) : SessionManager Unit :=
  .lru ⟨128, ⟨[⟨7, -1, AList.insert 3 ar ∅⟩], by simp⟩⟩

def exampleIteration (ar : ApplyResult Unit) : Iteration Unit :=
  [(⟨7, -1, AList.insert 3 ar ∅⟩, [⟨3, ar⟩])]

/-- The empty text of an error makes `Restore` panic, and the response beside an error is lost. -/
theorem results_not_restored :
    (∃ bytes, (exampleSessions ⟨9, none, some (.stateMachine "")⟩).snapshot exampleSerializer
        exampleTexts (exampleIteration ⟨9, none, some (.stateMachine "")⟩) = .ok bytes ∧
      (exampleSessions .empty).restore exampleSerializer exampleTexts bytes = .error .panic) ∧
    ∃ bytes, (exampleSessions ⟨9, some (.value ()), some (.stateMachine "e")⟩).snapshot
        exampleSerializer exampleTexts
        (exampleIteration ⟨9, some (.value ()), some (.stateMachine "e")⟩) = .ok bytes ∧
      ((exampleSessions .empty).restore exampleSerializer exampleTexts bytes).map
        (fun m' => (m'.getResult (.registered 7) 3).map (·.response)) = .ok (some none) := by
  refine ⟨⟨_, rfl, ?_⟩, ⟨_, rfl, ?_⟩⟩
  · decide +kernel
  · decide +kernel

theorem response_restored :
    ∃ bytes m', (exampleSessions ⟨9, some (.value ()), none⟩).snapshot exampleSerializer
      exampleTexts (exampleIteration ⟨9, some (.value ()), none⟩) = .ok bytes ∧
      (exampleSessions .empty).restore exampleSerializer exampleTexts bytes = .ok m' ∧
      (exampleSessions ⟨9, some (.value ()), none⟩).Restored exampleTexts m' := by
  have hfits : (exampleSessions ⟨9, some (.value ()), none⟩).Fits exampleTexts := by
    refine ⟨by decide, ?_⟩
    simp only [exampleSessions, SessionManager.toList, forall_mem_singleton]
    constructor
    · decide
    · decide
    · decide
    · decide
    · decide
    · rintro entry hentry e he
      cases mem_singleton.mp hentry
      cases he
  have hiterates : (exampleSessions ⟨9, some (.value ()), none⟩).Iterates
      (exampleIteration ⟨9, some (.value ()), none⟩) :=
    ⟨forall_mem_singleton.mpr (.refl _), rfl⟩
  obtain ⟨bytes, hbytes⟩ := exists_eq_ok
    (x := (exampleSessions ⟨9, some (.value ()), none⟩).snapshot exampleSerializer exampleTexts
      (exampleIteration ⟨9, some (.value ()), none⟩)) (by decide +kernel)
  have htype : (exampleSessions .empty).SameType (exampleSessions ⟨9, some (.value ()), none⟩) :=
    trivial
  obtain ⟨m', hm', hrestored⟩ := (sessions_restored_iff exampleSerializer exampleTexts _
    (exampleSessions .empty) _ bytes exampleSerializer_lawful htype hfits hiterates hbytes).mpr (by
      simp only [exampleSessions, SessionManager.toList, forall_mem_singleton]
      intro seqNum ar har e he
      have hmem := AList.mem_lookup_iff.mp har
      cases mem_singleton.mp hmem
      cases he)
  exact ⟨bytes, m', hbytes, hm', hrestored⟩

end Babuza
