import Babuza.Ibabuza
import Babuza.Lib.Keyed
import Babuza.Lib.Run

/-!
# Sessions

`pkg/session`: a session keeps the results of a client's requests, by sequence number, until the
client says that it has seen them. The expiring manager forgets sessions that were not active for
some time, the LRU manager those that were not used for longest. What an operation does to a session
is said by one lemma for all managers. A `SessionHandle` stands for a pointer to a session.
-/

namespace Babuza

open Lib

variable {R : Type}

structure Session (R : Type) where
  id : Nat
  lastActiveNanoseconds : Int
  result : AList fun _ : Nat => ApplyResult R
  deriving DecidableEq

namespace Session

def newSession (sid : Nat) (lastActiveNanoseconds : Int) : Session R :=
  ⟨sid, lastActiveNanoseconds, ∅⟩

def clearResult (s : Session R) (lowestSeqNumNotYetReplied : Nat) : Session R :=
  { s with result := eraseWhere (fun seq => seq < lowestSeqNumNotYetReplied) s.result }

def getResult (s : Session R) (seqNum : Nat) : Option (ApplyResult R) := s.result.lookup seqNum

def repeatSequenceNum (s : Session R) (seqNum : Nat) : Bool := (s.getResult seqNum).isSome

/-- The session after a successful `AddResult`, see `SessionManager.addResult`. -/
def withResult (s : Session R) (sequenceNum : Nat) (lastActiveNanoseconds : Int)
    (result : ApplyResult R) : Session R :=
  { s with
    lastActiveNanoseconds := lastActiveNanoseconds
    result := s.result.insert sequenceNum result }

@[simp] theorem getResult_newSession (sid : Nat) (now : Int) (seq : Nat) :
    (newSession sid now : Session R).getResult seq = none :=
  AList.lookup_empty seq

theorem getResult_clearResult (s : Session R) (lowest seq : Nat) :
    (s.clearResult lowest).getResult seq = if seq < lowest then none else s.getResult seq := by
  simp [getResult, clearResult, lookup_eraseWhere]

theorem getResult_withResult (s : Session R) (seq seq' : Nat) (now : Int) (ar : ApplyResult R) :
    (s.withResult seq now ar).getResult seq' = if seq' = seq then some ar
      else s.getResult seq' := by
  unfold getResult withResult
  by_cases heq : seq' = seq
  · rw [heq, if_pos rfl, AList.lookup_insert]
  · rw [if_neg heq, AList.lookup_insert_ne heq]

end Session

structure ExpiredManager (R : Type) where
  expiredTime : Int
  sessions : Keyed (Session.id : Session R → Nat)
  deriving DecidableEq

namespace ExpiredManager

def register (m : ExpiredManager R) (sessionID : Nat) (lastActivateTime : Int) :
    Except SessionError (ExpiredManager R) :=
  if (m.sessions.find? sessionID).isSome then .error (.alreadyExists sessionID)
  else .ok { m with sessions := m.sessions.pushFront (.newSession sessionID lastActivateTime) }

def unRegister (m : ExpiredManager R) (sessionID : Nat) :
    Except SessionError (ExpiredManager R) :=
  if (m.sessions.find? sessionID).isNone then .error (.notFound sessionID)
  else .ok { m with sessions := m.sessions.erase sessionID }

/-- The test that `ExpireSession` makes; the sum is an `int64` and wraps. -/
def isExpired (m : ExpiredManager R) (currentNanoseconds : Int) (s : Session R) : Bool :=
  (s.lastActiveNanoseconds + m.expiredTime).bmod (2 ^ 64) ≤ currentNanoseconds

def expireSession (m : ExpiredManager R) (currentNanoseconds : Int) : ExpiredManager R :=
  { m with sessions := m.sessions.filter fun s => !m.isExpired currentNanoseconds s }

end ExpiredManager

/-- The sessions stand in the order of their last use, the latest first. -/
structure LruManager (R : Type) where
  maxSessions : Int
  lru : Keyed (Session.id : Session R → Nat)
  deriving DecidableEq

namespace LruManager

def getSession (m : LruManager R) (sessionID : Nat) : LruManager R :=
  { m with lru := m.lru.moveToFront sessionID }

def register (m : LruManager R) (sessionID : Nat) (lastActivateTime : Int) :
    Except SessionError (LruManager R) :=
  if (m.lru.find? sessionID).isSome then .error (.alreadyExists sessionID)
  else
    let lru := m.lru.pushFront (.newSession sessionID lastActivateTime)
    .ok { m with lru := if (lru.toList.length : Int) > m.maxSessions then lru.dropLast else lru }

def unRegister (m : LruManager R) (sessionID : Nat) : Except SessionError (LruManager R) :=
  if (m.lru.find? sessionID).isNone then .error (.notFound sessionID)
  else .ok { m with lru := m.lru.erase sessionID }

end LruManager

inductive SessionManager (R : Type)
  | expired (m : ExpiredManager R)
  | lru (m : LruManager R)
  | noOp
  deriving DecidableEq

/-- An `ibabuza.Session`: the no-op session, or one of a manager's. -/
inductive SessionHandle
  | noOp
  | registered (sessionID : Nat)
  deriving DecidableEq

variable (m : SessionManager R) {h : SessionHandle} {sid : Nat} {s : Session R} {seq : Nat}
  {now : Int} {k : Nat} {ar : ApplyResult R}

namespace SessionManager

def find? : SessionManager R → Nat → Option (Session R)
  | expired m, sessionID => m.sessions.find? sessionID
  | lru m, sessionID => m.lru.find? sessionID
  | noOp, _ => none

def toList : SessionManager R → List (Session R)
  | expired m => m.sessions.toList
  | lru m => m.lru.toList
  | noOp => []

def getSession (m : SessionManager R) (sessionID : Nat) :
    Except SessionError (SessionHandle × SessionManager R) :=
  match m with
  | noOp => .ok (.noOp, m)
  | expired e =>
    if sessionID = 0 then .ok (.noOp, m)
    else if (e.sessions.find? sessionID).isNone then .error (.notFound sessionID)
    else .ok (.registered sessionID, m)
  | lru l =>
    if sessionID = 0 then .ok (.noOp, m)
    else if (l.lru.find? sessionID).isNone then .error (.notFound sessionID)
    else .ok (.registered sessionID, lru (l.getSession sessionID))

def register (m : SessionManager R) (sessionID : Nat) (lastActivateTime : Int) :
    Except SessionError (SessionManager R) :=
  match m with
  | noOp => .ok m
  | expired e => (e.register sessionID lastActivateTime).map expired
  | lru l => (l.register sessionID lastActivateTime).map lru

def unRegister (m : SessionManager R) (sessionID : Nat) : Except SessionError (SessionManager R) :=
  match m with
  | noOp => .ok m
  | expired e => (e.unRegister sessionID).map expired
  | lru l => (l.unRegister sessionID).map lru

def expireSession (m : SessionManager R) (currentNanoseconds : Int) : SessionManager R :=
  match m with
  | expired e => expired (e.expireSession currentNanoseconds)
  | _ => m

def modify (m : SessionManager R) (sessionID : Nat) (f : Session R → Session R)
    (hf : ∀ s, (f s).id = s.id) : SessionManager R :=
  match m with
  | noOp => m
  | expired e => expired { e with sessions := e.sessions.modify sessionID f hf }
  | lru l => lru { l with lru := l.lru.modify sessionID f hf }

def session? (m : SessionManager R) : SessionHandle → Option (Session R)
  | .noOp => none
  | .registered sessionID => m.find? sessionID

def repeatSequenceNum (m : SessionManager R) (h : SessionHandle) (seqNum : Nat) : Bool :=
  match m.session? h with
  | none => false
  | some s => s.repeatSequenceNum seqNum

def getResult (m : SessionManager R) (h : SessionHandle) (seqNum : Nat) : Option (ApplyResult R) :=
  (m.session? h).bind fun s => s.getResult seqNum

def clearResult (m : SessionManager R) (h : SessionHandle) (lowestSeqNumNotYetReplied : Nat) :
    SessionManager R :=
  match h with
  | .noOp => m
  | .registered sessionID =>
    m.modify sessionID (·.clearResult lowestSeqNumNotYetReplied) fun _ => rfl

def addResult (m : SessionManager R) (h : SessionHandle) (sequenceNum : Nat)
    (lastActiveNanoseconds : Int) (ar : ApplyResult R) :
    Except SessionError (SessionManager R) :=
  match h with
  | .noOp => .ok m
  | .registered sessionID =>
    if m.repeatSequenceNum h sequenceNum then .error (.sequenceNumberExists sequenceNum)
    else .ok (m.modify sessionID (·.withResult sequenceNum lastActiveNanoseconds ar) fun _ => rfl)

/-! ### What the operations do to the sessions -/

theorem getSession_eq_ok {m m' : SessionManager R} (hget : m.getSession sid = .ok (h, m')) :
    (h = .noOp ∧ m' = m) ∨ (h = .registered sid ∧ (m.find? sid).isSome ∧
      ∀ k, m'.find? k = m.find? k) := by
  cases m with
  | noOp =>
    cases hget
    exact .inl ⟨rfl, rfl⟩
  | expired e | lru l =>
    simp only [getSession] at hget
    split at hget
    · cases hget
      exact .inl ⟨rfl, rfl⟩
    · split at hget <;> cases hget
      rename_i hsome
      refine .inr ⟨rfl, Option.ne_none_iff_isSome.mp (by simpa [find?] using hsome), fun k => ?_⟩
      first | rfl | exact Keyed.find?_moveToFront _ _ k

theorem registered_of_getSession {m m' : SessionManager R} (hget : m.getSession sid = .ok (h, m'))
    (hk : h = .registered k) : k = sid := by
  rcases getSession_eq_ok hget with ⟨hno, -⟩ | ⟨hreg, -⟩
  · rw [hk] at hno
    cases hno
  · rw [hk] at hreg
    cases hreg
    rfl

theorem find?_modify_self (sid : Nat) (f : Session R → Session R) (hf : ∀ s, (f s).id = s.id) :
    (m.modify sid f hf).find? sid = (m.find? sid).map f := by
  cases m with
  | noOp => rfl
  | expired e | lru l => exact Keyed.find?_modify_self _ _ f hf

theorem find?_modify_ne (f : Session R → Session R) (hf : ∀ s, (f s).id = s.id) (hne : k ≠ sid) :
    (m.modify sid f hf).find? k = m.find? k := by
  cases m with
  | noOp => rfl
  | expired e | lru l => exact Keyed.find?_modify_ne _ f hf hne

theorem find?_modify_eq_some {m : SessionManager R} {f : Session R → Session R}
    {hf : ∀ s, (f s).id = s.id} (hfind : (m.modify sid f hf).find? k = some s) :
    ∃ s', m.find? k = some s' ∧ (s = s' ∨ k = sid ∧ s = f s') := by
  by_cases heq : k = sid
  · rw [heq, find?_modify_self] at hfind
    obtain ⟨s', hfind', rfl⟩ := Option.map_eq_some_iff.mp hfind
    exact ⟨s', by rwa [heq], .inr ⟨heq, rfl⟩⟩
  · exact ⟨s, (find?_modify_ne _ _ _ heq).symm.trans hfind, .inl rfl⟩

theorem find?_register {m m' : SessionManager R} (hreg : m.register sid now = .ok m')
    (hfind : m'.find? k = some s) : (k = sid ∧ s = .newSession sid now) ∨ m.find? k = some s := by
  have hpush : ∀ l : Keyed (Session.id : Session R → Nat),
      (l.pushFront (.newSession sid now)).find? k = some s →
      (k = sid ∧ s = .newSession sid now) ∨ l.find? k = some s := by
    intro l hl
    by_cases heq : k = sid
    · rw [heq] at hl ⊢
      exact .inl ⟨rfl, Option.some.inj (hl.symm.trans (l.find?_pushFront_self _))⟩
    · exact .inr ((l.find?_pushFront_ne heq).symm.trans hl)
  cases m with
  | noOp =>
    cases hreg
    exact .inr hfind
  | expired e =>
    simp only [register, ExpiredManager.register] at hreg
    split at hreg <;> cases hreg
    exact hpush _ hfind
  | lru l =>
    simp only [register, LruManager.register] at hreg
    split at hreg <;> cases hreg
    refine hpush _ ?_
    split at hfind
    · exact Keyed.find?_of_dropLast hfind
    · exact hfind

theorem find?_unRegister {m m' : SessionManager R} (hunreg : m.unRegister sid = .ok m')
    (hfind : m'.find? k = some s) : m.find? k = some s := by
  have herase : ∀ l : Keyed (Session.id : Session R → Nat),
      (l.erase sid).find? k = some s → l.find? k = some s := by
    intro l hl
    rw [Keyed.erase, Keyed.find?_filter, Option.filter_eq_some_iff] at hl
    exact hl.1
  cases m with
  | noOp =>
    cases hunreg
    exact hfind
  | expired e | lru l =>
    simp only [unRegister, ExpiredManager.unRegister, LruManager.unRegister] at hunreg
    split at hunreg <;> cases hunreg
    exact herase _ hfind

theorem find?_expireSession {m : SessionManager R}
    (hfind : (m.expireSession now).find? k = some s) : m.find? k = some s := by
  cases m with
  | noOp | lru l => exact hfind
  | expired e =>
    simp only [expireSession, ExpiredManager.expireSession, find?, Keyed.find?_filter,
      Option.filter_eq_some_iff] at hfind
    exact hfind.1

theorem repeatSequenceNum_eq (h : SessionHandle) (seq : Nat) :
    m.repeatSequenceNum h seq = (m.getResult h seq).isSome := by
  unfold repeatSequenceNum getResult
  cases m.session? h <;> rfl

theorem getResult_registered {m : SessionManager R} (hfind : m.find? sid = some s) (seq : Nat) :
    m.getResult (.registered sid) seq = s.getResult seq := by
  simp [getResult, session?, hfind]

theorem getResult_clearResult {m : SessionManager R} (hnone : m.getResult h seq = none)
    (lowest : Nat) : (m.clearResult h lowest).getResult h seq = none := by
  cases h with
  | noOp => rfl
  | registered sid =>
    have hself := find?_modify_self m sid (·.clearResult lowest) fun _ => rfl
    simp only [getResult, session?, clearResult] at hnone ⊢
    rw [hself]
    cases hfind : m.find? sid with
    | none => rfl
    | some s =>
      rw [hfind, Option.bind_some] at hnone
      simp [Session.getResult_clearResult, hnone]

theorem addResult_of_none {m : SessionManager R} (hnone : m.getResult h seq = none) (now : Int)
    (ar : ApplyResult R) : ∃ m', m.addResult h seq now ar = .ok m' := by
  cases h with
  | noOp => exact ⟨m, rfl⟩
  | registered sid => exact ⟨_, by rw [addResult, repeatSequenceNum_eq, hnone]; rfl⟩

theorem addResult_of_some {m : SessionManager R} {stored : ApplyResult R}
    (hsome : m.getResult h seq = some stored) (now : Int) (ar : ApplyResult R) :
    m.addResult h seq now ar = .error (.sequenceNumberExists seq) := by
  cases h with
  | noOp => cases hsome
  | registered sid => rw [addResult, repeatSequenceNum_eq, hsome]; rfl

theorem addResult_eq_modify {m m' : SessionManager R}
    (hadd : m.addResult (.registered sid) seq now ar = .ok m') :
    m' = m.modify sid (·.withResult seq now ar) fun _ => rfl := by
  simp only [addResult] at hadd
  split at hadd <;> cases hadd
  rfl

theorem find?_addResult_self {m m' : SessionManager R} (hfind : m.find? sid = some s)
    (hadd : m.addResult (.registered sid) seq now ar = .ok m') :
    m'.find? sid = some (s.withResult seq now ar) := by
  rw [addResult_eq_modify hadd]
  exact (find?_modify_self m sid _ _).trans (congrArg _ hfind)

/-! ### The kind of a manager -/

def tracks : SessionManager R → Bool
  | noOp => false
  | _ => true

theorem tracks_getSession {m m' : SessionManager R} (hget : m.getSession sid = .ok (h, m')) :
    m'.tracks = m.tracks := by
  cases m with
  | noOp => cases hget; rfl
  | expired e | lru l =>
    simp only [getSession] at hget
    split at hget
    · cases hget; rfl
    · split at hget
      · cases hget
      · cases hget; rfl

@[simp] theorem tracks_modify (sid : Nat) (f : Session R → Session R) (hf : ∀ s, (f s).id = s.id) :
    (m.modify sid f hf).tracks = m.tracks := by
  cases m <;> rfl

@[simp] theorem tracks_expireSession (now : Int) : (m.expireSession now).tracks = m.tracks := by
  cases m <;> rfl

@[simp] theorem tracks_clearResult (h : SessionHandle) (lowest : Nat) :
    (m.clearResult h lowest).tracks = m.tracks := by
  cases h with
  | noOp => rfl
  | registered sid => exact tracks_modify _ _ _ _

theorem tracks_addResult {m m' : SessionManager R} (hadd : m.addResult h seq now ar = .ok m') :
    m'.tracks = m.tracks := by
  cases h with
  | noOp => cases hadd; rfl
  | registered sid => exact addResult_eq_modify hadd ▸ tracks_modify _ _ _ _

theorem tracks_register {m m' : SessionManager R} (hreg : m.register sid now = .ok m') :
    m'.tracks = m.tracks := by
  cases m with
  | noOp => cases hreg; rfl
  | expired e | lru l => obtain ⟨_, -, rfl⟩ := map_eq_ok hreg; rfl

theorem tracks_unRegister {m m' : SessionManager R} (hunreg : m.unRegister sid = .ok m') :
    m'.tracks = m.tracks := by
  cases m with
  | noOp => cases hunreg; rfl
  | expired e | lru l => obtain ⟨_, -, rfl⟩ := map_eq_ok hunreg; rfl

theorem getSession_zero : m.getSession 0 = .ok (.noOp, m) := by
  cases m <;> rfl

theorem getSession_none {m : SessionManager R} (htracks : m.tracks) (hne : sid ≠ 0)
    (hfind : m.find? sid = none) : m.getSession sid = .error (.notFound sid) := by
  cases m with
  | noOp => cases htracks
  | expired e | lru l =>
    simp only [find?] at hfind
    simp [getSession, hne, hfind]

theorem getSession_some {m : SessionManager R} (hne : sid ≠ 0) (hfind : m.find? sid = some s) :
    ∃ m', m.getSession sid = .ok (.registered sid, m') ∧ ∀ k, m'.find? k = m.find? k := by
  cases m with
  | noOp => cases hfind
  | expired e =>
    have hfind : e.sessions.find? sid = some s := hfind
    exact ⟨expired e, by simp [getSession, hne, hfind], fun _ => rfl⟩
  | lru l =>
    have hfind : l.lru.find? sid = some s := hfind
    exact ⟨lru (l.getSession sid), by simp [getSession, hne, hfind],
      fun k => Keyed.find?_moveToFront _ _ k⟩

theorem find?_eq_some_iff {m : SessionManager R} :
    m.find? sid = some s ↔ s ∈ m.toList ∧ s.id = sid := by
  cases m with
  | noOp => simp [find?, toList]
  | expired e | lru l => exact Keyed.find?_eq_some_iff

/-! ### Up to the clock -/

end SessionManager

def Session.forget (s : Session R) : Session R := { s with lastActiveNanoseconds := 0 }

@[simp] theorem Session.id_forget (s : Session R) : s.forget.id = s.id := rfl

namespace SessionManager

def forget : SessionManager R → SessionManager R
  | expired m => expired { m with sessions := m.sessions.map Session.forget Session.id_forget }
  | lru m => lru { m with lru := m.lru.map Session.forget Session.id_forget }
  | noOp => noOp

@[simp] theorem find?_forget (sid : Nat) :
    m.forget.find? sid = (m.find? sid).map Session.forget := by
  cases m with
  | noOp => rfl
  | expired e | lru l => exact Keyed.find?_map _ _ Session.id_forget _

theorem getResult_forget (h : SessionHandle) (seq : Nat) :
    m.forget.getResult h seq = m.getResult h seq := by
  cases h with
  | noOp => rfl
  | registered sid =>
    simp only [getResult, session?, find?_forget]
    cases m.find? sid <;> rfl

theorem getSession_forget (sid : Nat) :
    m.forget.getSession sid = (m.getSession sid).map fun p => (p.1, p.2.forget) := by
  cases m with
  | noOp => rfl
  | expired e =>
    simp only [forget, getSession, Keyed.find?_map, Option.isNone_map]
    split
    · rfl
    · split <;> rfl
  | lru l =>
    simp only [forget, getSession, Keyed.find?_map, Option.isNone_map, LruManager.getSession]
    split
    · rfl
    · split
      · rfl
      · rw [← Keyed.map_moveToFront]
        rfl

theorem register_forget (sid : Nat) (now : Int) :
    m.forget.register sid 0 = (m.register sid now).map forget := by
  cases m with
  | noOp => rfl
  | expired e =>
    simp only [forget, register, ExpiredManager.register, Keyed.find?_map, Option.isSome_map]
    split
    · rfl
    · simp only [Except.map, forget, Keyed.map_pushFront]
      rfl
  | lru l =>
    have hpush : (l.lru.pushFront (.newSession sid now)).map Session.forget Session.id_forget =
        (l.lru.map Session.forget Session.id_forget).pushFront (.newSession sid 0) :=
      Keyed.map_pushFront _ Session.id_forget _ _
    simp only [forget, register, LruManager.register, Keyed.find?_map, Option.isSome_map]
    split
    · rfl
    · simp only [Except.map, forget, ← hpush]
      congr 2
      have hlength : ((l.lru.pushFront (.newSession sid now)).map Session.forget
          Session.id_forget).toList.length =
            (l.lru.pushFront (.newSession sid now)).toList.length :=
        List.length_map _
      rw [hlength]
      split
      · rw [Keyed.map_dropLast]
      · rfl

theorem unRegister_forget (sid : Nat) :
    m.forget.unRegister sid = (m.unRegister sid).map forget := by
  cases m with
  | noOp => rfl
  | expired e | lru l =>
    simp only [forget, unRegister, ExpiredManager.unRegister, LruManager.unRegister,
      Keyed.find?_map, Option.isNone_map]
    split
    · rfl
    · simp only [Except.map, forget, Keyed.map_erase]

theorem modify_forget (sid : Nat) {f g : Session R → Session R} (hf : ∀ s, (f s).id = s.id)
    (hg : ∀ s, (g s).id = s.id) (hcomm : ∀ s, (f s).forget = g s.forget) :
    m.forget.modify sid g hg = (m.modify sid f hf).forget := by
  cases m with
  | noOp => rfl
  | expired e | lru l =>
    simp only [forget, modify]
    rw [Keyed.map_modify Session.forget Session.id_forget _ _ hf hg hcomm]

theorem clearResult_forget (h : SessionHandle) (lowest : Nat) :
    m.forget.clearResult h lowest = (m.clearResult h lowest).forget := by
  cases h with
  | noOp => rfl
  | registered sid => exact modify_forget m sid _ _ fun _ => rfl

theorem addResult_forget (h : SessionHandle) (seq : Nat) (now : Int) (ar : ApplyResult R) :
    m.forget.addResult h seq 0 ar = (m.addResult h seq now ar).map forget := by
  cases h with
  | noOp => rfl
  | registered sid =>
    simp only [addResult, repeatSequenceNum_eq, getResult_forget]
    split
    · rfl
    · exact congrArg Except.ok (modify_forget m sid _ _ fun _ => rfl)

end SessionManager

end Babuza
