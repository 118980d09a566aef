import Babuza.Lib.LinkedMap
import Babuza.SessionSnapshot

/-!
# The map and the list of the LRU manager

`pkg/session/lru_manager.go` with its two containers: a map from the ids of the sessions to elements
of a list, and the list in the order of last use. They agree in every run (`LinkedMap.Linked`), and
the order of the list is the order in which its sessions were last used (`Recent`), also across a
restore.
-/

namespace Babuza

open Lib List

variable {R : Type}

/-- The manager, with the map `sessions` and the list `lru`. -/
structure LruLists (R : Type) where
  maxSessions : Int
  lists : LinkedMap Nat (Session R)

variable {m m' : LruLists R} {sessionID : Nat} {rs : ResponseSerializer R} {texts : ErrorText}

namespace LruLists

def newLruManager (maxSessions : Int) : LruLists R := ⟨maxSessions, .empty 0⟩

def ids (m : LruLists R) : List Nat := m.lists.keys Session.id

def getSession (m : LruLists R) (sessionID : Nat) :
    Except SessionError (SessionHandle × LruLists R) :=
  if sessionID = 0 then .ok (.noOp, m)
  else match m.lists.map.lookup sessionID with
    | none => .error (.notFound sessionID)
    | some e => .ok (.registered sessionID, { m with lists := m.lists.moveToFront e })

def register (m : LruLists R) (sessionID : Nat) (lastActivateTime : Int) :
    Except SessionError (LruLists R) :=
  if (m.lists.map.lookup sessionID).isSome then .error (.alreadyExists sessionID)
  else
    let lists := m.lists.pushFront sessionID (.newSession sessionID lastActivateTime)
    .ok { m with lists := lists.evict Session.id m.maxSessions }

def unRegister (m : LruLists R) (sessionID : Nat) : Except SessionError (LruLists R) :=
  match m.lists.map.lookup sessionID with
  | none => .error (.notFound sessionID)
  | some e => .ok { m with lists := m.lists.remove e sessionID }

def restore (rs : ResponseSerializer R) (texts : ErrorText) (m : LruLists R) (stream : Bytes) :
    Except SessionFailure (LruLists R) := do
  let stream ← readHeader 2 stream
  let (totalCount, sessions) ← readSessions rs texts stream
  let lists := sessions.foldl (fun lists s => lists.pushBack s.id s) (.empty m.lists.fresh)
  if lists.list.length ≠ totalCount then
    .error (.mismatchedCount totalCount lists.map.entries.length)
  else .ok { m with lists := lists }

/-! ## The map and the list agree -/

section

variable (h : m.lists.Linked Session.id)
include h

theorem linked_register {now : Int} (hreg : m.register sessionID now = .ok m') :
    sessionID ∉ m.ids ∧ m'.lists.Linked Session.id ∧ m'.maxSessions = m.maxSessions ∧
      m'.ids = if m.maxSessions < m.ids.length + 1 then (sessionID :: m.ids).dropLast
        else sessionID :: m.ids := by
  rw [register] at hreg
  split at hreg <;> cases hreg
  rename_i hnone
  have hnew : sessionID ∉ m.ids := h.lookup_eq_none.mp (Option.not_isSome_iff_eq_none.mp hnone)
  obtain ⟨hlinked, hids⟩ :=
    (h.pushFront (a := .newSession sessionID now) hnew).evict m.maxSessions
  exact ⟨hnew, hlinked, rfl, hids⟩

theorem linked_getSession {handle : SessionHandle}
    (hget : m.getSession sessionID = .ok (handle, m')) :
    m'.lists.Linked Session.id ∧ m'.maxSessions = m.maxSessions ∧ (handle = .noOp ∧ m' = m ∨
      handle = .registered sessionID ∧ sessionID ∈ m.ids ∧
        m'.ids = sessionID :: m.ids.erase sessionID) := by
  rw [getSession] at hget
  split at hget
  · cases hget
    exact ⟨h, rfl, .inl ⟨rfl, rfl⟩⟩
  · split at hget <;> cases hget
    rename_i e hfound
    obtain ⟨he, rfl⟩ := (h.lookup _ _).mp hfound
    exact ⟨h.moveToFront e, rfl, .inr ⟨rfl, mem_map_of_mem he, h.keys_moveToFront he⟩⟩

theorem linked_unRegister (hun : m.unRegister sessionID = .ok m') :
    m'.lists.Linked Session.id ∧ m'.maxSessions = m.maxSessions ∧
      m'.ids = m.ids.erase sessionID := by
  rw [unRegister] at hun
  split at hun <;> cases hun
  rename_i e hfound
  obtain ⟨he, rfl⟩ := (h.lookup _ _).mp hfound
  exact ⟨h.remove he, rfl, h.keys_remove he⟩

end

theorem restore_written (hrs : rs.Lawful) {it : Iteration R} (hcount : it.length < 2 ^ 64)
    (hfits : ∀ x ∈ it, x.1.Fits texts) (hentries : ∀ x ∈ it, x.2.Perm x.1.result.entries)
    (hnodup : (it.map (·.1.id)).Nodup) {bytes : Bytes}
    (hbytes : writeSessions rs texts 2 it = .ok bytes)
    (hrestore : m.restore rs texts bytes = .ok m') :
    m'.lists.Linked Session.id ∧ m'.maxSessions = m.maxSessions ∧ m'.ids = it.map (·.1.id) := by
  obtain ⟨parts, hparts, hbytes⟩ := bind_eq_ok.mp hbytes
  cases hbytes
  rw [restore, append_assoc, readHeader_eq (by omega), ok_bind,
    readSessions_eq hrs hcount hfits hentries hparts] at hrestore
  obtain ⟨_, hread, hrestore⟩ := bind_eq_ok.mp hrestore
  obtain ⟨ss, hss, rfl⟩ := map_eq_ok hread
  have hids : ss.map Session.id = it.map (·.1.id) := (ids_of_restored hss).trans (map_map ..)
  have hspec := (LinkedMap.linked_empty Session.id m.lists.fresh).foldl_pushBack
    (show ([] ++ ss.map Session.id).Nodup from hids ▸ hnodup)
  dsimp only at hrestore
  split at hrestore <;> cases hrestore
  exact ⟨hspec.1, rfl, hspec.2.trans hids⟩

end LruLists

/-! ## The order of last use -/

/-- The sessions stand in the order of their last use. The latest use comes first in `uses`, so a
smaller position is a later use. -/
structure Recent (uses ids : List Nat) : Prop where
  used : ∀ i ∈ ids, i ∈ uses
  order : ids.Pairwise fun i j => uses.idxOf i < uses.idxOf j

namespace Recent

variable {uses ids : List Nat} (h : Recent uses ids)
include h

theorem sublist {ids' : List Nat} (hsub : ids' <+ ids) : Recent uses ids' :=
  ⟨fun i hi => h.used i (hsub.subset hi), h.order.sublist hsub⟩

theorem use (i : Nat) : Recent (i :: uses) (i :: ids.erase i) := by
  have hnodup : ids.Nodup := h.order.imp fun {j k} hlt heq => by
    rw [heq] at hlt
    exact Nat.lt_irrefl _ hlt
  have hne : ∀ j ∈ ids.erase i, i ≠ j := fun j hj heq => (hnodup.mem_erase_iff.mp hj).1 heq.symm
  refine ⟨forall_mem_cons.mpr ⟨mem_cons_self, fun j hj =>
    mem_cons_of_mem _ (h.used j (mem_of_mem_erase hj))⟩, pairwise_cons.mpr ⟨fun j hj => ?_, ?_⟩⟩
  · rw [idxOf_cons_self, idxOf_cons_ne _ (hne j hj)]
    exact Nat.succ_pos _
  · refine (h.order.sublist erase_sublist).imp_of_mem fun {j k} hj hk hlt => ?_
    rw [idxOf_cons_ne _ (hne j hj), idxOf_cons_ne _ (hne k hk)]
    exact Nat.succ_lt_succ hlt

end Recent

/-- The session a call of `GetSession` used; the no-op session is none of the manager's. -/
def SessionHandle.used : SessionHandle → List Nat
  | .noOp => []
  | .registered sessionID => [sessionID]

/-- The managers that calls lead to, with the uses of their sessions. A call that fails changes
nothing. A snapshot has the sessions of a manager, whose results may have changed since they were
registered, and a restore takes over their uses. `ok` relates the limits of the two. -/
inductive LruReached (rs : ResponseSerializer R) (texts : ErrorText) (ok : Int → Int → Prop) :
    LruLists R → List Nat → Prop
  | new (maxSessions : Int) : LruReached rs texts ok (.newLruManager maxSessions) []
  | getSession {m m' uses sessionID handle} (hm : LruReached rs texts ok m uses)
      (hget : m.getSession sessionID = .ok (handle, m')) :
      LruReached rs texts ok m' (handle.used ++ uses)
  | register {m m' uses sessionID lastActivateTime} (hm : LruReached rs texts ok m uses)
      (hreg : m.register sessionID lastActivateTime = .ok m') :
      LruReached rs texts ok m' (sessionID :: uses)
  | unRegister {m m' uses sessionID} (hm : LruReached rs texts ok m uses)
      (hun : m.unRegister sessionID = .ok m') : LruReached rs texts ok m' uses
  | restore {m m' source uses uses' bytes} {it : Iteration R} (hm : LruReached rs texts ok m uses)
      (hsource : LruReached rs texts ok source uses') (hok : ok source.maxSessions m.maxSessions)
      (hit : it.map (·.1.id) = source.ids) (hentries : ∀ x ∈ it, x.2.Perm x.1.result.entries)
      (hfits : ∀ x ∈ it, x.1.Fits texts) (hcount : it.length < 2 ^ 64)
      (hbytes : writeSessions rs texts 2 it = .ok bytes)
      (hrestore : m.restore rs texts bytes = .ok m') : LruReached rs texts ok m' uses'

section Reached

variable {ok : Int → Int → Prop} {uses : List Nat}

structure LruReached.Inv (ok : Int → Int → Prop) (m : LruLists R) (uses : List Nat) : Prop where
  linked : m.lists.Linked Session.id
  recent : Recent uses m.ids
  bound : (∀ a b, ok a b → a = b) → 0 ≤ m.maxSessions → m.ids.length ≤ m.maxSessions

theorem LruReached.inv (hrs : rs.Lawful) (h : LruReached rs texts ok m uses) : Inv ok m uses := by
  induction h with
  | new maxSessions =>
    exact ⟨LinkedMap.linked_empty _ 0, ⟨nofun, .nil⟩, fun _ hmax => hmax⟩
  | @getSession m m' uses sessionID handle hm hget ih =>
    obtain ⟨hlinked, hmax, ⟨rfl, rfl⟩ | ⟨rfl, hmem, hids⟩⟩ :=
      LruLists.linked_getSession ih.linked hget
    · exact ih
    · refine ⟨hlinked, hids ▸ ih.recent.use sessionID, fun hok hpos => ?_⟩
      rw [hids, hmax, length_cons, length_erase_add_one hmem]
      exact ih.bound hok (hmax ▸ hpos)
  | @register m m' uses sessionID now hm hreg ih =>
    obtain ⟨hnew, hlinked, hmax, hids⟩ := LruLists.linked_register ih.linked hreg
    have hrecent := ih.recent.use sessionID
    rw [erase_of_not_mem hnew] at hrecent
    refine ⟨hlinked, hrecent.sublist ?_, fun hok hpos => ?_⟩
    · rw [hids]
      split
      · exact dropLast_sublist _
      · exact .refl _
    · have hbound := ih.bound hok (hmax ▸ hpos)
      rw [hids, hmax]
      split
      · simpa using hbound
      · rw [length_cons]
        omega
  | unRegister hm hun ih =>
    obtain ⟨hlinked, hmax, hids⟩ := LruLists.linked_unRegister ih.linked hun
    refine ⟨hlinked, hids ▸ ih.recent.sublist erase_sublist, fun hok hpos => ?_⟩
    rw [hids, hmax]
    exact Int.le_trans (Int.ofNat_le.mpr erase_sublist.length_le) (ih.bound hok (hmax ▸ hpos))
  | restore hm hsource hok hit hentries hfits hcount hbytes hrestore _ ih =>
    obtain ⟨hlinked, hmax, hids⟩ := LruLists.restore_written hrs hcount hfits hentries
      (hit ▸ ih.linked.keys_nodup) hbytes hrestore
    rw [hit] at hids
    refine ⟨hlinked, hids ▸ ih.recent, fun hlimits hpos => ?_⟩
    rw [hids, hmax, ← hlimits _ _ hok]
    exact ih.bound hlimits (by rwa [hlimits _ _ hok, ← hmax])

/-- The map and the list have the same sessions, each once. If all snapshots come from managers with
the limit of the one that restores them, no limit is exceeded. A registration beyond the limit
evicts the session that was not used for longest. -/
theorem lruManager_runs (hrs : rs.Lawful) (h : LruReached rs texts ok m uses)
    (hmax : 1 ≤ m.maxSessions) :
    (m.ids.Nodup ∧ ∀ sessionID e, m.lists.map.lookup sessionID = some e ↔
      e ∈ m.lists.list ∧ e.value.id = sessionID) ∧
    ((∀ a b, ok a b → a = b) → m.lists.list.length ≤ m.maxSessions) ∧
    ∀ sessionID now m', m.register sessionID now = .ok m' →
      m.maxSessions < m.lists.list.length + 1 →
      ∃ rest oldest, m.ids = rest ++ [oldest] ∧ m'.ids = sessionID :: rest ∧
        (∀ i ∈ m.ids, i ∈ uses) ∧ ∀ i ∈ rest, uses.idxOf i < uses.idxOf oldest := by
  have hinv := h.inv hrs
  have hlength : m.ids.length = m.lists.list.length := LinkedMap.length_keys _ _
  refine ⟨⟨hinv.linked.keys_nodup, hinv.linked.lookup⟩, fun hok => ?_,
    fun sessionID now m' hreg hfull => ?_⟩
  · exact hlength ▸ hinv.bound hok (by omega)
  · obtain ⟨-, -, -, hids⟩ := LruLists.linked_register hinv.linked hreg
    obtain hnil | ⟨rest, oldest, hlast⟩ := eq_nil_or_concat' m.ids
    · rw [hnil] at hlength
      simp only [length_nil] at hlength
      omega
    · have horder := hinv.recent.order
      rw [if_pos (hlength ▸ hfull), hlast, ← cons_append, dropLast_concat] at hids
      rw [hlast, pairwise_append] at horder
      exact ⟨rest, oldest, hlast, hids, hinv.recent.used, fun i hi => horder.2.2 i hi oldest
        (mem_singleton_self _)⟩

/-- Of the sessions 5 and 6 the first is used again, so that a third one evicts 6. -/
theorem lruManager_evicts : ∃ (m m' : LruLists Unit) (rest : List Nat) (oldest : Nat),
    LruReached exampleSerializer exampleTexts (· = ·) m [5, 6, 5] ∧ m.register 7 0 = .ok m' ∧
    m.ids = [5, 6] ∧ m.ids = rest ++ [oldest] ∧ m'.ids = 7 :: rest := by
  have hnew : LruReached exampleSerializer exampleTexts (· = ·) (.newLruManager 2) [] := .new 2
  have h5 := hnew.register (show LruLists.register _ 5 0 = .ok _ from rfl)
  have h6 := h5.register (show LruLists.register _ 6 0 = .ok _ from rfl)
  have hused := h6.getSession (show LruLists.getSession _ 5 = .ok (_, _) from rfl)
  obtain ⟨rest, oldest, hids, hids', -⟩ := (lruManager_runs exampleSerializer_lawful hused
    (by decide)).2.2 7 0 _ rfl (by decide)
  exact ⟨_, _, rest, oldest, hused, rfl, rfl, hids, hids'⟩

end Reached

end Babuza
