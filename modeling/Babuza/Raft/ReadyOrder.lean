import Babuza.Lib.Trace
import Babuza.Raft.Storage

/-!
# The order of a Ready's effects

What the Ready loop does with one `raft.Ready` after another (`raft/raft_ready.go`,
`raft/experimental/replica_raft_processor.go`). `Save` stands at one of two places, and
`shouldWaitWALSync`, which says at which, compares one committed entry with one new entry. It is
true when the two segments share an entry, and when the committed entries lie wholly behind the new
ones (`shouldWaitWALSync_iff`), which does not come from the raft library. What is put into the
queue has then always been saved, and a follower sends nothing before it has saved (`write_ahead`).

A loop that is ended by an error or by its closing has done a beginning of the events here.
-/

namespace Babuza.Raft

open Lib List

inductive StateType where
  | follower
  | candidate
  | leader
  | preCandidate
  deriving DecidableEq

structure SoftState where
  lead : Nat
  raftState : StateType
  deriving DecidableEq

/-- `raft.Ready` as the loop takes it; `M` are the messages. -/
structure LoopReady (M : Type) extends Ready where
  softState : Option SoftState
  committedEntries : List Entry
  messages : List M

/-- What a round of the loop does to the world outside of the loop. -/
inductive Action (M : Type) where
  | save (hardState : HardState) (entries : List Entry) (snapshot : Snapshot)
  | putApply (entries : List Entry) (snapshot : Snapshot)
  | sendRaftMessage (messages : List M)
  | applyAndReleaseSnapshot (snapshot : Snapshot)
  | entryStorageAppend (entries : List Entry)
  | applyConfChangeEntry (entries : List Entry)
  | advance

/-- An effect that has returned, with the round it is from and the leader flag in that round. -/
structure Event (M : Type) where
  round : Nat
  isLeader : Bool
  action : Action M

/-- A Ready and whether one of its committed entries removes the local peer. -/
structure Round (M : Type) where
  ready : LoopReady M
  removeSelf : Bool

/-- The two loops: `Raft.processRaftReady` and `replica.processReady`. -/
inductive LoopKind where
  | single
  | multi
  deriving DecidableEq

variable {M : Type}

namespace LoopReady

def shouldWaitWALSync (rd : LoopReady M) : Bool :=
  match rd.committedEntries.getLast?, rd.entries.head? with
  | some lastCommittedEntry, some firstUnstableEntry =>
    decide (firstUnstableEntry.term < lastCommittedEntry.term) ||
      (lastCommittedEntry.term == firstUnstableEntry.term &&
        decide (firstUnstableEntry.index ≤ lastCommittedEntry.index))
  | _, _ => false

def saveAction (rd : LoopReady M) : Action M := .save rd.hardState rd.entries rd.snapshot

def actions (rd : LoopReady M) (isLeader removeSelf : Bool) : List (Action M) :=
  (if rd.shouldWaitWALSync then [rd.saveAction] else []) ++
  (if rd.committedEntries ≠ [] ∨ isEmptySnap rd.snapshot = false then
    [.putApply rd.committedEntries rd.snapshot] else []) ++
  (if isLeader then [.sendRaftMessage rd.messages] else []) ++
  (if rd.shouldWaitWALSync then [] else [rd.saveAction]) ++
  (if isEmptySnap rd.snapshot then [] else [.applyAndReleaseSnapshot rd.snapshot]) ++
  [.entryStorageAppend rd.entries, .applyConfChangeEntry rd.committedEntries] ++
  (if removeSelf then [] else
    (if isLeader then [] else [.sendRaftMessage rd.messages]) ++ [.advance])

end LoopReady

/-- The leader flag after a Ready. The single-group loop looks at the role, the multi-group one asks
who leads. -/
def leaderFlag (kind : LoopKind) (localPeerID : Nat) (isLeader : Bool) :
    Option SoftState → Bool
  | none => isLeader
  | some st =>
    match kind with
    | .single => st.raftState = .leader
    | .multi => st.lead = localPeerID

/-- The events of the loop from the round with number `k` on. The single-group loop ends when the
local peer is removed; a replica of many is taken out later, by another goroutine. -/
def readyLoop (kind : LoopKind) (localPeerID : Nat) :
    (k : Nat) → (isLeader : Bool) → List (Round M) → List (Event M)
  | _, _, [] => []
  | k, isLeader, r :: rounds =>
    let isLeader := leaderFlag kind localPeerID isLeader r.ready.softState
    (r.ready.actions isLeader r.removeSelf).map (⟨k, isLeader, ·⟩) ++
      if kind = .single ∧ r.removeSelf = true then []
      else readyLoop kind localPeerID (k + 1) isLeader rounds

/-! ## Readys of one log -/

namespace LoopReady

/-- New and committed entries are segments of a log whose terms do not decrease with the index. -/
structure OfLog (rd : LoopReady M) (log : List Entry) : Prop where
  consecutive : ∃ first, Consecutive Entry.index first log
  terms : ∀ e ∈ log, ∀ e' ∈ log, e.index ≤ e'.index → e.term ≤ e'.term
  entries : rd.entries <:+: log
  committedEntries : rd.committedEntries <:+: log

def Shares (rd : LoopReady M) : Prop := ∃ e ∈ rd.entries, e ∈ rd.committedEntries

/-- There are new and committed entries, and the committed ones lie wholly behind the new ones. -/
def Behind (rd : LoopReady M) : Prop :=
  rd.entries ≠ [] ∧ rd.committedEntries ≠ [] ∧
    ∀ e ∈ rd.entries, ∀ c ∈ rd.committedEntries, e.index < c.index

instance (rd : LoopReady M) : Decidable rd.Shares :=
  inferInstanceAs (Decidable (∃ e ∈ rd.entries, e ∈ rd.committedEntries))

instance (rd : LoopReady M) : Decidable rd.Behind :=
  inferInstanceAs (Decidable (_ ∧ _ ∧ _))

variable {rd : LoopReady M} {log : List Entry}

theorem shouldWaitWALSync_eq_true :
    rd.shouldWaitWALSync = true ↔
      ∃ c ∈ rd.committedEntries.getLast?, ∃ e ∈ rd.entries.head?,
        e.term < c.term ∨ c.term = e.term ∧ e.index ≤ c.index := by
  unfold shouldWaitWALSync
  cases rd.committedEntries.getLast? with
  | none => simp
  | some c =>
    cases rd.entries.head? <;> simp

theorem OfLog.shouldWaitWALSync_eq_true (h : rd.OfLog log) :
    rd.shouldWaitWALSync = true ↔
      ∃ c ∈ rd.committedEntries.getLast?, ∃ e ∈ rd.entries.head?, e.index ≤ c.index := by
  rw [LoopReady.shouldWaitWALSync_eq_true]
  refine exists_congr fun c => and_congr_right fun hc => exists_congr fun e =>
    and_congr_right fun he => ?_
  have hcLog : c ∈ log := h.committedEntries.subset (mem_of_mem_getLast? hc)
  have heLog : e ∈ log := h.entries.subset (mem_of_mem_head? he)
  have hle := h.terms e heLog c hcLog
  have hge := h.terms c hcLog e heLog
  omega

theorem OfLog.exists_common (h : rd.OfLog log) {m n i : Nat}
    (hentries : Consecutive Entry.index m rd.entries)
    (hcommitted : Consecutive Entry.index n rd.committedEntries)
    (hm : m ≤ i) (hm' : i < m + rd.entries.length)
    (hn : n ≤ i) (hn' : i < n + rd.committedEntries.length) : rd.Shares := by
  obtain ⟨first, hlog⟩ := h.consecutive
  obtain ⟨e, he, heIndex⟩ := hentries.exists_index hm hm'
  obtain ⟨c, hc, hcIndex⟩ := hcommitted.exists_index hn hn'
  have heq : e = c :=
    hlog.eq_of_mem (h.entries.subset he) (h.committedEntries.subset hc) (by omega)
  exact ⟨e, he, heq ▸ hc⟩

theorem shouldWaitWALSync_iff (h : rd.OfLog log) :
    rd.shouldWaitWALSync = true ↔ rd.Shares ∨ rd.Behind := by
  obtain ⟨first, hlog⟩ := h.consecutive
  obtain ⟨m, hentries⟩ := hlog.of_infix h.entries
  obtain ⟨n, hcommitted⟩ := hlog.of_infix h.committedEntries
  rw [h.shouldWaitWALSync_eq_true]
  constructor
  · rintro ⟨c, hc, e, he, hle⟩
    have hcMem := mem_of_mem_getLast? hc
    have heMem := mem_of_mem_head? he
    have hm := hentries.le_index heMem
    have hn := hcommitted.le_index hcMem
    have hn' := hcommitted.index_lt hcMem
    have hpos := length_pos_of_mem heMem
    by_cases hbehind : m + rd.entries.length ≤ n
    · -- every new entry has its index below `n`
      refine .inr ⟨ne_nil_of_mem heMem, ne_nil_of_mem hcMem, ?_⟩
      intro e' he' c' hc'
      have hlt := hentries.index_lt he'
      have hge := hcommitted.le_index hc'
      omega
    · refine .inl (h.exists_common (i := max m n) hentries hcommitted ?_ ?_ ?_ ?_) <;> omega
  · intro hor
    have hpair : ∃ e ∈ rd.entries, ∃ c ∈ rd.committedEntries, e.index ≤ c.index := by
      rcases hor with ⟨e, he, hc⟩ | ⟨he, hc, hlt⟩
      · exact ⟨e, he, e, hc, Nat.le_refl _⟩
      · obtain ⟨e, he⟩ := exists_mem_of_ne_nil _ he
        obtain ⟨c, hc⟩ := exists_mem_of_ne_nil _ hc
        exact ⟨e, he, c, hc, (hlt e he c hc).le⟩
    obtain ⟨e, he, c, hc, hle⟩ := hpair
    have hne := ne_nil_of_mem he
    have hne' := ne_nil_of_mem hc
    refine ⟨_, getLast?_eq_some_getLast hne', _, head?_eq_some_head hne, ?_⟩
    have hhead : (rd.entries.head hne).index = m := by
      have := hentries.getElem (length_pos_iff.mpr hne)
      rwa [get_eq_getElem, getElem_zero, Nat.add_zero] at this
    have hlast := hcommitted.getLast hne'
    have hm := hentries.le_index he
    have hn' := hcommitted.index_lt hc
    omega

end LoopReady

/-! ## The loop -/

/-- The entry was saved, or it lies below a snapshot that was saved or was there from the start. -/
def Saved (installed : Nat) (events : List (Event M)) (e : Entry) : Prop :=
  e.index ≤ installed ∨
    ∃ ev ∈ events, ∃ hardState entries snapshot, ev.action = .save hardState entries snapshot ∧
      (e ∈ entries ∨ e.index ≤ snapshot.metadata.index)

/-- Each committed entry is among the new entries of its Ready, among those of an earlier one, or
below an installed snapshot. -/
def Known (installed : Nat) (rounds : List (Round M)) : Prop :=
  ∀ k < rounds.length, ∀ r ∈ rounds[k]?, ∀ e ∈ r.ready.committedEntries,
    e ∈ r.ready.entries ∨ e.index ≤ installed ∨
      ∃ q ∈ rounds.take k, e ∈ q.ready.entries ∨ e.index ≤ q.ready.snapshot.metadata.index

instance (installed : Nat) (rounds : List (Round M)) : Decidable (Known installed rounds) :=
  inferInstanceAs (Decidable (∀ k < rounds.length, _))

/-- What has to come before an event. -/
def WriteAhead (installed : Nat) (rounds : List (Round M)) (front : List (Event M))
    (ev : Event M) : Prop :=
  (∀ entries snapshot, ev.action = .putApply entries snapshot →
    ∀ e ∈ entries, Saved installed front e) ∧
  (∀ messages, ev.action = .sendRaftMessage messages → ev.isLeader = false →
    ∃ r ∈ rounds[ev.round]?, ⟨ev.round, ev.isLeader, r.ready.saveAction⟩ ∈ front)

def RoundsSaved (rounds : List (Round M)) (front : List (Event M)) : Prop :=
  ∀ r ∈ rounds, ∃ k isLeader, ⟨k, isLeader, r.ready.saveAction⟩ ∈ front

variable {front back : List (Event M)} {localPeerID installed k : Nat} {e : Entry}

theorem Saved.mono (h : Saved installed front e) (hsub : front ⊆ back) :
    Saved installed back e := by
  rcases h with h | ⟨ev, hev, h⟩
  · exact .inl h
  · exact .inr ⟨ev, hsub hev, h⟩

variable {isLeader : Bool}

theorem saved_of_mem {rd : LoopReady M} (hsave : ⟨k, isLeader, rd.saveAction⟩ ∈ front)
    (he : e ∈ rd.entries ∨ e.index ≤ rd.snapshot.metadata.index) : Saved installed front e :=
  .inr ⟨_, hsave, _, _, _, rfl, he⟩

section Round

variable {rounds : List (Round M)} {r : Round M}

theorem RoundsSaved.saved (hfront : RoundsSaved (rounds.take k) front)
    (hknown : Known installed rounds) (hk : r ∈ rounds[k]?) (he : e ∈ r.ready.committedEntries) :
    e ∈ r.ready.entries ∨ Saved installed front e := by
  have hlt : k < rounds.length := (List.getElem?_eq_some_iff.mp hk).1
  rcases hknown k hlt r hk e he with hentries | hinstalled | ⟨q, hq, hmem⟩
  · exact .inl hentries
  · exact .inr (.inl hinstalled)
  · obtain ⟨j, isLeader, hsave⟩ := hfront q hq
    exact .inr (saved_of_mem hsave hmem)

/-- Nothing has to come before these effects. -/
def Action.Free (isLeader : Bool) : Action M → Prop
  | .putApply _ _ => False
  | .sendRaftMessage _ => isLeader = true
  | _ => True

theorem preceded_of_free {actions : List (Action M)} (h : ∀ a ∈ actions, a.Free isLeader) :
    Preceded (WriteAhead installed rounds) front (actions.map (⟨k, isLeader, ·⟩)) := by
  apply preceded_of_forall
  intro ev hev front
  obtain ⟨a, ha, rfl⟩ := mem_map.mp hev
  have hfree := h a ha
  constructor
  · rintro entries snapshot rfl
    exact hfree.elim
  · rintro messages rfl hfollower
    exact absurd (hfollower.symm.trans hfree) (by decide)

theorem writeAhead_round (hknown : Known installed rounds) (hlog : ∃ log, r.ready.OfLog log)
    (hk : r ∈ rounds[k]?) (hfront : RoundsSaved (rounds.take k) front) :
    Preceded (WriteAhead installed rounds) front
      ((r.ready.actions isLeader r.removeSelf).map (⟨k, isLeader, ·⟩)) := by
  obtain ⟨log, hlog⟩ := hlog
  unfold LoopReady.actions
  simp only [map_append, preceded_append]
  refine ⟨⟨⟨⟨⟨⟨?_, ?_⟩, ?_⟩, ?_⟩, ?_⟩, ?_⟩, ?_⟩
  · apply preceded_of_free
    split <;> simp [Action.Free, LoopReady.saveAction]
  · -- the entries of the Ready itself are saved before the put when the two segments overlap
    have hput : ∀ e ∈ r.ready.committedEntries, Saved installed
        (front ++ (if r.ready.shouldWaitWALSync then [r.ready.saveAction] else []).map
          (⟨k, isLeader, ·⟩)) e := by
      intro e he
      rcases hfront.saved hknown hk he with hentries | hbefore
      · have hwait := (LoopReady.shouldWaitWALSync_iff hlog).mpr (.inl ⟨e, hentries, he⟩)
        rw [if_pos hwait]
        exact saved_of_mem (mem_append_right _ mem_cons_self) (.inl hentries)
      · exact hbefore.mono (subset_append_left _ _)
    by_cases hany : r.ready.committedEntries ≠ [] ∨ isEmptySnap r.ready.snapshot = false
    · rw [if_pos hany]
      refine ⟨⟨?_, nofun⟩, trivial⟩
      intro entries snapshot heq
      cases heq
      exact hput
    · rw [if_neg hany]
      trivial
  · apply preceded_of_free
    cases isLeader <;> simp [Action.Free]
  · apply preceded_of_free
    split <;> simp [Action.Free, LoopReady.saveAction]
  · apply preceded_of_free
    split <;> simp [Action.Free]
  · apply preceded_of_free
    simp [Action.Free]
  · -- both places of the save lie before the last sending
    have hsave : ∀ wait : Bool, ⟨k, isLeader, r.ready.saveAction⟩ ∈
        (if wait then [r.ready.saveAction] else []).map (Event.mk k isLeader) ++
          (if wait then [] else [r.ready.saveAction]).map (Event.mk k isLeader) := by
      intro wait
      cases wait <;> simp
    cases r.removeSelf with
    | true => trivial
    | false =>
      cases isLeader with
      | true =>
        apply preceded_of_free
        simp [Action.Free]
      | false =>
        have hsave := hsave r.ready.shouldWaitWALSync
        rw [List.mem_append] at hsave
        refine ⟨⟨nofun, ?_⟩, ⟨nofun, nofun⟩, trivial⟩
        intro messages _ _
        refine ⟨r, hk, ?_⟩
        simp only [List.mem_append]
        tauto

theorem RoundsSaved.round (hfront : RoundsSaved (rounds.take k) front) (hk : r ∈ rounds[k]?) :
    RoundsSaved (rounds.take (k + 1))
      (front ++ (r.ready.actions isLeader r.removeSelf).map (⟨k, isLeader, ·⟩)) := by
  intro q hq
  rw [take_add_one, hk, Option.toList_some, List.mem_append, mem_singleton] at hq
  rcases hq with hq | rfl
  · obtain ⟨j, flag, hsave⟩ := hfront q hq
    exact ⟨j, flag, mem_append_left _ hsave⟩
  · refine ⟨k, isLeader, mem_append_right _ (mem_map_of_mem ?_)⟩
    unfold LoopReady.actions
    split <;> simp

end Round

theorem writeAhead_readyLoop {kind : LoopKind} {rounds rest : List (Round M)}
    (hknown : Known installed rounds) (hlog : ∀ r ∈ rounds, ∃ log, r.ready.OfLog log)
    (hrest : rest = rounds.drop k) (hfront : RoundsSaved (rounds.take k) front) :
    Preceded (WriteAhead installed rounds) front (readyLoop kind localPeerID k isLeader rest) := by
  induction rest generalizing k isLeader front with
  | nil => trivial
  | cons r rest ih =>
    have hk : r ∈ rounds[k]? := by
      rw [← head?_drop, ← hrest]
      rfl
    have hmem : r ∈ rounds := mem_of_getElem? hk
    have htail : rest = rounds.drop (k + 1) := by
      rw [← tail_drop, ← hrest]
      rfl
    unfold readyLoop
    rw [preceded_append]
    refine ⟨writeAhead_round hknown (hlog r hmem) hk hfront, ?_⟩
    split
    · trivial
    · exact ih htail (hfront.round hk)

/-- The write-ahead discipline of both loops, for every beginning of what they do: what is put into
the apply queue has been saved, `shouldWaitWALSync` says when new and committed entries overlap or
the committed ones lie behind, and a follower saves a Ready before it sends its messages. -/
theorem write_ahead (kind : LoopKind) (localPeerID installed : Nat) (rounds : List (Round M))
    (hlog : ∀ r ∈ rounds, ∃ log, r.ready.OfLog log) (hknown : Known installed rounds)
    (events : List (Event M)) (hevents : events <+: readyLoop kind localPeerID 0 false rounds) :
    (∀ before after ev, events = before ++ ev :: after →
      ∀ entries snapshot, ev.action = .putApply entries snapshot →
        ∀ e ∈ entries, Saved installed before e) ∧
    (∀ r ∈ rounds, r.ready.shouldWaitWALSync = true ↔ r.ready.Shares ∨ r.ready.Behind) ∧
    (∀ before after ev, events = before ++ ev :: after →
      ∀ messages, ev.action = .sendRaftMessage messages → ev.isLeader = false →
        ∃ r ∈ rounds[ev.round]?, ⟨ev.round, ev.isLeader, r.ready.saveAction⟩ ∈ before) := by
  have hloop : Preceded (WriteAhead installed rounds) []
      (readyLoop kind localPeerID 0 false rounds) :=
    writeAhead_readyLoop hknown hlog rfl nofun
  refine ⟨?_, ?_, ?_⟩
  · rintro before after ev rfl
    exact (hloop.at hevents).1
  · intro r hr
    obtain ⟨log, hr⟩ := hlog r hr
    exact LoopReady.shouldWaitWALSync_iff hr
  · rintro before after ev rfl
    exact (hloop.at hevents).2

/-- A Ready of a follower with the entries of term 1 that have these indices. -/
private def plainReady (entries committed : List Nat) : LoopReady Unit where
  hardState := .empty
  entries := entries.map fun i => ⟨1, i, .normal, []⟩
  snapshot := .empty
  softState := none
  committedEntries := committed.map fun i => ⟨1, i, .normal, []⟩
  messages := [()]

private def plainLog (n : Nat) : List Entry := (List.range' 1 n).map fun i => ⟨1, i, .normal, []⟩

private theorem plainReady_ofLog {n : Nat} {entries committed : List Nat}
    (hentries : entries <:+: List.range' 1 n) (hcommitted : committed <:+: List.range' 1 n) :
    (plainReady entries committed).OfLog (plainLog n) where
  consecutive := ⟨1, by simp [plainLog, Consecutive, Function.comp_def]⟩
  terms := by
    intro e he e' he' _
    obtain ⟨i, _, rfl⟩ := mem_map.mp he
    obtain ⟨j, _, rfl⟩ := mem_map.mp he'
    exact Nat.le_refl 1
  entries := hentries.map _
  committedEntries := hcommitted.map _

/-- The first Ready brings entry 1, the second commits it and brings entry 2: when entry 1 is put
into the queue it has been saved. -/
theorem put_after_save : ∃ rounds : List (Round Unit),
    (∀ r ∈ rounds, ∃ log, r.ready.OfLog log) ∧ Known 0 rounds ∧
      ∃ before after ev, readyLoop .single 1 0 false rounds = before ++ ev :: after ∧
        ev.action = .putApply [⟨1, 1, .normal, []⟩] .empty ∧
          Saved 0 before ⟨1, 1, .normal, []⟩ := by
  let rounds : List (Round Unit) := [⟨plainReady [1] [], false⟩, ⟨plainReady [2] [1], false⟩]
  have hlog : ∀ r ∈ rounds, ∃ log, r.ready.OfLog log := by
    simp only [rounds, forall_mem_cons, not_mem_nil, false_imp_iff, implies_true, and_true]
    exact ⟨⟨_, plainReady_ofLog (n := 2) (by decide) (by decide)⟩,
      ⟨_, plainReady_ofLog (n := 2) (by decide) (by decide)⟩⟩
  have hknown : Known 0 rounds := by decide
  have hloop := write_ahead .single 1 0 rounds hlog hknown _ (prefix_refl _)
  have hsplit := (take_append_drop 5 (readyLoop .single 1 0 false rounds)).symm
  exact ⟨rounds, hlog, hknown, _, _, _, hsplit, rfl, hloop.1 _ _ _ hsplit _ _ rfl _ mem_cons_self⟩

/-- Entry 3 is new in the first Ready and is committed by the second one, whose new entries end at
2: `shouldWaitWALSync` is true and no entry is shared. -/
theorem waits_without_overlap : ∃ (log : List Entry) (rounds : List (Round Unit)),
    (∀ r ∈ rounds, r.ready.OfLog log) ∧ Known 0 rounds ∧
      ∃ r ∈ rounds, ¬ (r.ready.shouldWaitWALSync = true ↔ r.ready.Shares) := by
  refine ⟨plainLog 3, [⟨plainReady [1, 2, 3] [], false⟩, ⟨plainReady [2] [3], false⟩], ?_, ?_,
    _, mem_cons_of_mem _ mem_cons_self, ?_⟩
  · simp only [forall_mem_cons, not_mem_nil, false_imp_iff, implies_true, and_true]
    exact ⟨plainReady_ofLog (by decide) (by decide), plainReady_ofLog (by decide) (by decide)⟩
  · decide
  · decide

end Babuza.Raft
