import Babuza.Raft.AppliedFacade

/-!
# Exactly-once application

A request that is committed twice should reach the state machine once; the session keeps the answers
for this. But a later request may carry a `LowestSeqNumNotYetReplied` above the number of one that
is still under way, whose answer is then thrown away. And an empty answer cannot be told from the
sign that the request is new, so the copy is applied again, and storing its answer ends the process.

Requests are applied once, and no copy ends the process, exactly when every copy of a request finds
an answer that is not empty (`processEntry_exactlyOnce_iff`).
-/

namespace Babuza.Raft

open Lib List

variable {σ R : Type} {codecs : RequestCodecs} (sm : StateMachine σ R)
  {info : BasedStateMachineInfo}

def Application.key (a : Application) : Nat × Nat := (a.context.sessionID, a.context.sequenceNum)

/-- The requests that a session keeps apart: those of a session that have a number. -/
def isNumbered (key : Nat × Nat) : Bool := key.1 != 0 && key.2 != 0

def AppliedOnce (applied : List Application) : Prop :=
  ((applied.map Application.key).filter isNumbered).Nodup

/-- The outcome of a run: numbered requests were applied once, and none of them ended the process
with an answer that could not be stored. -/
def ExactlyOnce : Except ApplyPanic (Replica σ R) → Prop
  | .ok r => AppliedOnce r.applied
  | .error (.addResult (.sequenceNumberExists seq)) => seq = 0
  | .error _ => True

/-- A numbered request of a live session that was applied before finds an answer, and the answer is
not empty. -/
def FindsAnswer (codecs : RequestCodecs) (info : BasedStateMachineInfo) (r : Replica σ R)
    (e : TimedEntry) : Prop :=
  ∀ req s, clientRequest codecs info e.2 = some req →
    isNumbered (req.context.sessionID, req.context.sequenceNum) →
    (r.sessions.expireSession e.1.reqTime).find? req.context.sessionID = some s →
    (req.context.sessionID, req.context.sequenceNum) ∈ r.applied.map Application.key →
    ∃ ar, s.getResult req.context.sequenceNum = some ar ∧ ar.isEmpty = false

variable {applied applied' : List Application}

theorem appliedOnce_append (h : AppliedOnce applied) (a : Application) :
    AppliedOnce (applied ++ [a]) ↔ (isNumbered a.key → a.key ∉ applied.map Application.key) := by
  unfold AppliedOnce
  rw [map_append, filter_append, map_singleton]
  by_cases hkey : isNumbered a.key
  · rw [filter_cons_of_pos hkey, filter_nil, ← concat_eq_append, nodup_concat]
    constructor
    · rintro ⟨hnot, -⟩ - hmem
      exact hnot (mem_filter.mpr ⟨hmem, hkey⟩)
    · intro hnot
      exact ⟨fun hmem => hnot hkey (mem_filter.mp hmem).1, h⟩
  · rw [filter_cons_of_neg hkey, filter_nil, append_nil]
    exact ⟨fun _ hnum => absurd hnum hkey, fun _ => h⟩

/-- An empty answer is kept only of a request that was applied. -/
def EmptyApplied (applied : List Application) (m : SessionManager R) : Prop :=
  ∀ k s seq ar, m.find? k = some s → s.getResult seq = some ar → ar.isEmpty = true →
    (k, seq) ∈ applied.map Application.key

theorem kept_emptyApplied (applied : List Application) :
    Kept (EmptyApplied (R := R) applied) fun h seq ar =>
      ∀ k, h = .registered k → ar.isEmpty = true → (k, seq) ∈ applied.map Application.key :=
  kept_results R fun k seq ar => ar.isEmpty = true → (k, seq) ∈ applied.map Application.key

/-! ## One entry -/

theorem exactlyOnce_error {panic : ApplyPanic} (h : ∀ err, panic ≠ .addResult err) :
    ExactlyOnce (.error panic : Except ApplyPanic (Replica σ R)) := by
  cases panic with
  | addResult err => exact absurd rfl (h err)
  | _ => trivial

variable {r r' : Replica σ R} {e : TimedEntry}

theorem processEntry_machine_of_none (hpos : 0 < e.2.index)
    (hnone : clientRequest codecs info e.2 = none)
    (hprocess : processEntry codecs sm info r e = .ok r') :
    r'.applied = r.applied ∧ r'.stateMachine = r.stateMachine := by
  by_cases hconf : e.2.type = .confChange
  · rw [processEntry_confChange sm hconf, applyConfChangeEntry, if_pos hconf] at hprocess
    split at hprocess <;> cases hprocess
    exact ⟨rfl, rfl⟩
  · rw [processEntry_of_ne sm hconf] at hprocess
    rcases applyEntry_cases sm hpos hnone with
      ⟨panic, happly, -⟩ | happly | ⟨req, happly⟩ | ⟨req, happly⟩
    all_goals
      rw [happly] at hprocess
      cases hprocess
    all_goals exact ⟨rfl, rfl⟩

theorem exactlyOnce_other (hpos : 0 < e.2.index) (hnone : clientRequest codecs info e.2 = none)
    (honce : AppliedOnce r.applied) : ExactlyOnce (processEntry codecs sm info r e) := by
  cases hprocess : processEntry codecs sm info r e with
  | ok r' =>
    rwa [ExactlyOnce, (processEntry_machine_of_none sm hpos hnone hprocess).1]
  | error panic =>
    apply exactlyOnce_error
    by_cases hconf : e.2.type = .confChange
    · rw [processEntry_confChange sm hconf, applyConfChangeEntry, if_pos hconf] at hprocess
      split at hprocess <;> cases hprocess
      rename_i happly
      rcases facadeApplyConfChangeEntry_error happly with rfl | rfl <;> simp
    · rw [processEntry_of_ne sm hconf] at hprocess
      rcases applyEntry_cases sm hpos hnone with
        ⟨panic', happly, hpanic⟩ | happly | ⟨req, happly⟩ | ⟨req, happly⟩
      all_goals
        rw [happly] at hprocess
        cases hprocess
      exact hpanic

variable {req : NormalRequest} {session : SessionHandle}

theorem applyCommand_of_none {e : Entry}
    (hnone : r.sessions.getResult session req.context.sequenceNum = none) (now : Int) :
    ∃ r', applyCommand sm r now e req session = .ok r' ∧
      r'.applied = r.applied ++ [⟨req.context, ⟨e.term, e.index, req.stateMachineLog⟩⟩] := by
  obtain ⟨sessions, hadd⟩ := SessionManager.addResult_of_none hnone now
    (sm r.stateMachine ⟨e.term, e.index, req.stateMachineLog⟩).2
  unfold applyCommand
  dsimp only
  rw [hadd]
  exact ⟨_, rfl, rfl⟩

theorem exactlyOnce_applyCommand {sessions : SessionManager R} {e : Entry}
    (honce : AppliedOnce r.applied)
    (hnone : sessions.getResult session req.context.sequenceNum = none) (now : Int) :
    ExactlyOnce (applyCommand sm { r with sessions := sessions } now e req session) ↔
      (isNumbered (req.context.sessionID, req.context.sequenceNum) →
        (req.context.sessionID, req.context.sequenceNum) ∉ r.applied.map Application.key) := by
  obtain ⟨r', happly, happlied⟩ :=
    applyCommand_of_none sm (r := { r with sessions := sessions }) hnone now
  rw [happly, ExactlyOnce, happlied]
  exact appliedOnce_append honce _

theorem exactlyOnce_request_iff (hrequest : clientRequest codecs info e.2 = some req)
    (htracks : r.sessions.tracks) (hempty : EmptyApplied r.applied r.sessions)
    (honce : AppliedOnce r.applied) :
    ExactlyOnce (processEntry codecs sm info r e) ↔ FindsAnswer codecs info r e := by
  have hfinds : FindsAnswer codecs info r e ↔ ∀ s,
      isNumbered (req.context.sessionID, req.context.sequenceNum) →
      (r.sessions.expireSession e.1.reqTime).find? req.context.sessionID = some s →
      (req.context.sessionID, req.context.sequenceNum) ∈ r.applied.map Application.key →
      ∃ ar, s.getResult req.context.sequenceNum = some ar ∧ ar.isEmpty = false := by
    constructor
    · intro h s
      exact h req s hrequest
    · intro h req' s hrequest'
      rw [hrequest] at hrequest'
      cases hrequest'
      exact h s
  rw [hfinds, processEntry_clientRequest sm hrequest, applyRequest]
  dsimp only [Replica.expireSession]
  have htracks' : (r.sessions.expireSession e.1.reqTime).tracks :=
    (SessionManager.tracks_expireSession _ _).trans htracks
  by_cases hzero : req.context.sessionID = 0
  · -- Without a session the request is applied, and it does not count.
    rw [hzero, SessionManager.getSession_zero]
    have hcount : isNumbered (0, req.context.sequenceNum) = false := rfl
    refine iff_of_true ?_ fun s hnum => absurd hnum (by simp [hcount])
    exact (exactlyOnce_applyCommand sm honce rfl e.1.now).mpr fun hnum => by
      rw [hzero, hcount] at hnum
      cases hnum
  · cases hfind : (r.sessions.expireSession e.1.reqTime).find? req.context.sessionID with
    | none =>
      rw [SessionManager.getSession_none htracks' hzero hfind]
      exact iff_of_true honce nofun
    | some s =>
      obtain ⟨sessions, hget, hsame⟩ := SessionManager.getSession_some hzero hfind
      rw [hget]
      dsimp only
      have hresult := SessionManager.getResult_registered ((hsame _).trans hfind)
        req.context.sequenceNum
      rw [hresult]
      cases hstored : s.getResult req.context.sequenceNum with
      | none =>
        rw [exactlyOnce_applyCommand sm honce (SessionManager.getResult_clearResult
          (hresult.trans hstored) _)]
        constructor
        · intro hnew s' hnum hs hmem
          exact absurd hmem (hnew hnum)
        · intro h hnum hmem
          obtain ⟨ar, hs, -⟩ := h s hnum rfl hmem
          rw [hstored] at hs
          cases hs
      | some ar =>
        dsimp only
        by_cases hsome : ar.isEmpty
        · rw [if_pos hsome]
          have hmem := hempty _ s _ ar (SessionManager.find?_expireSession hfind) hstored hsome
          have hright : (∀ s', isNumbered (req.context.sessionID, req.context.sequenceNum) →
              some s = some s' →
              (req.context.sessionID, req.context.sequenceNum) ∈ r.applied.map Application.key →
              ∃ ar, s'.getResult req.context.sequenceNum = some ar ∧ ar.isEmpty = false) ↔
              ¬ isNumbered (req.context.sessionID, req.context.sequenceNum) := by
            constructor
            · intro h hnum
              obtain ⟨ar', hs, hfull⟩ := h s hnum rfl hmem
              rw [hstored] at hs
              cases hs
              rw [hsome] at hfull
              cases hfull
            · intro hnot s' hnum
              exact absurd hnum hnot
          rw [hright]
          -- `ClearResult` may have thrown the empty answer away: then it is the state machine that
          -- sees the copy, and otherwise its second answer cannot be stored.
          cases hcleared : (sessions.clearResult (.registered req.context.sessionID)
              req.context.lowestSeqNumNotYetReplied).getResult
              (.registered req.context.sessionID) req.context.sequenceNum with
          | none =>
            rw [exactlyOnce_applyCommand sm honce hcleared]
            exact ⟨fun h hnum => h hnum hmem, fun h hnum => absurd hnum h⟩
          | some ar' =>
            simp [applyCommand, SessionManager.addResult_of_some hcleared, ExactlyOnce, isNumbered,
              hzero]
        · rw [if_neg hsome]
          refine iff_of_true honce fun s' hnum hs hmem => ?_
          cases hs
          exact ⟨ar, hstored, by simpa using hsome⟩

/-! ## A log -/

theorem EmptyApplied.mono {m : SessionManager R} (h : EmptyApplied applied m)
    (hsub : applied ⊆ applied') : EmptyApplied applied' m :=
  fun k s seq ar hfind hget hempty =>
    map_subset Application.key hsub (h k s seq ar hfind hget hempty)

theorem applyCommand_emptyApplied {now : Int} {e : Entry}
    (hempty : EmptyApplied r.applied r.sessions)
    (hsession : ∀ k, session = .registered k → k = req.context.sessionID)
    (happly : applyCommand sm r now e req session = .ok r') :
    EmptyApplied r'.applied r'.sessions := by
  have happlied : r'.applied =
      r.applied ++ [⟨req.context, ⟨e.term, e.index, req.stateMachineLog⟩⟩] := by
    obtain ⟨sessions, -, rfl⟩ := applyCommand_ok sm happly
    rfl
  refine (kept_emptyApplied r'.applied).applyCommand sm ?_ (hempty.mono ?_) happly
  · intro ar k hk _
    rw [happlied, map_append, hsession k hk]
    exact mem_append_right _ mem_cons_self
  · rw [happlied]
    exact subset_append_left _ _

theorem processEntry_emptyApplied (hpos : 0 < e.2.index)
    (hempty : EmptyApplied r.applied r.sessions)
    (hprocess : processEntry codecs sm info r e = .ok r') :
    EmptyApplied r'.applied r'.sessions := by
  have hkept := kept_emptyApplied (R := R) r.applied
  cases hrequest : clientRequest codecs info e.2 with
  | none =>
    rw [(processEntry_machine_of_none sm hpos hrequest hprocess).1]
    refine hkept.processEntry sm hpos ?_ ?_ hempty hprocess
    · rintro session seq (err | ⟨confState, removeSelf⟩) k - hnot
      · rw [confChangeResult, ApplyResult.isEmpty_error] at hnot
        cases hnot
      · simp [confChangeResult, ApplyResult.isEmpty] at hnot
    · intro req m m' session hsome
      rw [hrequest] at hsome
      cases hsome
  | some req =>
    rw [processEntry_clientRequest sm hrequest] at hprocess
    have hexpire := hkept.expireSession e.1.reqTime hempty
    rcases applyRequest_ok_cases sm hprocess with rfl | ⟨session, sessions, hget, hcases⟩
    · exact hexpire
    · have hcleared : EmptyApplied r.applied
          (sessions.clearResult session req.context.lowestSeqNumNotYetReplied) :=
        hkept.clearResult _ _ (hkept.getSession hget hexpire)
      rcases hcases with rfl | happly
      · exact hcleared
      · exact applyCommand_emptyApplied sm hcleared
          (fun k hk => SessionManager.registered_of_getSession hget hk) happly

/-- Numbered requests are applied once and no copy of one ends the process, after every part of the
log, exactly when every copy finds an answer that is not empty. -/
theorem processEntry_exactlyOnce_iff {log : List TimedEntry} (hpos : ∀ e ∈ log, 0 < e.2.index)
    {r : Replica σ R} (htracks : r.sessions.tracks) (hsessions : r.sessions.toList = [])
    (happlied : r.applied = []) :
    (∀ pre, pre <+: log → ExactlyOnce (run (processEntry codecs sm info) r pre)) ↔
      ∀ pre e r', pre ++ [e] <+: log → run (processEntry codecs sm info) r pre = .ok r' →
        FindsAnswer codecs info r' e := by
  apply forall_prefix_run_iff (D := fun e : TimedEntry => 0 < e.2.index)
    (I := fun r => r.sessions.tracks = true ∧ EmptyApplied r.applied r.sessions)
  · rintro r e r' hpos ⟨htracks, hempty⟩ hprocess
    exact ⟨processEntry_tracks sm hpos htracks hprocess,
      processEntry_emptyApplied sm hpos hempty hprocess⟩
  · rintro r e hpos ⟨htracks, hempty⟩ honce
    cases hrequest : clientRequest codecs info e.2 with
    | none =>
      refine iff_of_true (exactlyOnce_other sm hpos hrequest honce) ?_
      intro req s hrequest'
      rw [hrequest] at hrequest'
      cases hrequest'
    | some req => exact exactlyOnce_request_iff sm hrequest htracks hempty honce
  · exact hpos
  · refine ⟨htracks, ?_⟩
    intro k s seq ar hfind
    have hmem := (SessionManager.find?_eq_some_iff.mp hfind).1
    rw [hsessions] at hmem
    cases hmem
  · rw [ExactlyOnce, happlied]
    exact nodup_nil

/-- A registration, two requests of the new session, the second of which says that the first has
been answered. -/
def twoRequests : RequestCodecs :=
  requestTable [registerRequest, sessionRequest 1 1 1 [10], sessionRequest 1 2 2 [20]] []

/-- The first request is committed once more after its answer was thrown away. -/
def lateCopy : List TimedEntry := normalLog [0, 1, 2, 1]

def earlyCopy : List TimedEntry := normalLog [0, 1, 1, 2]

def silent : StateMachine Nat Nat := fun n _ => (n + 1, .empty)

/-- The late copy is applied a second time; and with an empty answer, even the early copy ends the
process. -/
theorem lateCopy_applied_twice :
    (run (processEntry twoRequests counter ⟨0, false⟩) (newReplica (.lru ⟨8, .empty⟩) 0)
      lateCopy).map (·.applied.map Application.key) = .ok [(1, 1), (1, 2), (1, 1)] ∧
    (run (processEntry twoRequests silent ⟨0, false⟩) (newReplica (.expired ⟨100, .empty⟩) 0)
      earlyCopy).map (·.applied.map Application.key) =
        .error (.addResult (.sequenceNumberExists 1)) := by
  constructor
  · decide +kernel
  · decide +kernel

theorem earlyCopy_exactlyOnce_iff :
    (∀ pre, pre <+: earlyCopy → ExactlyOnce (run (processEntry twoRequests counter ⟨0, false⟩)
      (newReplica (.lru ⟨8, .empty⟩) 0) pre)) ↔
      ∀ pre e r, pre ++ [e] <+: earlyCopy → run (processEntry twoRequests counter ⟨0, false⟩)
        (newReplica (.lru ⟨8, .empty⟩) 0) pre = .ok r → FindsAnswer twoRequests ⟨0, false⟩ r e :=
  processEntry_exactlyOnce_iff counter (by decide) rfl rfl rfl

end Babuza.Raft
