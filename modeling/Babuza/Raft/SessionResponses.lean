import Babuza.Raft.ExactlyOnce

/-!
# The responses in a snapshot of the sessions

A snapshot writes down the results that a session keeps (`pkg/session/session.go`,
`pkg/session/apply_result_serializer.go`), with the serializer of the state machine for the
responses. A change of the configuration is answered with the new `ConfState`, so the serializer is
also given a value that the state machine never returned. It is not as long as no change is accepted
in a registered session; for a state machine that does not answer with a `ConfState` this is also
necessary (`serialized_iff`).
-/

namespace Babuza.Raft

open Lib List

variable {σ R : Type}

/-- `applyResultSerializer.Marshal`: the response that is given to the serializer of the state
machine. An error is written as its text. -/
def serializedResponse (ar : ApplyResult R) : Option (Response R) :=
  match ar.response, ar.error with
  | some response, none => some response
  | _, _ => none

/-- `Session.Snapshot`: the responses that are given to the serializer. -/
def serialized (s : Session R) : List (Response R) :=
  s.result.entries.filterMap fun x => serializedResponse x.2

variable (codecs : RequestCodecs) (sm : StateMachine σ R) (info : BasedStateMachineInfo) (st : σ)

/-- The state machine after the applications, from the state `st` on. -/
def stateAfter (applied : List Application) : σ :=
  applied.foldl (fun st a => (sm st a.command).1) st

/-- What the state machine returned for the applications. -/
def answers : σ → List Application → List (RequestContext × ApplyResult R)
  | _, [] => []
  | st, a :: applied => (a.context, (sm st a.command).2) :: answers (sm st a.command).1 applied

/-- The state machine returned the response for a request of the session. -/
def Returned (applied : List Application) (sessionID : Nat) (response : Response R) : Prop :=
  ∃ a ∈ answers sm st applied, a.1.sessionID = sessionID ∧ a.2.response = some response

/-- Every response that a snapshot gives to the serializer was returned by the state machine for a
request of the session. -/
def SerializesReturned (r : Replica σ R) : Prop :=
  ∀ s ∈ r.sessions.toList, ∀ response ∈ serialized s, Returned sm st r.applied s.id response

instance [DecidableEq R] (applied : List Application) (sessionID : Nat) (response : Response R) :
    Decidable (Returned sm st applied sessionID response) :=
  inferInstanceAs (Decidable (∃ a ∈ answers sm st applied, _))

instance [DecidableEq R] (r : Replica σ R) : Decidable (SerializesReturned sm st r) :=
  inferInstanceAs (Decidable (∀ s ∈ r.sessions.toList, _))

/-- The registered session and the configuration, if the entry is a change of the configuration that
is accepted and was not answered before. -/
def acceptedChange (r : Replica σ R) (e : TimedEntry) : Option (Nat × ConfState) :=
  if e.2.type = .confChange then
    match parseConfChangeEntry codecs e.2 with
    | none => none
    | some (cc, confReq) =>
      match (r.sessions.expireSession e.1.reqTime).getSession confReq.context.sessionID with
      | .ok (.registered sessionID, sessions) =>
        match sessions.getResult (.registered sessionID) confReq.context.sequenceNum,
          processConfChange codecs r.membership cc confReq with
        | none, .ok (.ok (confState, _), _) => some (sessionID, confState)
        | _, _ => none
      | _ => none
  else none

theorem answers_append (st : σ) (applied : List Application) (a : Application) :
    answers sm st (applied ++ [a]) =
      answers sm st applied ++ [(a.context, (sm (stateAfter sm st applied) a.command).2)] := by
  induction applied generalizing st with
  | nil => rfl
  | cons b applied ih =>
    rw [cons_append, answers, answers, ih]
    rfl

variable {applied : List Application}

theorem exists_of_mem_answers {st : σ} {a : RequestContext × ApplyResult R}
    (ha : a ∈ answers sm st applied) : ∃ st' c, a.2 = (sm st' c).2 := by
  induction applied generalizing st with
  | nil => cases ha
  | cons b applied ih =>
    rcases mem_cons.mp ha with rfl | ha
    · exact ⟨st, b.command, rfl⟩
    · exact ih ha

variable {codecs sm info st}

variable {response : Response R}

theorem Returned.append {sessionID : Nat} (h : Returned sm st applied sessionID response)
    (a : Application) : Returned sm st (applied ++ [a]) sessionID response := by
  obtain ⟨x, hx, h⟩ := h
  rw [Returned, answers_append]
  exact ⟨x, mem_append_left _ hx, h⟩

/-- The results in the sessions, by session and sequence number. -/
def ResultsReturned (sm : StateMachine σ R) (st : σ) (applied : List Application)
    (m : SessionManager R) : Prop :=
  ∀ k s seq ar, m.find? k = some s → s.getResult seq = some ar →
    ∀ response, serializedResponse ar = some response → Returned sm st applied k response

theorem serializesReturned_iff {r : Replica σ R} :
    SerializesReturned sm st r ↔ ResultsReturned sm st r.applied r.sessions := by
  constructor
  · intro h k s seq ar hfind hget response hresponse
    obtain ⟨hmem, rfl⟩ := SessionManager.find?_eq_some_iff.mp hfind
    refine h s hmem response (mem_filterMap.mpr ⟨⟨seq, ar⟩, ?_, hresponse⟩)
    exact AList.mem_lookup_iff.mp hget
  · intro h s hmem response hresponse
    obtain ⟨⟨seq, ar⟩, hentry, hresponse⟩ := mem_filterMap.mp hresponse
    exact h s.id s seq ar (SessionManager.find?_eq_some_iff.mpr ⟨hmem, rfl⟩)
      (AList.mem_lookup_iff.mpr hentry) response hresponse

theorem response_of_serialized {ar : ApplyResult R} (h : serializedResponse ar = some response) :
    ar.response = some response := by
  unfold serializedResponse at h
  split at h
  · rename_i hsome _
    cases h
    exact hsome
  · cases h

theorem kept_resultsReturned (sm : StateMachine σ R) (st : σ) (applied : List Application) :
    Kept (ResultsReturned (R := R) sm st applied) fun h _ ar => ∀ k, h = .registered k →
      ∀ response, serializedResponse ar = some response → Returned sm st applied k response :=
  kept_results R fun k _ ar => ∀ response, serializedResponse ar = some response →
    Returned sm st applied k response

/-! ## One entry -/

section Entry

variable {r r' : Replica σ R} {e : TimedEntry}

def Consistent (sm : StateMachine σ R) (st : σ) (r : Replica σ R) : Prop :=
  r.stateMachine = stateAfter sm st r.applied

variable {req : NormalRequest} {session : SessionHandle} {now : Int}

theorem applyCommand_returned {e : Entry} (hstate : Consistent sm st r)
    (hreturned : ResultsReturned sm st r.applied r.sessions)
    (hsession : ∀ k, session = .registered k → k = req.context.sessionID)
    (happly : applyCommand sm r now e req session = .ok r') :
    ResultsReturned sm st r'.applied r'.sessions := by
  obtain ⟨sessions, hadd, rfl⟩ := applyCommand_ok sm happly
  refine (kept_resultsReturned sm st (r.applied ++ [_])).addResult ?_ hadd ?_
  · -- the answer is stored that the state machine has just returned
    intro k hk response hresponse
    rw [Returned, answers_append, ← hstate]
    exact ⟨_, mem_append_right _ mem_cons_self, (hsession k hk).symm,
      response_of_serialized hresponse⟩
  · intro k s seq ar hfind hget response hresponse
    exact (hreturned k s seq ar hfind hget response hresponse).append _

theorem request_returned (hrequest : clientRequest codecs info e.2 = some req)
    (hstate : Consistent sm st r) (hreturned : ResultsReturned sm st r.applied r.sessions)
    (hprocess : processEntry codecs sm info r e = .ok r') :
    ResultsReturned sm st r'.applied r'.sessions := by
  have hkept := kept_resultsReturned sm st r.applied
  rw [processEntry_clientRequest sm hrequest] at hprocess
  have hexpire := hkept.expireSession e.1.reqTime hreturned
  rcases applyRequest_ok_cases sm hprocess with rfl | ⟨session, sessions, hget, hcases⟩
  · exact hexpire
  · have hcleared : ResultsReturned sm st r.applied
        (sessions.clearResult session req.context.lowestSeqNumNotYetReplied) :=
      hkept.clearResult _ _ (hkept.getSession hget hexpire)
    rcases hcases with rfl | happly
    · exact hcleared
    · exact applyCommand_returned
        (r :=
          { r with sessions := sessions.clearResult session req.context.lowestSeqNumNotYetReplied })
        hstate hcleared (fun k hk => SessionManager.registered_of_getSession hget hk) happly

theorem processEntry_consistent (hpos : 0 < e.2.index) (hstate : Consistent sm st r)
    (hprocess : processEntry codecs sm info r e = .ok r') : Consistent sm st r' := by
  cases hrequest : clientRequest codecs info e.2 with
  | none =>
    obtain ⟨happlied, hmachine⟩ := processEntry_machine_of_none sm hpos hrequest hprocess
    rwa [Consistent, hmachine, happlied]
  | some req =>
    rw [processEntry_clientRequest sm hrequest] at hprocess
    rcases applyRequest_ok_cases sm hprocess with rfl | ⟨session, sessions, -, rfl | happly⟩
    iterate 2 exact hstate
    · obtain ⟨sessions, -, rfl⟩ := applyCommand_ok sm happly
      simp only [Consistent, stateAfter, foldl_append, foldl_cons, foldl_nil]
      exact congrArg (fun s => (sm s _).1) hstate

theorem stored_of_addResult {m found m' : SessionManager R} {sid k lowest seq : Nat}
    {ar : ApplyResult R} (hget : m.getSession k = .ok (.registered sid, found))
    (hadd : (found.clearResult (.registered sid) lowest).addResult (.registered sid) seq now ar =
      .ok m') :
    ∃ s : Session R, m'.find? sid = some (s.withResult seq now ar) := by
  rcases SessionManager.getSession_eq_ok hget with ⟨hno, -⟩ | ⟨hreg, hsome, hsame⟩
  · cases hno
  · cases hreg
    obtain ⟨s, hfind⟩ := Option.isSome_iff_exists.mp hsome
    rw [← hsame] at hfind
    have hcleared : (found.clearResult (.registered sid) lowest).find? sid =
        some (s.clearResult lowest) :=
      (SessionManager.find?_modify_self found sid _ _).trans (congrArg _ hfind)
    exact ⟨_, SessionManager.find?_addResult_self hcleared hadd⟩

/-- A change of the configuration keeps the property exactly if it is not accepted in a registered
session, or the state machine has returned the same configuration before. -/
theorem change_returned_iff (hconf : e.2.type = .confChange)
    (hreturned : ResultsReturned sm st r.applied r.sessions)
    (hprocess : processEntry codecs sm info r e = .ok r') :
    ResultsReturned sm st r.applied r'.sessions ↔
      ∀ sid cs, acceptedChange codecs r e = some (sid, cs) →
        Returned sm st r.applied sid (.confState (some cs)) := by
  have hkept := kept_resultsReturned sm st r.applied
  have hexpire := hkept.expireSession e.1.reqTime hreturned
  rw [processEntry_confChange sm hconf, applyConfChangeEntry, if_pos hconf] at hprocess
  split at hprocess <;> cases hprocess
  rename_i ar removeSelf sessions' membership happly
  unfold facadeApplyConfChangeEntry at happly
  split at happly
  · cases happly
  · rename_i cc confReq hparse
    rcases applyParsedConfChange_ok_cases happly with
      ⟨⟨err, hget⟩, rfl, -⟩ | ⟨session, found, hget, hcases⟩
    · refine iff_of_true hexpire ?_
      simp [acceptedChange, hconf, hparse, hget]
    · have hcleared := hkept.clearResult session confReq.context.lowestSeqNumNotYetReplied
        (hkept.getSession hget hexpire)
      rcases hcases with ⟨hsome, rfl, -⟩ | ⟨hnone, outcome, hchange, hadd, -⟩
      · refine iff_of_true hcleared ?_
        cases session with
        | noOp => simp [acceptedChange, hconf, hparse, hget]
        | registered sid =>
          obtain ⟨stored, hsome⟩ := Option.isSome_iff_exists.mp hsome
          simp [acceptedChange, hconf, hparse, hget, hsome]
      · cases session with
        | noOp =>
          cases hadd
          refine iff_of_true hcleared ?_
          simp [acceptedChange, hconf, hparse, hget]
        | registered sid =>
          cases outcome with
          | error err =>
            refine iff_of_true (hkept.addResult ?_ hadd hcleared) ?_
            · simp [confChangeResult, serializedResponse]
            · simp [acceptedChange, hconf, hparse, hget, hnone, hchange]
          | ok accepted =>
            obtain ⟨confState, removed⟩ := accepted
            have haccepted : acceptedChange codecs r e = some (sid, confState) := by
              simp [acceptedChange, hconf, hparse, hget, hnone, hchange]
            constructor
            · intro h sid' cs heq
              cases haccepted.symm.trans heq
              obtain ⟨s, hs⟩ := stored_of_addResult hget hadd
              exact h sid _ _ _ hs (by rw [Session.getResult_withResult, if_pos rfl]) _ rfl
            · intro h
              refine hkept.addResult ?_ hadd hcleared
              rintro k hk response hresponse
              cases hk
              cases hresponse
              exact h _ _ haccepted

variable (sm info) in
theorem acceptedChange_ok {sid : Nat} {cs : ConfState}
    (h : acceptedChange codecs r e = some (sid, cs)) :
    e.2.type = .confChange ∧ ∃ r', processEntry codecs sm info r e = .ok r' := by
  unfold acceptedChange at h
  split at h
  case isFalse => cases h
  case isTrue hconf =>
    refine ⟨hconf, ?_⟩
    split at h
    · cases h
    · rename_i cc confReq hparse
      split at h
      · rename_i k found hget
        split at h
        · rename_i cs' removed m' hnone hchange
          obtain ⟨sessions', hadd⟩ := SessionManager.addResult_of_none
            (SessionManager.getResult_clearResult hnone confReq.context.lowestSeqNumNotYetReplied)
            e.1.reqTime (confChangeResult (R := R) e.2.index (.ok (cs', removed)))
          rw [processEntry_confChange sm hconf, applyConfChangeEntry, if_pos hconf,
            facadeApplyConfChangeEntry, hparse]
          simp only [applyParsedConfChange, hget, doExactlyOnce_none _ hnone, if_true, hchange,
            hadd]
          exact ⟨_, rfl⟩
        · cases h
      · cases h

theorem processEntry_returned_iff (hpos : 0 < e.2.index) (hstate : Consistent sm st r)
    (hreturned : ResultsReturned sm st r.applied r.sessions)
    (hprocess : processEntry codecs sm info r e = .ok r') :
    ResultsReturned sm st r'.applied r'.sessions ↔
      ∀ sid cs, acceptedChange codecs r e = some (sid, cs) →
        Returned sm st r.applied sid (.confState (some cs)) := by
  by_cases hconf : e.2.type = .confChange
  · have hrequest : clientRequest codecs info e.2 = none := by simp [clientRequest, hconf]
    rw [(processEntry_machine_of_none sm hpos hrequest hprocess).1]
    exact change_returned_iff hconf hreturned hprocess
  · refine iff_of_true ?_ (by simp [acceptedChange, hconf])
    cases hrequest : clientRequest codecs info e.2 with
    | some req => exact request_returned hrequest hstate hreturned hprocess
    | none =>
      rw [(processEntry_machine_of_none sm hpos hrequest hprocess).1]
      exact (kept_resultsReturned sm st _).other sm hpos hconf hrequest hreturned hprocess

end Entry

/-- In every state that a log leads to, the responses are those of the state machine exactly if each
accepted change is answered as the state machine has answered a request of the session before. -/
theorem log_returned_iff {log : List TimedEntry} (hpos : ∀ e ∈ log, 0 < e.2.index)
    {r : Replica σ R} (hsessions : r.sessions.toList = []) (happlied : r.applied = []) :
    (∀ pre, pre <+: log → ∀ r', run (processEntry codecs sm info) r pre = .ok r' →
      SerializesReturned sm r.stateMachine r') ↔
      ∀ pre e r', pre ++ [e] <+: log → run (processEntry codecs sm info) r pre = .ok r' →
        ∀ sid cs, acceptedChange codecs r' e = some (sid, cs) →
          Returned sm r.stateMachine r'.applied sid (.confState (some cs)) := by
  apply forall_prefix_run_iff (D := fun e : TimedEntry => 0 < e.2.index)
    (I := Consistent sm r.stateMachine)
    (Q := fun x => ∀ r', x = .ok r' → SerializesReturned sm r.stateMachine r')
  · intro r₁ e r₂ hpos hstate hprocess
    exact processEntry_consistent hpos hstate hprocess
  · intro r₁ e hpos hstate hreturned
    have hreturned := serializesReturned_iff.mp (hreturned r₁ rfl)
    cases hprocess : processEntry codecs sm info r₁ e with
    | ok r₂ =>
      rw [← processEntry_returned_iff hpos hstate hreturned hprocess, ← serializesReturned_iff]
      simp
    | error panic =>
      refine iff_of_true nofun ?_
      intro sid cs haccepted
      obtain ⟨-, r₂, hok⟩ := acceptedChange_ok sm info haccepted
      rw [hprocess] at hok
      cases hok
  · exact hpos
  · rw [Consistent, happlied]
    rfl
  · intro r' heq
    cases heq
    intro s hs
    rw [hsessions] at hs
    cases hs

/-- While no change of the configuration is accepted in a registered session, every response that a
snapshot of the sessions gives to the serializer was returned by the state machine for a request of
the session. If the state machine never returns a `ConfState`, this is necessary. -/
theorem serialized_iff (codecs : RequestCodecs) (sm : StateMachine σ R)
    (info : BasedStateMachineInfo) (log : List TimedEntry) (hpos : ∀ e ∈ log, 0 < e.2.index)
    (r : Replica σ R) (hsessions : r.sessions.toList = []) (happlied : r.applied = []) :
    (Throughout (processEntry codecs sm info) (fun r' e => acceptedChange codecs r' e = none) r
      log →
      ∀ pre, pre <+: log → ∀ r', run (processEntry codecs sm info) r pre = .ok r' →
        SerializesReturned sm r.stateMachine r') ∧
    ((∀ st c cs, (sm st c).2.response ≠ some (.confState cs)) →
      (∀ pre, pre <+: log → ∀ r', run (processEntry codecs sm info) r pre = .ok r' →
        SerializesReturned sm r.stateMachine r') →
      Throughout (processEntry codecs sm info) (fun r' e => acceptedChange codecs r' e = none) r
        log) := by
  rw [log_returned_iff hpos hsessions happlied, throughout_iff_forall]
  constructor
  · intro h pre e r' hfront hrun sid cs haccepted
    rw [h pre e r' hfront hrun] at haccepted
    cases haccepted
  · intro hvalues h pre e r' hfront hrun
    cases haccepted : acceptedChange codecs r' e with
    | none => rfl
    | some accepted =>
      obtain ⟨sid, cs⟩ := accepted
      obtain ⟨a, ha, -, hresponse⟩ := h pre e r' hfront hrun sid cs haccepted
      obtain ⟨st, c, heq⟩ := exists_of_mem_answers sm ha
      rw [heq] at hresponse
      exact absurd hresponse (hvalues st c _)

/-- A registration, a request of the new session, and a new voter, once without a session and once
as a request of the session. -/
def requestsAndChanges : RequestCodecs :=
  requestTable [registerRequest, sessionRequest 1 1 1 [10]]
    [(.addNode, changeRequest 0 0 ⟨2, "b", false, 0⟩),
      (.addNode, changeRequest 1 2 ⟨2, "b", false, 0⟩)]

/-- The registration, the request, and then the change at the given position. -/
def changedLog (position : UInt8) : List TimedEntry := normalLog [0, 1] ++ [changeEntry 3 position]

theorem change_without_session : ∃ r,
    run (processEntry requestsAndChanges counter ⟨0, false⟩)
      (newReplica (.lru ⟨8, .empty⟩) 0).withVoter (changedLog 0) = .ok r ∧
    SerializesReturned counter 0 r := by
  refine (exists_eq_ok (by decide +kernel)).imp fun r hrun => ⟨hrun, ?_⟩
  have hiff := serialized_iff requestsAndChanges counter ⟨0, false⟩ (changedLog 0) (by decide)
    (newReplica (.lru ⟨8, .empty⟩) 0).withVoter rfl rfl
  exact hiff.1 (by decide +kernel) _ (prefix_refl _) r hrun

/-- The change is made in the session: the snapshot gives its `ConfState` to the serializer, which
the state machine never returned. -/
theorem change_in_session : ∃ r,
    run (processEntry requestsAndChanges counter ⟨0, false⟩)
      (newReplica (.lru ⟨8, .empty⟩) 0).withVoter (changedLog 1) = .ok r ∧
    (∃ s ∈ r.sessions.toList, .confState (some ⟨[1, 2], [], [], [], false⟩) ∈ serialized s) ∧
    ¬ SerializesReturned counter 0 r := by
  refine (exists_eq_ok (by decide +kernel)).imp fun r hrun => ⟨hrun, ?_⟩
  revert r
  decide +kernel

end Babuza.Raft
