import Babuza.Raft.AppliedFacade

/-!
# Replicas with different clocks

Two replicas process the same log, each with its own clock. The clock decides in `ExpireSession`
only; all the rest stores the time of last activity, so a step commutes with forgetting these times.
With the LRU manager the replicas therefore agree. With the expiring manager they agree exactly when
at every entry that calls it the two clocks find the same sessions expired
(`processEntry_agree_iff`).
-/

namespace Babuza.Raft

open Lib List

variable {σ R : Type} {codecs : RequestCodecs} (sm : StateMachine σ R)
  {info : BasedStateMachineInfo}

/-! ## Steps without the clock -/

def Replica.forget (r : Replica σ R) : Replica σ R := { r with sessions := r.sessions.forget }

variable (r : Replica σ R) (now : Int)

theorem applyCommand_forget (e : Entry) (req : NormalRequest) (session : SessionHandle) :
    applyCommand sm r.forget 0 e req session =
      (applyCommand sm r now e req session).map Replica.forget := by
  unfold applyCommand
  simp only [Replica.forget, SessionManager.addResult_forget _ _ _ now]
  cases r.sessions.addResult session req.context.sequenceNum now
    (sm r.stateMachine ⟨e.term, e.index, req.stateMachineLog⟩).2 <;> rfl

theorem applyIfEmpty_forget (e : Entry) (req : NormalRequest) (session : SessionHandle)
    (ar : ApplyResult R) :
    (if ar.isEmpty then applyCommand sm r.forget 0 e req session else .ok r.forget) =
      (if ar.isEmpty then applyCommand sm r now e req session else .ok r).map Replica.forget := by
  split
  · exact applyCommand_forget sm r now e req session
  · rfl

theorem applyRequest_forget (e : Entry) (req : NormalRequest) :
    applyRequest sm r.forget 0 e req = (applyRequest sm r now e req).map Replica.forget := by
  unfold applyRequest
  simp only [Replica.forget, SessionManager.getSession_forget]
  cases r.sessions.getSession req.context.sessionID with
  | error err => rfl
  | ok found =>
    obtain ⟨session, sessions⟩ := found
    simp only [Except.map, SessionManager.getResult_forget, SessionManager.clearResult_forget]
    let cleared : Replica σ R := { r with
      sessions := sessions.clearResult session req.context.lowestSeqNumNotYetReplied }
    cases sessions.getResult session req.context.sequenceNum with
    | none => exact applyCommand_forget sm cleared now e req session
    | some ar => exact applyIfEmpty_forget sm cleared now e req session ar

variable (sessions : SessionManager R)

theorem doExactlyOnce_forget (index : Nat) (ctx : RequestContext) (session : SessionHandle) :
    doExactlyOnce sessions.forget index ctx session =
      let once := doExactlyOnce sessions index ctx session
      (once.1, once.2.1, once.2.2.forget) := by
  cases hresult : sessions.getResult session ctx.sequenceNum with
  | none =>
    rw [doExactlyOnce_none _ hresult, doExactlyOnce_none _
      ((SessionManager.getResult_forget _ _ _).trans hresult), SessionManager.clearResult_forget]
  | some ar =>
    rw [doExactlyOnce_some _ hresult, doExactlyOnce_some _
      ((SessionManager.getResult_forget _ _ _).trans hresult), SessionManager.clearResult_forget]

theorem applyParsedConfChange_forget (m : Membership) (reqTime : Int) (e : Entry) (cc : ConfChange)
    (confReq : ConfChangeRequest) :
    applyParsedConfChange codecs sessions.forget m 0 e cc confReq =
      (applyParsedConfChange codecs sessions m reqTime e cc confReq).map fun p =>
        (p.1, p.2.1, p.2.2.1.forget, p.2.2.2) := by
  unfold applyParsedConfChange
  rw [SessionManager.getSession_forget]
  cases sessions.getSession confReq.context.sessionID with
  | error err => rfl
  | ok found =>
    obtain ⟨session, sessions⟩ := found
    simp only [Except.map, doExactlyOnce_forget]
    generalize doExactlyOnce sessions e.index confReq.context session = once
    obtain ⟨toApply, ar, cleared⟩ := once
    split
    · cases processConfChange codecs m cc confReq with
      | error panic => rfl
      | ok done =>
        obtain ⟨outcome, m'⟩ := done
        dsimp only
        rw [SessionManager.addResult_forget _ _ _ reqTime]
        cases cleared.addResult session confReq.context.sequenceNum reqTime
          (confChangeResult e.index outcome) <;> rfl
    · rfl

theorem handleSessionRegister_forget (e : Entry) (reqTime : Int) (req : RegisterSessionRequest) :
    handleSessionRegister sessions.forget e 0 req =
      let registered := handleSessionRegister sessions e reqTime req
      (registered.1, registered.2.forget) := by
  unfold handleSessionRegister
  cases req.unregister with
  | true =>
    simp only [if_true, SessionManager.unRegister_forget]
    cases sessions.unRegister req.sessionID <;> rfl
  | false =>
    simp only [Bool.false_eq_true, if_false, SessionManager.register_forget _ _ reqTime]
    cases sessions.register e.index reqTime <;> rfl

/-! ## Where the clock decides -/

/-- Processing the entry begins with `ExpireSession`. -/
def expires (codecs : RequestCodecs) (info : BasedStateMachineInfo) (e : Entry) : Bool :=
  if e.type = .confChange then (parseConfChangeEntry codecs e).isSome
  else (clientRequest codecs info e).isSome

def Replica.expireFor (codecs : RequestCodecs) (info : BasedStateMachineInfo) (r : Replica σ R)
    (e : TimedEntry) : Replica σ R :=
  if expires codecs info e.2 then r.expireSession e.1.reqTime else r

variable {e : Entry}

theorem applyConfChangeEntry_forget (clock : Clock) {cc : ConfChange} {confReq : ConfChangeRequest}
    (hconf : e.type = .confChange) (hparse : parseConfChangeEntry codecs e = some (cc, confReq)) :
    (applyConfChangeEntry codecs r clock e).map Replica.forget =
      (applyParsedConfChange codecs (r.sessions.expireSession clock.reqTime).forget r.membership
        0 e cc confReq).map fun p => { r with
          sessions := p.2.2.1
          membership := { p.2.2.2 with
            confState := (newConfState p.1).getD p.2.2.2.confState } } := by
  rw [applyParsedConfChange_forget _ _ clock.reqTime, applyConfChangeEntry, if_pos hconf,
    facadeApplyConfChangeEntry, hparse]
  dsimp only
  cases applyParsedConfChange codecs (r.sessions.expireSession clock.reqTime) r.membership
    clock.reqTime e cc confReq <;> rfl

theorem applyEntry_forget (clock : Clock) (hnone : clientRequest codecs info e = none) :
    applyEntry codecs sm info r.forget ⟨0, 0⟩ e =
      (applyEntry codecs sm info r clock e).map Replica.forget := by
  unfold applyEntry
  by_cases hdata : e.data = []
  · rw [if_pos hdata, if_pos hdata]
    rfl
  · rw [if_neg hdata, if_neg hdata]
    cases htype : e.type with
    | confChange | confChangeV2 => rfl
    | normal =>
      dsimp only
      by_cases hopen : e.index ≤ info.openAppliedIndex
      · rw [if_pos hopen, if_pos hopen]
        split <;> rfl
      · rw [if_neg hopen, if_neg hopen, applyNormalEntry, applyNormalEntry]
        rw [clientRequest, if_pos ⟨hdata, htype, by omega⟩] at hnone
        cases hdecode : codecs.normalRequest e.data with
        | none => rfl
        | some req =>
          dsimp only
          cases hregister : req.register with
          | some register =>
            simp only [Replica.forget, handleSessionRegister_forget _ _ clock.reqTime]
            exact applyIfEmpty_forget sm { r with
              sessions := (handleSessionRegister r.sessions e clock.reqTime register).2 }
              clock.now e req .noOp _
          | none =>
            cases hpub : req.pubAppService with
            | some pubAppService =>
              exact applyIfEmpty_forget sm { r with membership := { r.membership with
                cluster := (handlePubAppService (R := R) r.membership.cluster e pubAppService).2 } }
                clock.now e req .noOp _
            | none =>
              rw [hdecode, Option.filter_some, hregister, hpub] at hnone
              cases hnone

theorem processEntry_congr {r r' : Replica σ R} {clock clock' : Clock}
    (h : (r.expireFor codecs info (clock, e)).forget =
      (r'.expireFor codecs info (clock', e)).forget) :
    (processEntry codecs sm info r (clock, e)).map Replica.forget =
      (processEntry codecs sm info r' (clock', e)).map Replica.forget := by
  unfold Replica.expireFor expires at h
  by_cases hconf : e.type = .confChange
  · rw [processEntry_confChange sm hconf, processEntry_confChange sm hconf]
    rw [if_pos hconf] at h
    cases hparse : parseConfChangeEntry codecs e with
    | none =>
      rw [applyConfChangeEntry, applyConfChangeEntry, if_pos hconf, if_pos hconf,
        facadeApplyConfChangeEntry, facadeApplyConfChangeEntry, hparse]
    | some parsed =>
      obtain ⟨cc, confReq⟩ := parsed
      rw [hparse] at h
      obtain ⟨hsessions, hmembership, hstate, happlied⟩ := Replica.mk.inj h
      rw [applyConfChangeEntry_forget r _ hconf hparse, applyConfChangeEntry_forget r' _ hconf
        hparse]
      have hsessions : (r.sessions.expireSession clock.reqTime).forget =
        (r'.sessions.expireSession clock'.reqTime).forget := hsessions
      have hmembership : r.membership = r'.membership := hmembership
      have hstate : r.stateMachine = r'.stateMachine := hstate
      have happlied : r.applied = r'.applied := happlied
      rw [hsessions, hmembership, hstate, happlied]
  · rw [if_neg hconf] at h
    cases hrequest : clientRequest codecs info e with
    | some req =>
      rw [hrequest] at h
      have h : (r.expireSession clock.reqTime).forget =
        (r'.expireSession clock'.reqTime).forget := h
      rw [processEntry_clientRequest sm hrequest, processEntry_clientRequest sm hrequest,
        ← applyRequest_forget, ← applyRequest_forget, h]
    | none =>
      rw [hrequest] at h
      have h : r.forget = r'.forget := h
      rw [processEntry_of_ne sm hconf, processEntry_of_ne sm hconf, ← applyEntry_forget sm r _
        hrequest, ← applyEntry_forget sm r' _ hrequest, h]

/-! ## What the clocks decide -/

/-- By either clock, the same sessions are due to expire. Only the expiring manager looks at the
clock. -/
def ExpiryAgrees : SessionManager R → Int → SessionManager R → Int → Prop
  | .expired m, now, .expired m', now' =>
    ∀ s ∈ m.sessions.toList, ∀ s' ∈ m'.sessions.toList, s.id = s'.id →
      m.isExpired now s = m'.isExpired now' s'
  | _, _, _, _ => True

theorem map_filter_congr {α β : Type} {f : α → β} {p q : α → Bool} {xs ys : List α}
    (hmap : xs.map f = ys.map f) (hpq : ∀ x ∈ xs, ∀ y ∈ ys, f x = f y → p x = q y) :
    (xs.filter p).map f = (ys.filter q).map f := by
  induction xs generalizing ys with
  | nil =>
    rw [map_nil, eq_comm, map_eq_nil_iff] at hmap
    rw [hmap]
    rfl
  | cons x xs ih =>
    cases ys with
    | nil => cases hmap
    | cons y ys =>
      rw [map_cons, map_cons, List.cons.injEq] at hmap
      have htail := ih hmap.2 fun a ha b hb =>
        hpq a (mem_cons_of_mem x ha) b (mem_cons_of_mem y hb)
      have hhead := hpq x mem_cons_self y mem_cons_self hmap.1
      cases hq : q y with
      | true =>
        rw [filter_cons_of_pos (hhead.trans hq), filter_cons_of_pos hq, map_cons,
          map_cons, hmap.1, htail]
      | false =>
        rw [filter_cons_of_neg (by rw [hhead, hq]; exact Bool.false_ne_true),
          filter_cons_of_neg (by rw [hq]; exact Bool.false_ne_true), htail]

variable {m m' : SessionManager R}

theorem expireSession_forget {now now' : Int} (hforget : m.forget = m'.forget)
    (hagrees : ExpiryAgrees m now m' now') :
    (m.expireSession now).forget = (m'.expireSession now').forget := by
  cases m with
  | noOp | lru l => cases m' <;> first | exact hforget | cases hforget
  | expired e =>
    cases m' with
    | noOp | lru l' => cases hforget
    | expired e' =>
      have hmanager := SessionManager.expired.inj hforget
      have htime : e.expiredTime = e'.expiredTime := (ExpiredManager.mk.inj hmanager).1
      have hsessions := congrArg (fun m => m.sessions.toList) hmanager
      have hfilter : ((e.expireSession now).sessions.map Session.forget Session.id_forget) =
          (e'.expireSession now').sessions.map Session.forget Session.id_forget := by
        apply Keyed.ext
        refine map_filter_congr hsessions fun s hs s' hs' heq => ?_
        have hid : s.id = s'.id := by simpa using congrArg Session.id heq
        rw [hagrees s hs s' hs' hid]
      simp only [SessionManager.expireSession, SessionManager.forget, hfilter]
      simp only [ExpiredManager.expireSession, htime]

theorem expiryAgrees_of_find? {now now' : Int}
    (h : ∀ k, ((m.expireSession now).find? k).isSome = ((m'.expireSession now').find? k).isSome) :
    ExpiryAgrees m now m' now' := by
  cases m with
  | noOp | lru l => exact trivial
  | expired e =>
    cases m' with
    | noOp | lru l' => exact trivial
    | expired e' =>
      intro s hs s' hs' hid
      have hfind : e.sessions.find? s.id = some s := Keyed.find?_eq_some_iff.mpr ⟨hs, rfl⟩
      have hfind' : e'.sessions.find? s.id = some s' := Keyed.find?_eq_some_iff.mpr ⟨hs', hid.symm⟩
      have hk := h s.id
      simp only [SessionManager.expireSession, ExpiredManager.expireSession, SessionManager.find?,
        Keyed.find?_filter, hfind, hfind', Option.filter_some] at hk
      cases hexp : e.isExpired now s <;> cases hexp' : e'.isExpired now' s' <;> simp_all

theorem processEntry_live {r r' : Replica σ R} {e : TimedEntry}
    (hexpires : expires codecs info e.2 = true)
    (hprocess : processEntry codecs sm info r e = .ok r') (k : Nat) :
    (r'.sessions.find? k).isSome = ((r.sessions.expireSession e.1.reqTime).find? k).isSome := by
  have hmodify : ∀ (m : SessionManager R) (sid : Nat) (f : Session R → Session R)
      (hf : ∀ s, (f s).id = s.id), ((m.modify sid f hf).find? k).isSome = (m.find? k).isSome := by
    intro m sid f hf
    by_cases heq : k = sid
    · rw [heq, SessionManager.find?_modify_self, Option.isSome_map]
    · rw [SessionManager.find?_modify_ne _ _ _ heq]
  have hkept : KeptInPlace (fun m : SessionManager R => (m.find? k).isSome =
      ((r.sessions.expireSession e.1.reqTime).find? k).isSome) fun _ _ _ => True := {
    getSession := by
      intro m sid h m' hget hP
      rcases SessionManager.getSession_eq_ok hget with ⟨-, rfl⟩ | ⟨-, -, hsame⟩
      · exact hP
      · rwa [hsame]
    clearResult := by
      intro m h lowest hP
      cases h with
      | noOp => exact hP
      | registered sid => exact (hmodify _ _ _ _).trans hP
    addResult := by
      intro m h seq now ar m' _ hadd hP
      cases h with
      | noOp =>
        cases hadd
        exact hP
      | registered sid =>
        rw [SessionManager.addResult_eq_modify hadd]
        exact (hmodify _ _ _ _).trans hP }
  unfold expires at hexpires
  split at hexpires
  · rename_i hconf
    obtain ⟨⟨cc, confReq⟩, hparse⟩ := Option.isSome_iff_exists.mp hexpires
    rw [processEntry_confChange sm hconf, applyConfChangeEntry, if_pos hconf,
      facadeApplyConfChangeEntry, hparse] at hprocess
    split at hprocess <;> cases hprocess
    rename_i happly
    exact hkept.applyParsedConfChange (fun _ _ _ => trivial) rfl happly
  · obtain ⟨req, hrequest⟩ := Option.isSome_iff_exists.mp hexpires
    rw [processEntry_clientRequest sm hrequest] at hprocess
    exact hkept.applyRequest sm (fun _ _ => trivial) rfl hprocess

/-- After its sessions have expired, the entry ends the process. -/
def EndsProcess (codecs : RequestCodecs) (info : BasedStateMachineInfo) (r : Replica σ R)
    (e : Entry) : Prop :=
  if e.type = .confChange then ∃ cc confReq, parseConfChangeEntry codecs e = some (cc, confReq) ∧
    ChangeFails codecs r.sessions r.membership cc confReq
  else ∃ req, clientRequest codecs info e = some req ∧ RequestFails r.sessions req.context

theorem processEntry_eq_error_iff (hexpires : expires codecs info e = true) :
    ∃ panic₀, ∀ (r : Replica σ R) clock panic,
      processEntry codecs sm info r (clock, e) = .error panic ↔
        panic = panic₀ ∧ EndsProcess codecs info (r.expireSession clock.reqTime) e := by
  unfold expires at hexpires
  unfold EndsProcess
  split at hexpires
  · rename_i hconf
    obtain ⟨⟨cc, confReq⟩, hparse⟩ := Option.isSome_iff_exists.mp hexpires
    refine ⟨.removedAllVoters, fun r clock panic => ?_⟩
    rw [processEntry_confChange sm hconf, applyConfChangeEntry, if_pos hconf, if_pos hconf,
      facadeApplyConfChangeEntry, hparse]
    have hiff : applyParsedConfChange codecs (r.sessions.expireSession clock.reqTime) r.membership
        clock.reqTime e cc confReq = .error panic ↔ _ := applyParsedConfChange_eq_error_iff
    split
    · simp_all [Replica.expireSession]
    · simp_all [Replica.expireSession]
  · rename_i hconf
    obtain ⟨req, hrequest⟩ := Option.isSome_iff_exists.mp hexpires
    refine ⟨.addResult (.sequenceNumberExists req.context.sequenceNum), fun r clock panic => ?_⟩
    rw [processEntry_clientRequest sm hrequest, applyRequest_eq_error_iff, if_neg hconf]
    simp [hrequest]

/-! ## A log -/

/-- The same live sessions, the same stored results and the same commands for the state machine. -/
structure SameState (r r' : Replica σ R) : Prop where
  live : ∀ k, (r.sessions.find? k).isSome = (r'.sessions.find? k).isSome
  result : ∀ k seq, r.sessions.getResult (.registered k) seq =
    r'.sessions.getResult (.registered k) seq
  commands : r.applied.map (·.command) = r'.applied.map (·.command)

def SameOutcome : Except ApplyPanic (Replica σ R) → Except ApplyPanic (Replica σ R) → Prop
  | .ok r, .ok r' => SameState r r'
  | .error panic, .error panic' => panic = panic'
  | _, _ => False

variable {p p' : Except ApplyPanic (Replica σ R)}

theorem SameOutcome.cases (h : SameOutcome p p') :
    (∃ panic, p = .error panic ∧ p' = .error panic) ∨
      ∃ r r', p = .ok r ∧ p' = .ok r' ∧ SameState r r' := by
  cases p <;> cases p'
  · exact .inl ⟨_, rfl, congrArg Except.error h.symm⟩
  · exact h.elim
  · exact h.elim
  · exact .inr ⟨_, _, rfl, rfl, h⟩

structure TwiceTimed where
  clock : Clock
  clock' : Clock
  entry : Entry

def TwiceTimed.first (x : TwiceTimed) : TimedEntry := (x.clock, x.entry)

def TwiceTimed.second (x : TwiceTimed) : TimedEntry := (x.clock', x.entry)

/-- The entry finds the same sessions due to expire, unless it ends both processes. -/
def AgreeAt (codecs : RequestCodecs) (info : BasedStateMachineInfo) (r r' : Replica σ R)
    (x : TwiceTimed) : Prop :=
  expires codecs info x.entry = true →
    ExpiryAgrees r.sessions x.clock.reqTime r'.sessions x.clock'.reqTime ∨
      EndsProcess codecs info (r.expireSession x.clock.reqTime) x.entry ∧
        EndsProcess codecs info (r'.expireSession x.clock'.reqTime) x.entry

theorem SameState.of_forget {r r' : Replica σ R} (h : r.forget = r'.forget) : SameState r r' := by
  obtain ⟨hsessions, -, -, happlied⟩ := Replica.mk.inj h
  refine ⟨fun k => ?_, fun k seq => ?_, congrArg _ happlied⟩
  · have := congrArg (fun m : SessionManager R => (m.find? k).isSome) hsessions
    simpa using this
  · rw [← SessionManager.getResult_forget r.sessions, hsessions, SessionManager.getResult_forget]

theorem SameOutcome.of_map (h : p.map Replica.forget = p'.map Replica.forget) :
    SameOutcome p p' := by
  cases p with
  | error panic =>
    cases p' with
    | error panic' => exact Except.error.inj h
    | ok r' => cases h
  | ok r =>
    cases p' with
    | error panic' => cases h
    | ok r' => exact SameState.of_forget (Except.ok.inj h)

variable {x : TwiceTimed}

theorem processEntry_map_forget {r r' : Replica σ R} (hforget : r.forget = r'.forget)
    (hagrees : expires codecs info x.entry = true → ExpiryAgrees r.sessions x.clock.reqTime
      r'.sessions x.clock'.reqTime) :
    (processEntry codecs sm info r x.first).map Replica.forget =
      (processEntry codecs sm info r' x.second).map Replica.forget := by
  apply processEntry_congr
  unfold Replica.expireFor
  split
  · rename_i hexpires
    obtain ⟨hsessions, hmembership, hstate, happlied⟩ := Replica.mk.inj hforget
    have hexpire := expireSession_forget hsessions (hagrees hexpires)
    simp only [Replica.expireSession, Replica.forget, hexpire]
    rw [hmembership, hstate, happlied]
  · exact hforget

theorem sameOutcome_iff {r r' : Replica σ R} (hforget : r.forget = r'.forget) :
    SameOutcome (processEntry codecs sm info r x.first) (processEntry codecs sm info r' x.second) ↔
      AgreeAt codecs info r r' x := by
  by_cases hexpires : expires codecs info x.entry = true
  · obtain ⟨panic₀, herror⟩ := processEntry_eq_error_iff (R := R) sm hexpires
    constructor
    · rintro hsame -
      obtain ⟨panic, hprocess, hprocess'⟩ | ⟨s, s', hprocess, hprocess', hstate⟩ := hsame.cases
      · exact .inr ⟨((herror ..).mp hprocess).2, ((herror ..).mp hprocess').2⟩
      · refine .inl (expiryAgrees_of_find? fun k => ?_)
        have hlive := processEntry_live sm (e := x.first) hexpires hprocess k
        have hlive' := processEntry_live sm (e := x.second) hexpires hprocess' k
        exact hlive.symm.trans ((SameState.live hstate k).trans hlive')
    · intro hagree
      rcases hagree hexpires with hagrees | ⟨hends, hends'⟩
      · exact .of_map (processEntry_map_forget sm hforget fun _ => hagrees)
      · rw [TwiceTimed.first, TwiceTimed.second, (herror ..).mpr ⟨rfl, hends⟩,
          (herror ..).mpr ⟨rfl, hends'⟩]
        exact rfl
  · exact iff_of_true (.of_map (processEntry_map_forget sm hforget fun h => absurd h hexpires))
      fun h => absurd h hexpires

theorem processEntry_forget_of_agree {r r' s s' : Replica σ R} (hforget : r.forget = r'.forget)
    (hagree : AgreeAt codecs info r r' x)
    (hprocess : processEntry codecs sm info r x.first = .ok s)
    (hprocess' : processEntry codecs sm info r' x.second = .ok s') : s.forget = s'.forget := by
  have h := processEntry_map_forget sm hforget fun hexpires =>
    (hagree hexpires).resolve_right fun hends => by
      obtain ⟨panic₀, herror⟩ := processEntry_eq_error_iff (R := R) sm hexpires
      cases hprocess.symm.trans ((herror ..).mpr ⟨rfl, hends.1⟩)
  rw [hprocess, hprocess'] at h
  exact Except.ok.inj h

theorem run_agree_iff {r r' : Replica σ R} {log : List TwiceTimed}
    (hforget : r.forget = r'.forget) : (∀ pre, pre <+: log →
      SameOutcome (run (processEntry codecs sm info) r (pre.map TwiceTimed.first))
        (run (processEntry codecs sm info) r' (pre.map TwiceTimed.second))) ↔
      ∀ pre x s s', pre ++ [x] <+: log →
        run (processEntry codecs sm info) r (pre.map TwiceTimed.first) = .ok s →
        run (processEntry codecs sm info) r' (pre.map TwiceTimed.second) = .ok s' →
        AgreeAt codecs info s s' x := by
  induction log generalizing r r' with
  | nil =>
    constructor
    · intro _ pre x s s' hfront
      exact absurd (prefix_nil.mp hfront) (by simp)
    · intro _ pre hfront
      rw [prefix_nil.mp hfront]
      exact SameState.of_forget hforget
  | cons x log ih =>
    constructor
    · intro h pre y s s' hfront hrun hrun'
      have hagree : AgreeAt codecs info r r' x := by
        have hsame := h [x] (by simp)
        rw [map_singleton, map_singleton, run_singleton, run_singleton] at hsame
        exact (sameOutcome_iff sm hforget).mp hsame
      cases pre with
      | nil =>
        cases hrun
        cases hrun'
        have hy : y = x := by simpa using hfront
        rwa [hy]
      | cons z pre =>
        obtain ⟨rfl, hrest⟩ := cons_prefix_cons.mp hfront
        obtain ⟨t, hstep, hrun⟩ := run_cons_eq_ok.mp hrun
        obtain ⟨t', hstep', hrun'⟩ := run_cons_eq_ok.mp hrun'
        have hnext := processEntry_forget_of_agree sm hforget hagree hstep hstep'
        refine (ih hnext).mp ?_ pre y s s' hrest hrun hrun'
        intro pre' hfront'
        have hsame := h (z :: pre') (cons_prefix_cons.mpr ⟨rfl, hfront'⟩)
        rwa [map_cons, map_cons, run_cons_ok _ hstep, run_cons_ok _ hstep'] at hsame
    · intro h pre hfront
      have hagree : AgreeAt codecs info r r' x := h [] x r r' (by simp) rfl rfl
      have hsame := (sameOutcome_iff sm hforget).mpr hagree
      cases pre with
      | nil => exact SameState.of_forget hforget
      | cons z pre =>
        obtain ⟨rfl, hrest⟩ := cons_prefix_cons.mp hfront
        rw [map_cons, map_cons]
        obtain ⟨panic, hstep, hstep'⟩ | ⟨t, t', hstep, hstep', -⟩ := hsame.cases
        · rw [run_cons_error _ hstep, run_cons_error _ hstep']
          exact rfl
        · rw [run_cons_ok _ hstep, run_cons_ok _ hstep']
          refine (ih (processEntry_forget_of_agree sm hforget hagree hstep hstep')).mpr ?_ pre hrest
          intro pre' y s s' hfront' hrun hrun'
          exact h (z :: pre') y s s' (cons_prefix_cons.mpr ⟨rfl, hfront'⟩)
            ((run_cons_ok _ hstep).trans hrun) ((run_cons_ok _ hstep').trans hrun')

/-- A session, a request of it, and another one. The second replica takes longer to get to the last
entry than a session may be inactive. -/
def slowReplica : List TwiceTimed :=
  [⟨⟨0, 0⟩, ⟨0, 0⟩, ⟨1, 1, .normal, [0]⟩⟩, ⟨⟨5, 5⟩, ⟨5, 5⟩, ⟨1, 2, .normal, [1]⟩⟩,
    ⟨⟨10, 10⟩, ⟨200, 200⟩, ⟨1, 3, .normal, [2]⟩⟩]

end Babuza.Raft
