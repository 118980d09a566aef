import Babuza.Lib.Run
import Mathlib.Logic.Function.Basic

/-!
# Linearizable reads

A caller of `LinearizableRead` takes the current notifier, tries to wake the read loop and waits
(`raft/raft_linearizable_read.go`). The loop swaps the notifier, asks the raft library for the read
index, waits until it is applied, and completes the old notifier. A request context is a slice, so
the raft library keeps and gives back the address of the loop's only buffer (`readCtx`). `round` is
the notifier that a request was made for, which the program does not know.

A read is linearizable if every `ReadState` received answers a request of its round
(`reads_linearizable`). No request is lost if no caller sends while the loop is between the swap of
a notifier and the next receive (`no_request_lost`).
-/

namespace Babuza.Raft

open Lib List

/-! ## The parties -/

/-- A call of `LinearizableRead`, with the moment of its start. `done` keeps the moment at which the
call returned nil and the applied index of that moment. -/
inductive Caller
  | idle
  | holding (notifier start : Nat)
  | waiting (notifier start : Nat)
  | done (start finish appliedIndex : Nat)
  | failed
  deriving DecidableEq

inductive ReadLoop
  | starting
  | receiving (nextID : Nat)
  | received (nextID : Nat)
  | swapped (nextID oldNotifier : Nat)
  | requesting (oldNotifier : Nat)
  | awaiting (oldNotifier : Nat)
  | answered (oldNotifier index : Nat)
  | acquiring (oldNotifier index : Nat)
  | completing (oldNotifier index : Nat) (closed : Bool)
  | applied (oldNotifier : Nat)
  | stopped
  deriving DecidableEq

/-- The notifier of a caller that is about to send. -/
def Caller.held? : Caller → Option Nat
  | holding notifier _ => some notifier
  | _ => none

/-- The loop has a request and is about to swap the notifier. -/
def ReadLoop.isReceived : ReadLoop → Bool
  | received _ => true
  | _ => false

structure ReadRequest where
  requestCtx : Nat
  round : Nat
  deriving DecidableEq

structure ReadState where
  requestCtx : Nat
  index : Nat
  round : Nat
  deriving DecidableEq

structure ReadSystem where
  callers : Nat → Caller
  /-- The notifier of the `SignalManager`. -/
  current : Nat
  /-- The notifiers that are completed, and whether without an error. -/
  completed : Nat → Option Bool
  loop : ReadLoop
  nextID : Nat
  memory : Nat → Nat
  requests : List ReadRequest
  answers : List ReadState
  /-- What the Ready loop offers on `readStateCh`. -/
  sending : Option ReadState
  now : Nat
  appliedIndex : Nat
  lastCompletedID : Nat

def readCtx : Nat := 0

def ReadSystem.initial (appliedIndex : Nat) : ReadSystem where
  callers := fun _ => .idle
  current := 0
  completed := fun _ => none
  loop := .starting
  nextID := 0
  memory := fun _ => 0
  requests := []
  answers := []
  sending := none
  now := 0
  appliedIndex := appliedIndex
  lastCompletedID := 0

inductive ReadEvent
  /-- A caller takes the current notifier. -/
  | call (i : Nat)
  /-- A caller and the loop meet on `readIndexCh`. -/
  | send (i : Nat)
  /-- A caller finds nobody receiving. -/
  | skip (i : Nat)
  | returnNil (i : Nat)
  | returnError (i : Nat)
  | next
  | swap
  | putCtx
  | request (ok : Bool)
  | retry (ok : Bool)
  /-- The Ready loop and the read loop meet on `readStateCh`. -/
  | deliver
  | leaderChanged
  | timeout
  | check
  | acquire
  | completed
  | complete
  | stop
  /-- The raft library answers a request, or drops it. -/
  | handle (k : Nat)
  | drop (k : Nat)
  | ready
  | dropState
  | apply (index : Nat)
  | markCompleted
  | tick
  deriving DecidableEq

inductive NotEnabled
  | notEnabled
  deriving DecidableEq

namespace ReadSystem

/-- `CompleteWith`, and the next round. -/
def completeWith (s : ReadSystem) (notifier : Nat) (ok : Bool) : ReadSystem :=
  { s with completed := Function.update s.completed notifier (some ok), loop := .starting }

def setCaller (s : ReadSystem) (i : Nat) (c : Caller) : ReadSystem :=
  { s with callers := Function.update s.callers i c }

variable (commitAt : Nat → Nat)

def step (s : ReadSystem) : ReadEvent → Except NotEnabled ReadSystem
  | .call i =>
    match s.callers i with
    | .idle => .ok (s.setCaller i (.holding s.current s.now))
    | _ => .error .notEnabled
  | .send i =>
    match s.callers i, s.loop with
    | .holding notifier start, .receiving nextID =>
      .ok { s.setCaller i (.waiting notifier start) with loop := .received nextID }
    | _, _ => .error .notEnabled
  | .skip i =>
    match s.callers i, s.loop with
    | .holding _ _, .receiving _ => .error .notEnabled
    | .holding notifier start, _ => .ok (s.setCaller i (.waiting notifier start))
    | _, _ => .error .notEnabled
  | .returnNil i =>
    match s.callers i with
    | .waiting notifier start =>
      if s.completed notifier = some true then
        .ok (s.setCaller i (.done start s.now s.appliedIndex))
      else .error .notEnabled
    | _ => .error .notEnabled
  | .returnError i =>
    match s.callers i with
    | .holding _ _ | .waiting _ _ => .ok (s.setCaller i .failed)
    | _ => .error .notEnabled
  | .next =>
    match s.loop with
    | .starting => .ok { s with nextID := s.nextID + 1, loop := .receiving (s.nextID + 1) }
    | _ => .error .notEnabled
  | .swap =>
    match s.loop with
    | .received nextID =>
      .ok { s with current := s.current + 1, loop := .swapped nextID s.current }
    | _ => .error .notEnabled
  | .putCtx =>
    match s.loop with
    | .swapped nextID oldNotifier => .ok { s with
        memory := Function.update s.memory readCtx nextID
        loop := .requesting oldNotifier }
    | _ => .error .notEnabled
  | .request ok =>
    match s.loop with
    | .requesting oldNotifier =>
      if ok then .ok { s with
        requests := s.requests ++ [⟨readCtx, oldNotifier⟩]
        loop := .awaiting oldNotifier }
      else .ok (s.completeWith oldNotifier false)
    | _ => .error .notEnabled
  | .retry ok =>
    match s.loop with
    | .awaiting oldNotifier =>
      if ok then .ok { s with requests := s.requests ++ [⟨readCtx, oldNotifier⟩] }
      else .ok (s.completeWith oldNotifier false)
    | _ => .error .notEnabled
  | .deliver =>
    match s.sending, s.loop with
    | some rs, .awaiting oldNotifier =>
      -- `bytes.Equal(rs.RequestCtx, readCtx)` looks at the buffers as they are now
      .ok { s with
        sending := none
        loop := if s.memory rs.requestCtx = s.memory readCtx then .answered oldNotifier rs.index
          else .awaiting oldNotifier }
    | _, _ => .error .notEnabled
  | .leaderChanged =>
    match s.loop with
    | .receiving _ => .ok { s with loop := .starting }
    | .awaiting oldNotifier => .ok (s.completeWith oldNotifier false)
    | _ => .error .notEnabled
  | .timeout =>
    match s.loop with
    | .awaiting oldNotifier => .ok (s.completeWith oldNotifier false)
    | _ => .error .notEnabled
  | .check =>
    match s.loop with
    | .answered oldNotifier index => .ok { s with
        loop := if s.appliedIndex < index then .acquiring oldNotifier index
          else .applied oldNotifier }
    | _ => .error .notEnabled
  | .acquire =>
    match s.loop with
    | .acquiring oldNotifier index =>
      .ok { s with loop := .completing oldNotifier index (s.lastCompletedID ≥ index) }
    | _ => .error .notEnabled
  | .completed =>
    match s.loop with
    | .completing oldNotifier _ true => .ok { s with loop := .applied oldNotifier }
    | _ => .error .notEnabled
  | .complete =>
    match s.loop with
    | .applied oldNotifier => .ok (s.completeWith oldNotifier true)
    | _ => .error .notEnabled
  | .stop => .ok { s with loop := .stopped }
  | .handle k =>
    match s.requests[k]? with
    | some request => .ok { s with
        requests := s.requests.eraseIdx k
        answers := s.answers ++ [⟨request.requestCtx, commitAt s.now, request.round⟩] }
    | none => .error .notEnabled
  | .drop k => .ok { s with requests := s.requests.eraseIdx k }
  | .ready =>
    match s.sending, s.answers.getLast? with
    | none, some rs => .ok { s with answers := [], sending := some rs }
    | _, _ => .error .notEnabled
  | .dropState => .ok { s with sending := none }
  | .apply index => .ok { s with appliedIndex := index }
  | .markCompleted => .ok { s with
      lastCompletedID := s.appliedIndex
      loop := match s.loop with
        | .completing oldNotifier index closed =>
          .completing oldNotifier index (closed || index ≤ s.appliedIndex)
        | loop => loop }
  | .tick => .ok { s with now := s.now + 1 }

/-- What an event does, with what must be the case for it. -/
inductive Step (s : ReadSystem) : ReadEvent → ReadSystem → Prop
  | call {i} (hcaller : s.callers i = .idle) :
    Step s (.call i) (s.setCaller i (.holding s.current s.now))
  | send {i notifier start nextID} (hcaller : s.callers i = .holding notifier start)
      (hloop : s.loop = .receiving nextID) :
    Step s (.send i) { s.setCaller i (.waiting notifier start) with loop := .received nextID }
  | skip {i notifier start} (hcaller : s.callers i = .holding notifier start) :
    Step s (.skip i) (s.setCaller i (.waiting notifier start))
  | returnNil {i notifier start} (hcaller : s.callers i = .waiting notifier start)
      (hcompleted : s.completed notifier = some true) :
    Step s (.returnNil i) (s.setCaller i (.done start s.now s.appliedIndex))
  | returnError {i} : Step s (.returnError i) (s.setCaller i .failed)
  | next (hloop : s.loop = .starting) :
    Step s .next { s with nextID := s.nextID + 1, loop := .receiving (s.nextID + 1) }
  | swap {nextID} (hloop : s.loop = .received nextID) :
    Step s .swap { s with current := s.current + 1, loop := .swapped nextID s.current }
  | putCtx {nextID oldNotifier} (hloop : s.loop = .swapped nextID oldNotifier) :
    Step s .putCtx { s with
      memory := Function.update s.memory readCtx nextID
      loop := .requesting oldNotifier }
  | request {oldNotifier} (hloop : s.loop = .requesting oldNotifier) :
    Step s (.request true) { s with
      requests := s.requests ++ [⟨readCtx, oldNotifier⟩]
      loop := .awaiting oldNotifier }
  | requestError {oldNotifier} (hloop : s.loop = .requesting oldNotifier) :
    Step s (.request false) (s.completeWith oldNotifier false)
  | retry {oldNotifier} (hloop : s.loop = .awaiting oldNotifier) :
    Step s (.retry true) { s with requests := s.requests ++ [⟨readCtx, oldNotifier⟩] }
  | retryError {oldNotifier} (hloop : s.loop = .awaiting oldNotifier) :
    Step s (.retry false) (s.completeWith oldNotifier false)
  | deliver {rs oldNotifier} (hsending : s.sending = some rs)
      (hloop : s.loop = .awaiting oldNotifier) :
    Step s .deliver { s with
      sending := none
      loop := if s.memory rs.requestCtx = s.memory readCtx then .answered oldNotifier rs.index
        else .awaiting oldNotifier }
  | leaderChanged {nextID} (hloop : s.loop = .receiving nextID) :
    Step s .leaderChanged { s with loop := .starting }
  | leaderChangedError {oldNotifier} (hloop : s.loop = .awaiting oldNotifier) :
    Step s .leaderChanged (s.completeWith oldNotifier false)
  | timeout {oldNotifier} (hloop : s.loop = .awaiting oldNotifier) :
    Step s .timeout (s.completeWith oldNotifier false)
  | check {oldNotifier index} (hloop : s.loop = .answered oldNotifier index) :
    Step s .check { s with
      loop :=
        if s.appliedIndex < index then .acquiring oldNotifier index else .applied oldNotifier }
  | acquire {oldNotifier index} (hloop : s.loop = .acquiring oldNotifier index) :
    Step s .acquire { s with loop := .completing oldNotifier index (s.lastCompletedID ≥ index) }
  | completed {oldNotifier index} (hloop : s.loop = .completing oldNotifier index true) :
    Step s .completed { s with loop := .applied oldNotifier }
  | complete {oldNotifier} (hloop : s.loop = .applied oldNotifier) :
    Step s .complete (s.completeWith oldNotifier true)
  | stop : Step s .stop { s with loop := .stopped }
  | handle {k request} (hrequest : s.requests[k]? = some request) :
    Step s (.handle k) { s with
      requests := s.requests.eraseIdx k
      answers := s.answers ++ [⟨request.requestCtx, commitAt s.now, request.round⟩] }
  | drop {k} : Step s (.drop k) { s with requests := s.requests.eraseIdx k }
  | ready {rs} (hlast : s.answers.getLast? = some rs) :
    Step s .ready { s with answers := [], sending := some rs }
  | dropState : Step s .dropState { s with sending := none }
  | apply {index} : Step s (.apply index) { s with appliedIndex := index }
  | markCompletedWaiting {oldNotifier index closed}
      (hloop : s.loop = .completing oldNotifier index closed) :
    Step s .markCompleted { s with
      lastCompletedID := s.appliedIndex
      loop := .completing oldNotifier index (closed || index ≤ s.appliedIndex) }
  | markCompleted : Step s .markCompleted { s with lastCompletedID := s.appliedIndex }
  | tick : Step s .tick { s with now := s.now + 1 }

variable {s s' : ReadSystem} {e : ReadEvent}

variable {commitAt} in
theorem step_of_ok (h : s.step commitAt e = .ok s') : Step commitAt s e s' := by
  cases e with
  | call | send | next | swap | putCtx | deliver | timeout | check | acquire | completed | complete
  | handle | ready =>
    simp only [step] at h
    split at h <;> cases h
    constructor <;> assumption
  | skip i =>
    simp only [step] at h
    split at h <;> cases h
    exact .skip ‹_›
  | returnNil i =>
    simp only [step] at h
    split at h
    · split at h <;> cases h
      exact .returnNil ‹_› ‹_›
    · cases h
  | returnError i =>
    simp only [step] at h
    split at h <;> cases h
    · exact .returnError
    · exact .returnError
  | request ok | retry ok =>
    simp only [step] at h
    split at h
    · cases ok with
      | true | false =>
        cases h
        constructor
        assumption
    · cases h
  | leaderChanged =>
    simp only [step] at h
    split at h <;> cases h
    · exact .leaderChanged ‹_›
    · exact .leaderChangedError ‹_›
  | stop | drop | dropState | apply | tick =>
    cases h
    constructor
  | markCompleted =>
    simp only [step] at h
    split at h <;> cases h
    · exact .markCompletedWaiting ‹_›
    · exact .markCompleted

/-! ## No request is lost -/

/-- The loop waits for a request, a caller waits for the current notifier, and no caller is about to
send. -/
def RequestLost (s : ReadSystem) : Prop :=
  (∃ nextID, s.loop = .receiving nextID) ∧ (∃ i start, s.callers i = .waiting s.current start) ∧
    ∀ i notifier start, s.callers i ≠ .holding notifier start

/-- A caller that finds nobody receiving has a notifier that the loop has taken already, or will
take next. -/
def Heard (s : ReadSystem) : ReadEvent → Prop
  | .skip i => (s.callers i).held? = some s.current → s.loop.isReceived
  | _ => True

instance (s : ReadSystem) (e : ReadEvent) : Decidable (s.Heard e) := by
  cases e <;> unfold Heard <;> infer_instance

/-- The loop has been woken and has not swapped the notifier yet, or does not run any more. -/
def Woken : ReadLoop → Prop
  | .received _ | .stopped => True
  | _ => False

theorem woken_of_isReceived {loop : ReadLoop} (h : loop.isReceived) : Woken loop := by
  cases loop with
  | received nextID => trivial
  | _ => exact Bool.noConfusion h

/-- Notifiers are no newer than the current one, and who waits for the current one has woken the
loop. -/
structure Served (s : ReadSystem) : Prop where
  holding : ∀ {i notifier start}, s.callers i = .holding notifier start → notifier ≤ s.current
  waiting : ∀ {i notifier start}, s.callers i = .waiting notifier start → notifier ≤ s.current
  woken : ∀ {i start}, s.callers i = .waiting s.current start → Woken s.loop

theorem Served.of_loop (h : Served s) (hcallers : s'.callers = s.callers)
    (hcurrent : s'.current = s.current) (hloop : Woken s.loop → Woken s'.loop) : Served s' where
  holding := by
    rw [hcallers, hcurrent]
    exact h.holding
  waiting := by
    rw [hcallers, hcurrent]
    exact h.waiting
  woken := by
    rw [hcallers, hcurrent]
    exact fun hi => hloop (h.woken hi)

theorem setCaller_callers (s : ReadSystem) (i j : Nat) (c : Caller) :
    (s.setCaller i c).callers j = if j = i then c else s.callers j :=
  Function.update_apply s.callers i c j

variable {c : Caller}

theorem Served.setCaller (h : Served s) (i : Nat)
    (hholding : ∀ {notifier start}, c = .holding notifier start → notifier ≤ s.current)
    (hwaiting : ∀ {notifier start}, c = .waiting notifier start → notifier ≤ s.current ∧
      (notifier = s.current → Woken s.loop)) :
    Served (s.setCaller i c) where
  holding := by
    intro j notifier start hj
    rw [setCaller_callers] at hj
    split at hj
    · exact hholding hj
    · exact h.holding hj
  waiting := by
    intro j notifier start hj
    rw [setCaller_callers] at hj
    split at hj
    · exact (hwaiting hj).1
    · exact h.waiting hj
  woken := by
    intro j start hj
    rw [setCaller_callers] at hj
    split at hj
    · exact (hwaiting hj).2 rfl
    · exact h.woken hj

theorem Served.step (h : Served s) (hheard : s.Heard e) (hstep : Step commitAt s e s') :
    Served s' := by
  -- while the loop is in its round, or before it, nobody waits for the current notifier
  have hasleep : ∀ {s' : ReadSystem}, ¬ Woken s.loop → s'.callers = s.callers →
      s'.current = s.current → Served s' :=
    fun hloop hcallers hcurrent => h.of_loop hcallers hcurrent fun hwoken => absurd hwoken hloop
  cases hstep with
  | call hcaller =>
    refine h.setCaller _ (fun hc => ?_) nofun
    cases hc
    exact Nat.le_refl _
  | @send i notifier start nextID hcaller hloop =>
    have hserved : Served { s with loop := .received nextID } := h.of_loop rfl rfl fun _ => trivial
    refine hserved.setCaller i nofun fun hc => ?_
    cases hc
    exact ⟨h.holding hcaller, fun _ => trivial⟩
  | skip hcaller =>
    refine h.setCaller _ nofun fun hc => ?_
    cases hc
    refine ⟨h.holding hcaller, fun hcurrent => woken_of_isReceived (hheard ?_)⟩
    rw [hcaller, ← hcurrent]
    rfl
  | returnNil hcaller hcompleted | returnError => exact h.setCaller _ nofun nofun
  | swap hloop =>
    refine ⟨fun hi => Nat.le_succ_of_le (h.holding hi), fun hi => Nat.le_succ_of_le (h.waiting hi),
      fun hi => ?_⟩
    exact absurd (h.waiting hi) (Nat.not_succ_le_self _)
  | stop => exact h.of_loop rfl rfl fun _ => trivial
  | markCompletedWaiting hloop => exact hasleep (by rw [hloop]; exact id) rfl rfl
  | deliver hsending hloop => exact hasleep (by rw [hloop]; exact id) rfl rfl
  | handle hrequest | ready hlast => exact h.of_loop rfl rfl id
  | drop | dropState | apply | markCompleted | tick => exact h.of_loop rfl rfl id
  | _ hloop => exact hasleep (by rw [hloop]; exact id) rfl rfl

/-- If no caller tries to send between the swap of its notifier's forerunner and the loop's next
receive, no request is lost. -/
theorem no_request_lost {appliedIndex : Nat} {events : List ReadEvent} {s : ReadSystem}
    (hheard : Throughout (step commitAt) Heard (initial appliedIndex) events)
    (hrun : run (step commitAt) (initial appliedIndex) events = .ok s) : ¬ s.RequestLost := by
  have hserved : Served s :=
    throughout_induction (s := initial appliedIndex) (fun h hheard hstep => h.step commitAt hheard
      (step_of_ok hstep)) ⟨nofun, nofun, nofun⟩ hheard hrun
  rintro ⟨⟨nextID, hloop⟩, ⟨i, start, hwaiting⟩, -⟩
  have hwoken := hserved.woken hwaiting
  rw [hloop] at hwoken
  exact hwoken

/-- What follows the swap of notifier 0 in a round that goes well. -/
def goodRound : List ReadEvent :=
  [.request true, .handle 0, .ready, .deliver, .check, .complete, .returnNil 0]

/-- Caller 1 takes the new notifier while the loop is in its round, and finds nobody receiving. -/
def lateCaller : List ReadEvent :=
  [.next, .call 0, .send 0, .swap, .putCtx, .call 1, .skip 1] ++ goodRound ++ [.next]

theorem lateCaller_request_lost :
    ∃ s, run (step fun _ => 0) (initial 0) lateCaller = .ok s ∧ s.RequestLost := by
  refine ⟨_, rfl, ⟨_, rfl⟩, ⟨1, 0, rfl⟩, fun i notifier start hi => ?_⟩
  by_cases hzero : i = 0
  · rw [hzero] at hi
    cases hi
  · by_cases hone : i = 1
    · rw [hone] at hi
      cases hi
    · simp [setCaller, completeWith, initial, hzero, hone] at hi

/-- Caller 1 takes the same notifier as caller 0, and comes when the loop has just been woken. -/
def earlyCaller : List ReadEvent :=
  [.next, .call 0, .call 1, .send 0, .skip 1, .swap, .putCtx] ++ goodRound ++ [.next]

theorem earlyCaller_not_lost :
    ∃ s, run (step fun _ => 0) (initial 0) earlyCaller = .ok s ∧ ¬ s.RequestLost := by
  refine (exists_eq_ok (by decide +kernel)).imp fun s hrun => ⟨hrun, ?_⟩
  exact no_request_lost (fun _ => 0) (by decide +kernel) hrun

/-! ## Reads are linearizable -/

/-- The leader's commit index at some moment since `start` is no greater than `index`. -/
def ReadsSince (s : ReadSystem) (start index : Nat) : Prop :=
  ∃ t, start ≤ t ∧ t ≤ s.now ∧ commitAt t ≤ index

/-- Whoever has got nil had then applied what the leader had committed at some moment of the
call. -/
def Linearizable (s : ReadSystem) : Prop :=
  ∀ i start finish index, s.callers i = .done start finish index →
    ∃ t, start ≤ t ∧ t ≤ finish ∧ commitAt t ≤ index

/-- The `ReadState` that the loop receives answers a request of its present round, and the applied
index does not go back. -/
def Timely (s : ReadSystem) : ReadEvent → Prop
  | .deliver => ∀ rs ∈ s.sending, s.loop = .awaiting rs.round
  | .apply index => s.appliedIndex ≤ index
  | _ => True

instance (s : ReadSystem) (e : ReadEvent) : Decidable (s.Timely e) := by
  cases e <;> unfold Timely <;> infer_instance

def InCall (s : ReadSystem) (i notifier start : Nat) : Prop :=
  s.callers i = .holding notifier start ∨ s.callers i = .waiting notifier start

/-- For the calls with a notifier up to the given one, `index` is recent enough. -/
def Covered (s : ReadSystem) (notifier index : Nat) : Prop :=
  ∀ {i n start}, s.InCall i n start → n ≤ notifier → s.ReadsSince commitAt start index

/-- What the loop knows of the old notifier in its round. -/
def RoundSound (s : ReadSystem) : ReadLoop → Prop
  | .swapped _ oldNotifier | .requesting oldNotifier | .awaiting oldNotifier =>
    oldNotifier < s.current
  | .answered oldNotifier index | .acquiring oldNotifier index =>
    oldNotifier < s.current ∧ s.Covered commitAt oldNotifier index
  | .completing oldNotifier index closed =>
    oldNotifier < s.current ∧ s.Covered commitAt oldNotifier index ∧
      (closed = true → index ≤ s.appliedIndex)
  | .applied oldNotifier =>
    oldNotifier < s.current ∧ s.Covered commitAt oldNotifier s.appliedIndex
  | _ => True

structure Sound (s : ReadSystem) : Prop where
  started : ∀ {i notifier start}, s.InCall i notifier start → notifier ≤ s.current ∧ start ≤ s.now
  requests : ∀ request ∈ s.requests, request.round < s.current
  answers : ∀ rs ∈ s.answers, rs.round < s.current ∧ s.Covered commitAt rs.round rs.index
  sending : ∀ rs ∈ s.sending, rs.round < s.current ∧ s.Covered commitAt rs.round rs.index
  round : s.RoundSound commitAt s.loop
  completed : ∀ {notifier}, s.completed notifier = some true →
    notifier < s.current ∧ s.Covered commitAt notifier s.appliedIndex
  done : s.Linearizable commitAt
  lastCompletedID : s.lastCompletedID ≤ s.appliedIndex

variable {commitAt}

variable {index index' notifier oldNotifier start : Nat}

theorem ReadsSince.mono (h : s.ReadsSince commitAt start index) (hnow : s.now ≤ s'.now)
    (hindex : index ≤ index') : s'.ReadsSince commitAt start index' := by
  obtain ⟨t, hstart, ht, hcommit⟩ := h
  exact ⟨t, hstart, Nat.le_trans ht hnow, Nat.le_trans hcommit hindex⟩

/-- A later state, whose calls are old or have a notifier of now. -/
structure Later (s s' : ReadSystem) : Prop where
  calls : ∀ {i n start}, s'.InCall i n start → n < s.current → s.InCall i n start
  current : s.current ≤ s'.current
  now : s.now ≤ s'.now
  appliedIndex : s.appliedIndex ≤ s'.appliedIndex

theorem Later.covered (h : Later s s')
    (hknown : notifier < s.current ∧ s.Covered commitAt notifier index) (hindex : index ≤ index') :
    notifier < s'.current ∧ s'.Covered commitAt notifier index' :=
  ⟨Nat.lt_of_lt_of_le hknown.1 h.current, fun hcall hn =>
    (hknown.2 (h.calls hcall (Nat.lt_of_le_of_lt hn hknown.1)) hn).mono h.now hindex⟩

theorem Later.roundSound {loop : ReadLoop} (h : Later s s') (hround : s.RoundSound commitAt loop) :
    s'.RoundSound commitAt loop := by
  cases loop with
  | swapped _ _ | requesting _ | awaiting _ => exact Nat.lt_of_lt_of_le hround h.current
  | answered _ _ | acquiring _ _ => exact h.covered hround (Nat.le_refl _)
  | completing _ _ _ =>
    obtain ⟨hlt, hcovered, hclosed⟩ := hround
    have hnext := h.covered ⟨hlt, hcovered⟩ (Nat.le_refl _)
    exact ⟨hnext.1, hnext.2, fun hc => Nat.le_trans (hclosed hc) h.appliedIndex⟩
  | applied _ => exact h.covered hround h.appliedIndex
  | _ => trivial

theorem Sound.later (h : Sound commitAt s) (hlater : Later s s')
    (hrequests : s'.requests = s.requests) (hanswers : s'.answers = s.answers)
    (hsending : s'.sending = s.sending) (hloop : s'.loop = s.loop)
    (hcompleted : s'.completed = s.completed)
    (hstarted : ∀ {i notifier start}, s'.InCall i notifier start → notifier ≤ s'.current ∧
      start ≤ s'.now)
    (hdone : s'.Linearizable commitAt) (hlast : s'.lastCompletedID ≤ s'.appliedIndex) :
    Sound commitAt s' where
  started := hstarted
  requests := by
    rw [hrequests]
    exact fun request hrequest => Nat.lt_of_lt_of_le (h.requests request hrequest) hlater.current
  answers := by
    rw [hanswers]
    exact fun rs hrs => hlater.covered (h.answers rs hrs) (Nat.le_refl _)
  sending := by
    rw [hsending]
    exact fun rs hrs => hlater.covered (h.sending rs hrs) (Nat.le_refl _)
  round := by
    rw [hloop]
    exact hlater.roundSound h.round
  completed := by
    rw [hcompleted]
    exact fun hn => hlater.covered (h.completed hn) hlater.appliedIndex
  done := hdone
  lastCompletedID := hlast

theorem inCall_setCaller {i j : Nat} (h : (s.setCaller i c).InCall j notifier start) :
    s.InCall j notifier start ∨
      j = i ∧ (c = .holding notifier start ∨ c = .waiting notifier start) := by
  unfold InCall at h
  rw [setCaller_callers] at h
  split at h
  · exact .inr ⟨‹_›, h⟩
  · exact .inl h

section

variable (h : Sound commitAt s)
include h

theorem Sound.setCaller (i : Nat)
    (hcall : ∀ {notifier start}, c = .holding notifier start ∨ c = .waiting notifier start →
      s.InCall i notifier start ∨ notifier = s.current ∧ start = s.now)
    (hdone : ∀ {start finish index}, c = .done start finish index →
      ∃ t, start ≤ t ∧ t ≤ finish ∧ commitAt t ≤ index) :
    Sound commitAt (s.setCaller i c) := by
  have hlater : Later s (s.setCaller i c) := by
    refine ⟨fun {j n start} hj hn => ?_, Nat.le_refl _, Nat.le_refl _, Nat.le_refl _⟩
    rcases inCall_setCaller hj with hold | ⟨rfl, hnew⟩
    · exact hold
    · exact (hcall hnew).resolve_right fun heq => absurd heq.1 (Nat.ne_of_lt hn)
  refine h.later hlater rfl rfl rfl rfl rfl (fun {j n start} hj => ?_)
    (fun j start finish index hj => ?_) h.lastCompletedID
  · rcases inCall_setCaller hj with hold | ⟨rfl, hnew⟩
    · exact h.started hold
    · rcases hcall hnew with hold | ⟨rfl, rfl⟩
      · exact h.started hold
      · exact ⟨Nat.le_refl _, Nat.le_refl _⟩
  · rw [setCaller_callers] at hj
    split at hj
    · exact hdone hj
    · exact h.done j start finish index hj

theorem Sound.setLoop (loop : ReadLoop) (hround : s.RoundSound commitAt loop) :
    Sound commitAt { s with loop := loop } :=
  { h with round := hround }

theorem Sound.request (hold : oldNotifier < s.current) :
    Sound commitAt { s with requests := s.requests ++ [⟨readCtx, oldNotifier⟩] } := by
  exact { h with requests := forall_mem_concat.mpr ⟨h.requests, hold⟩ }

theorem Sound.completeWith {ok : Bool}
    (hok : ok = true → oldNotifier < s.current ∧ s.Covered commitAt oldNotifier s.appliedIndex) :
    Sound commitAt (s.completeWith oldNotifier ok) := by
  refine { h with round := trivial, completed := fun {n} hn => ?_ }
  have hn : Function.update s.completed oldNotifier (some ok) n = some true := hn
  rw [Function.update_apply] at hn
  split at hn
  · rename_i heq
    rw [heq]
    exact hok (Option.some.inj hn)
  · exact h.completed hn

theorem Sound.step (htimely : s.Timely e) (hstep : Step commitAt s e s') : Sound commitAt s' := by
  have hround := h.round
  cases hstep with
  | call hcaller =>
    refine h.setCaller _ (fun hc => .inr ?_) nofun
    rcases hc with hc | hc <;> cases hc
    exact ⟨rfl, rfl⟩
  | @send i notifier start nextID hcaller hloop =>
    have hnext : Sound commitAt { s with loop := .received nextID } := h.setLoop _ trivial
    refine hnext.setCaller i (fun hc => .inl ?_) nofun
    rcases hc with hc | hc <;> cases hc
    exact .inl hcaller
  | skip hcaller =>
    refine h.setCaller _ (fun hc => .inl ?_) nofun
    rcases hc with hc | hc <;> cases hc
    exact .inl hcaller
  | returnNil hcaller hcompleted =>
    refine h.setCaller _ (fun hc => hc.elim nofun nofun) fun hc => ?_
    cases hc
    exact (h.completed hcompleted).2 (.inr hcaller) (Nat.le_refl _)
  | returnError => exact h.setCaller _ (fun hc => hc.elim nofun nofun) nofun
  | next hloop =>
    exact { h with round := trivial }
  | @swap nextID hloop =>
    have hlater : Later s { s with current := s.current + 1 } :=
      ⟨fun hcall _ => hcall, Nat.le_succ _, Nat.le_refl _, Nat.le_refl _⟩
    have hnext : Sound commitAt { s with current := s.current + 1 } :=
      h.later hlater rfl rfl rfl rfl rfl
        (fun hcall => ⟨Nat.le_succ_of_le (h.started hcall).1, (h.started hcall).2⟩) h.done
        h.lastCompletedID
    exact hnext.setLoop (.swapped nextID s.current) (Nat.lt_succ_self _)
  | putCtx hloop =>
    rw [hloop] at hround
    exact { h with round := hround }
  | request hloop =>
    rw [hloop] at hround
    exact (h.request hround).setLoop _ hround
  | retry hloop =>
    rw [hloop] at hround
    exact h.request hround
  | requestError hloop | retryError hloop | leaderChangedError hloop | timeout hloop =>
    exact h.completeWith nofun
  | @deliver rs oldNotifier hsending hloop =>
    rw [hloop] at hround
    have hrs := h.sending rs hsending
    have hold : oldNotifier = rs.round :=
      ReadLoop.awaiting.inj (hloop.symm.trans (htimely rs hsending))
    have hloop' : s.RoundSound commitAt
        (if s.memory rs.requestCtx = s.memory readCtx then .answered oldNotifier rs.index
          else .awaiting oldNotifier) := by
      split
      · rwa [hold]
      · exact hround
    exact { h with sending := nofun, round := hloop' }
  | leaderChanged hloop | stop => exact h.setLoop _ trivial
  | check hloop =>
    rw [hloop] at hround
    apply h.setLoop
    split
    · exact hround
    · rename_i hle
      exact ⟨hround.1, fun hcall hn => (hround.2 hcall hn).mono (Nat.le_refl _) (Nat.not_lt.mp hle)⟩
  | acquire hloop =>
    rw [hloop] at hround
    exact h.setLoop _ ⟨hround.1, hround.2, fun hclosed =>
      Nat.le_trans (of_decide_eq_true hclosed) h.lastCompletedID⟩
  | completed hloop =>
    rw [hloop] at hround
    obtain ⟨hlt, hcovered, hclosed⟩ := hround
    exact h.setLoop _ ⟨hlt, fun hcall hn => (hcovered hcall hn).mono (Nat.le_refl _) (hclosed rfl)⟩
  | complete hloop =>
    rw [hloop] at hround
    exact h.completeWith fun _ => hround
  | @handle k request hrequest =>
    exact { h with
      requests := fun r hr => h.requests r (mem_of_mem_eraseIdx hr)
      answers := forall_mem_concat.mpr ⟨h.answers, h.requests request (mem_of_getElem? hrequest),
        fun hcall _ => ⟨s.now, (h.started hcall).2, Nat.le_refl _, Nat.le_refl _⟩⟩ }
  | drop =>
    exact { h with requests := fun r hr => h.requests r (mem_of_mem_eraseIdx hr) }
  | @ready rs hlast =>
    refine { h with answers := nofun, sending := fun rs' hrs' => ?_ }
    obtain rfl : rs = rs' := Option.some.inj hrs'
    exact h.answers rs (mem_of_getLast? hlast)
  | dropState =>
    exact { h with sending := nofun }
  | @apply index =>
    have hindex : s.appliedIndex ≤ index := htimely
    have hlater : Later s { s with appliedIndex := index } :=
      ⟨fun hcall _ => hcall, Nat.le_refl _, Nat.le_refl _, hindex⟩
    exact h.later hlater rfl rfl rfl rfl rfl h.started
      h.done (Nat.le_trans h.lastCompletedID hindex)
  | @markCompletedWaiting oldNotifier index closed hloop =>
    rw [hloop] at hround
    obtain ⟨hlt, hcovered, hclosed⟩ := hround
    have hloop' : s.RoundSound commitAt
        (.completing oldNotifier index (closed || index ≤ s.appliedIndex)) := by
      refine ⟨hlt, hcovered, fun hc => ?_⟩
      rcases Bool.or_eq_true_iff.mp hc with hc | hc
      · exact hclosed hc
      · exact of_decide_eq_true hc
    exact { h with round := hloop', lastCompletedID := Nat.le_refl _ }
  | markCompleted =>
    exact { h with lastCompletedID := Nat.le_refl _ }
  | tick =>
    have hlater : Later s { s with now := s.now + 1 } :=
      ⟨fun hcall _ => hcall, Nat.le_refl _, Nat.le_succ _, Nat.le_refl _⟩
    exact h.later hlater rfl rfl rfl rfl rfl
      (fun hcall => ⟨(h.started hcall).1, Nat.le_succ_of_le (h.started hcall).2⟩)
      h.done h.lastCompletedID

end

/-- If every `ReadState` that the loop receives answers a request of its present round, and the
applied index does not go back, whoever gets nil has applied what the leader had committed at some
moment of the call. -/
theorem reads_linearizable {appliedIndex : Nat} {events : List ReadEvent} {s : ReadSystem}
    (htimely : Throughout (step commitAt) Timely (initial appliedIndex) events)
    (hrun : run (step commitAt) (initial appliedIndex) events = .ok s) :
    s.Linearizable commitAt := by
  have hsound : Sound commitAt s :=
    throughout_induction (s := initial appliedIndex) (fun h htimely hstep => h.step htimely
      (step_of_ok hstep))
      ⟨fun hcall => hcall.elim nofun nofun, nofun, nofun, nofun, trivial, nofun, nofun,
        Nat.zero_le _⟩
      htimely hrun
  exact hsound.done

/-- The first request is answered at once, but its round ends before the answer comes. Then the
leader commits, and the answer is taken for that of the second request. -/
def lateAnswer : List ReadEvent :=
  [.next, .call 0, .send 0, .swap, .putCtx, .request true, .handle 0, .timeout, .returnError 0,
    .tick, .next, .call 1, .send 1, .swap, .putCtx, .request true, .ready, .deliver, .check,
    .complete, .returnNil 1]

/-- Caller 1 starts when the leader has committed 5, and gets nil with nothing applied. -/
theorem lateAnswer_not_linearizable :
    ∃ s, run (step fun t => if t = 0 then 0 else 5) (initial 0) lateAnswer = .ok s ∧
      s.callers 1 = .done 1 1 0 ∧ ¬ s.Linearizable fun t => if t = 0 then 0 else 5 := by
  have hrun : ∃ s, run (step fun t => if t = 0 then 0 else 5) (initial 0) lateAnswer = .ok s ∧
      s.callers 1 = .done 1 1 0 := ⟨_, rfl, rfl⟩
  obtain ⟨s, hrun, hdone⟩ := hrun
  refine ⟨s, hrun, hdone, fun h => ?_⟩
  obtain ⟨t, hstart, -, hcommit⟩ := h 1 1 1 0 hdone
  have hcommit : (if t = 0 then 0 else 5) ≤ 0 := hcommit
  rw [if_neg (by omega)] at hcommit
  omega

/-- The answer is received in its round, and the loop waits until it is applied. -/
def timelyAnswer : List ReadEvent :=
  [.next, .call 0, .send 0, .swap, .putCtx, .request true, .tick, .handle 0, .ready, .deliver,
    .check, .acquire, .apply 5, .markCompleted, .completed, .complete, .returnNil 0]

theorem timelyAnswer_linearizable :
    ∃ s, run (step fun t => if t = 0 then 0 else 5) (initial 0) timelyAnswer = .ok s ∧
      s.callers 0 = .done 0 1 5 ∧ s.Linearizable fun t => if t = 0 then 0 else 5 := by
  have hrun : ∃ s, run (step fun t => if t = 0 then 0 else 5) (initial 0) timelyAnswer = .ok s ∧
      s.callers 0 = .done 0 1 5 := ⟨_, rfl, rfl⟩
  obtain ⟨s, hrun, hdone⟩ := hrun
  exact ⟨s, hrun, hdone, reads_linearizable (by decide +kernel) hrun⟩

end ReadSystem

end Babuza.Raft
