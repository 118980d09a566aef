import Babuza.Raft.ConfChange

/-!
# The configuration that a snapshot carries

A snapshot is stored with the `ConfState` of the status when its context is created.
`sendRaftMessage` puts the `ConfState` of the status at a later time into the message
(`raft/raft_ready.go`, `raft/experimental/replica_raft_processor.go`); the metadata that goes with
the files keeps the stored one. The Ready loop makes the changes, the apply loop, behind it, the
snapshots. A change that its session has answered before sets the status back to the `ConfState` of
that answer. What the raft library makes of a change is a parameter.
-/

namespace Babuza.Raft

open Lib List

/-- An entry, as the Ready loop meets it: a change that is made, a change that its session answers
with a stored `ConfState`, or any other; a change that is refused is one of these. -/
inductive ConfEntry (C Δ : Type)
  | other
  | change (d : Δ)
  | answered (stored : C)
  deriving DecidableEq

variable {C Δ : Type} (change : C → Δ → C) (initial : C) (log : List (ConfEntry C Δ))

def ConfEntry.apply (c : C) : ConfEntry C Δ → C
  | .change d => change c d
  | .other | .answered _ => c

def ConfEntry.isChange : ConfEntry C Δ → Bool
  | .change _ => true
  | .other | .answered _ => false

/-- The configuration that the changes with an index up to `i` give. -/
def confAt (i : Nat) : C := (log.take i).foldl (ConfEntry.apply change) initial

/-- No entry behind the one index and up to the other is a change. -/
def NoChange (i j : Nat) : Prop := ∀ e ∈ (log.take (max i j)).drop (min i j), e.isChange = false

instance (i j : Nat) : Decidable (NoChange log i j) :=
  inferInstanceAs (Decidable (∀ e ∈ _, ConfEntry.isChange e = false))

variable {change initial log}

theorem foldl_apply_of_noChange {es : List (ConfEntry C Δ)} (h : ∀ e ∈ es, e.isChange = false)
    (c : C) : es.foldl (ConfEntry.apply change) c = c := by
  induction es with
  | nil => rfl
  | cons e es ih =>
    obtain ⟨he, hes⟩ := forall_mem_cons.mp h
    cases e with
    | change d => cases he
    | other | answered stored => exact ih hes

theorem NoChange.confAt_eq {i j : Nat} (h : NoChange log i j) :
    confAt change initial log i = confAt change initial log j := by
  have hle : ∀ {i j}, i ≤ j → NoChange log i j →
      confAt change initial log i = confAt change initial log j := by
    intro i j hij h
    unfold NoChange at h
    rw [max_eq_right hij, min_eq_left hij] at h
    have hsplit : log.take j = log.take i ++ (log.take j).drop i := by
      conv_lhs => rw [← take_append_drop i (log.take j)]
      rw [take_take, min_eq_left hij]
    unfold confAt
    rw [hsplit, foldl_append, foldl_apply_of_noChange h]
  rcases Nat.le_total i j with hij | hji
  · exact hle hij h
  · refine (hle hji ?_).symm
    unfold NoChange at h ⊢
    rwa [max_comm, min_comm]

theorem confAt_succ {i : Nat} {e : ConfEntry C Δ} (h : log[i]? = some e) :
    confAt change initial log (i + 1) = e.apply change (confAt change initial log i) := by
  unfold confAt
  rw [take_add_one, h, Option.toList_some, foldl_append]
  rfl

/-! ## A node -/

structure Snap (C : Type) where
  index : Nat
  conf : C
  deriving DecidableEq

/-- A snapshot that was received: what the message says, and what the metadata of the files says. -/
structure ReceivedSnap (C : Type) where
  message : Snap C
  fileConf : C
  deriving DecidableEq

/-- What the Ready loop hands over: a snapshot to install, and the entries up to `last`. -/
structure HandedOver (C : Type) where
  snapshot : Option (Snap C)
  last : Nat
  deriving DecidableEq

/-- A snapshot as it reaches a follower: the `ConfState` that its raft library gets, and the one in
the metadata. -/
structure SentSnap (C : Type) where
  index : Nat
  conf : C
  fileConf : C
  deriving DecidableEq

/-- The snapshot carries the configuration of its index, in the message and with the files. -/
def SentSnap.CarriesOwn (change : C → Δ → C) (initial : C) (log : List (ConfEntry C Δ))
    (m : SentSnap C) : Prop :=
  m.conf = confAt change initial log m.index ∧ m.fileConf = confAt change initial log m.index

/-- The Ready loop has handed over the entries up to `handed` and made the changes up to `changed`.
`configuration` is that of the raft library, `confState` that of the status, and `answer` the one
that a session has given back, as long as the status has it. -/
structure ConfNode (C : Type) where
  handed : Nat
  changed : Nat
  configuration : C
  confState : C
  answer : Option C
  applyCh : List (HandedOver C)
  applied : Nat
  contexts : List (Snap C)
  storage : Snap C
  files : Nat → Option C
  messages : List (Snap C)
  sent : List (SentSnap C)

inductive ConfNodeError
  | disabled
  | panic
  deriving DecidableEq

inductive ConfInput (C : Type)
  | ready (snapshot : Option (ReceivedSnap C)) (count : Nat)
  | change
  | apply
  | createContext
  | createSnapshot (ctx : Snap C)
  | message
  | send (m : Snap C)
  deriving DecidableEq

namespace ConfNode

section Model

variable [DecidableEq C] (change initial log)

def start : ConfNode C :=
  ⟨0, 0, initial, initial, none, [], 0, [], ⟨0, initial⟩, fun _ => none, [], []⟩

/-- A new snapshot is behind everything that was handed over; the library starts from it. -/
def restore (n : ConfNode C) : Option (ReceivedSnap C) → Except ConfNodeError (ConfNode C)
  | none => .ok n
  | some r =>
    if r.message.index ≤ n.handed then .error .disabled
    else .ok { n with
      handed := r.message.index
      changed := r.message.index
      configuration := r.message.conf
      storage := r.message
      files := Function.update n.files r.message.index (some r.fileConf) }

/-- The Ready loop hands a batch over, when it is through with the changes of the one before. -/
def ready (n : ConfNode C) (snapshot : Option (ReceivedSnap C)) (count : Nat) :
    Except ConfNodeError (ConfNode C) :=
  if n.changed ≠ n.handed then .error .disabled
  else do
    let n ← n.restore snapshot
    if log.length < n.handed + count then .error .disabled
    else .ok { n with
      handed := n.handed + count
      applyCh := n.applyCh ++ [⟨snapshot.map (·.message), n.handed + count⟩] }

def makeChange (n : ConfNode C) : Except ConfNodeError (ConfNode C) :=
  if n.changed < n.handed then
    match log[n.changed]? with
    | none => .error .disabled
    | some .other => .ok { n with changed := n.changed + 1 }
    | some (.change d) => .ok { n with
        changed := n.changed + 1
        configuration := change n.configuration d
        confState := change n.configuration d
        answer := none }
    | some (.answered stored) => .ok { n with
        changed := n.changed + 1
        confState := stored
        answer := some stored }
  else .error .disabled

def applyNext (n : ConfNode C) : Except ConfNodeError (ConfNode C) :=
  match n.applyCh with
  | [] => .error .disabled
  | b :: rest =>
    match b.snapshot with
    | none => .ok { n with applyCh := rest, applied := b.last }
    | some s =>
      if s.index ≤ n.applied then .error .panic
      else .ok { n with applyCh := rest, applied := b.last, confState := s.conf, answer := none }

/-- `CreateSnapshot` and the commit of the files. -/
def createSnapshot (n : ConfNode C) (ctx : Snap C) : Except ConfNodeError (ConfNode C) :=
  if ctx ∉ n.contexts then .error .disabled
  else if ctx.index ≤ n.storage.index then .error .panic
  else .ok { n with
    contexts := n.contexts.erase ctx
    storage := ctx
    files := Function.update n.files ctx.index (some ctx.conf) }

/-- `sendRaftMessage` for a `MsgSnap`: the message gets the `ConfState` of the status. -/
def sendSnapshot (n : ConfNode C) (m : Snap C) : Except ConfNodeError (ConfNode C) :=
  if m ∉ n.messages then .error .disabled
  else match n.files m.index with
    | none => .error .panic
    | some fileConf => .ok { n with
        messages := n.messages.erase m
        sent := ⟨m.index, n.confState, fileConf⟩ :: n.sent }

def exec (n : ConfNode C) : ConfInput C → Except ConfNodeError (ConfNode C)
  | .ready snapshot count => n.ready log snapshot count
  | .change => n.makeChange change log
  | .apply => n.applyNext
  | .createContext => .ok { n with contexts := ⟨n.applied, n.confState⟩ :: n.contexts }
  | .createSnapshot ctx => n.createSnapshot ctx
  | .message =>
    if n.storage.index = 0 then .error .disabled
    else .ok { n with messages := n.storage :: n.messages }
  | .send m => n.sendSnapshot m

/-! ## Loops that keep in step -/

def NoSnapshotWaits (batches : List (HandedOver C)) : Prop := ∀ b ∈ batches, b.snapshot = none

instance (batches : List (HandedOver C)) : Decidable (NoSnapshotWaits batches) :=
  inferInstanceAs (Decidable (∀ b ∈ batches, b.snapshot = none))

/-- A session whose answer the status has gave back the configuration of the changes made so far. -/
def AnswerFits (n : ConfNode C) : Prop := ∀ c ∈ n.answer, c = confAt change initial log n.changed

instance (n : ConfNode C) : Decidable (n.AnswerFits change initial log) :=
  inferInstanceAs (Decidable (∀ c ∈ n.answer, c = confAt change initial log n.changed))

/-- The Ready loop has made the changes up to the index and no others, when a context is created and
when a snapshot is sent, and the status does not have an old answer. A snapshot is installed before
later changes are made, and those that are received carry their own configuration. -/
def InStep (n : ConfNode C) : ConfInput C → Prop
  | .ready (some r) _ => r.message.conf = confAt change initial log r.message.index ∧
      r.fileConf = confAt change initial log r.message.index
  | .apply => ∀ b ∈ n.applyCh.head?, ∀ s ∈ b.snapshot,
      NoSnapshotWaits n.applyCh.tail → NoChange log s.index n.changed
  | .createContext => NoSnapshotWaits n.applyCh ∧ n.AnswerFits change initial log ∧
      NoChange log n.applied n.changed
  | .send m => NoSnapshotWaits n.applyCh ∧ n.AnswerFits change initial log ∧
      NoChange log m.index n.changed
  | _ => True

instance (n : ConfNode C) (i : ConfInput C) : Decidable (n.InStep change initial log i) := by
  unfold InStep
  split <;> infer_instance

end Model

variable {n n' : ConfNode C}

/-- Everything carries the configuration of its index. The status has the configuration of the
changes made so far, unless a received snapshot is still to be installed or it has an old answer. -/
structure Own (change : C → Δ → C) (initial : C) (log : List (ConfEntry C Δ)) (n : ConfNode C) :
    Prop where
  configuration : n.configuration = confAt change initial log n.changed
  confState : NoSnapshotWaits n.applyCh → n.AnswerFits change initial log →
    n.confState = confAt change initial log n.changed
  waiting : ∀ b ∈ n.applyCh, ∀ s ∈ b.snapshot, s.conf = confAt change initial log s.index
  contexts : ∀ ctx ∈ n.contexts, ctx.conf = confAt change initial log ctx.index
  files : ∀ i c, n.files i = some c → c = confAt change initial log i
  sent : ∀ m ∈ n.sent, m.CarriesOwn change initial log

theorem own_start : (start initial : ConfNode C).Own change initial log :=
  ⟨rfl, fun _ _ => rfl, nofun, nofun, nofun, nofun⟩

section

variable (h : n.Own change initial log)
include h

theorem Own.setFile {i : Nat} {c : C} (hc : c = confAt change initial log i) :
    ∀ j d, Function.update n.files i (some c) j = some d → d = confAt change initial log j := by
  intro j d hd
  by_cases hj : j = i
  · subst hj
    rw [Function.update_self] at hd
    rw [← Option.some.inj hd, hc]
  · rw [Function.update_of_ne hj] at hd
    exact h.files j d hd

theorem Own.ready {snapshot : Option (ReceivedSnap C)} {count : Nat}
    (hin : n.InStep change initial log (.ready snapshot count))
    (hready : n.ready log snapshot count = .ok n') : n'.Own change initial log := by
  unfold ConfNode.ready at hready
  split at hready
  · cases hready
  obtain ⟨n₁, hrestore, hready⟩ := bind_eq_ok.mp hready
  split at hready
  · cases hready
  cases hready
  cases snapshot with
  | none =>
    cases hrestore
    exact { h with
      confState := fun hwaits => h.confState fun b hb => hwaits b (mem_append_left _ hb)
      waiting := forall_mem_concat.mpr ⟨h.waiting, nofun⟩ }
  | some r =>
    simp only [restore] at hrestore
    split at hrestore
    · cases hrestore
    cases hrestore
    refine ⟨hin.1, fun hwaits _ => ?_, forall_mem_concat.mpr ⟨h.waiting, ?_⟩, h.contexts,
      h.setFile hin.2, h.sent⟩
    · cases hwaits _ (mem_append_right _ (mem_singleton_self _))
    · rintro s ⟨⟩
      exact hin.1

theorem Own.makeChange (hchange : n.makeChange change log = .ok n') :
    n'.Own change initial log := by
  unfold ConfNode.makeChange at hchange
  split at hchange
  · split at hchange
    · cases hchange
    next hentry =>
      cases hchange
      have hsucc : confAt change initial log (n.changed + 1) =
          confAt change initial log n.changed := confAt_succ hentry
      refine { h with configuration := ?_, confState := fun hwaits hfits => ?_ }
      · exact h.configuration.trans hsucc.symm
      · exact (h.confState hwaits fun c hc => (hfits c hc).trans hsucc).trans hsucc.symm
    next d hentry =>
      cases hchange
      have hnew : change n.configuration d = confAt change initial log (n.changed + 1) := by
        rw [confAt_succ hentry, h.configuration]
        rfl
      exact { h with configuration := hnew, confState := fun _ _ => hnew }
    next stored hentry =>
      cases hchange
      exact { h with
        configuration := h.configuration.trans (confAt_succ hentry).symm
        confState := fun _ hfits => hfits stored rfl }
  · cases hchange

theorem Own.applyNext (hin : n.InStep change initial log .apply) (happly : n.applyNext = .ok n') :
    n'.Own change initial log := by
  unfold ConfNode.applyNext at happly
  split at happly
  · cases happly
  next b rest hch =>
    have hrest : ∀ x ∈ rest, x ∈ n.applyCh := fun x hx => hch ▸ mem_cons_of_mem b hx
    split at happly
    next hnone =>
      cases happly
      refine { h with confState := fun hwaits => h.confState ?_, waiting := ?_ }
      · rw [hch]
        exact forall_mem_cons.mpr ⟨hnone, hwaits⟩
      · exact fun x hx => h.waiting x (hrest x hx)
    next s hsome =>
      split at happly
      · cases happly
      cases happly
      have hs : s.conf = confAt change initial log s.index :=
        h.waiting b (hch ▸ mem_cons_self) s hsome
      refine { h with confState := fun hwaits _ => ?_, waiting := ?_ }
      · unfold InStep at hin
        rw [hch] at hin
        exact hs.trans (hin b rfl s hsome hwaits).confAt_eq
      · exact fun x hx => h.waiting x (hrest x hx)

end

variable [DecidableEq C]

section

variable (h : n.Own change initial log)
include h

theorem Own.createSnapshot {ctx : Snap C} (hcreate : n.createSnapshot ctx = .ok n') :
    n'.Own change initial log := by
  unfold ConfNode.createSnapshot at hcreate
  split at hcreate
  · cases hcreate
  next hmem =>
    split at hcreate
    · cases hcreate
    cases hcreate
    refine { h with contexts := fun c hc => ?_, files := ?_ }
    · exact h.contexts c (mem_of_mem_erase hc)
    · exact h.setFile (h.contexts ctx (not_not.mp hmem))

theorem Own.sendSnapshot {m : Snap C} (hin : n.InStep change initial log (.send m))
    (hsend : n.sendSnapshot m = .ok n') : n'.Own change initial log := by
  unfold ConfNode.sendSnapshot at hsend
  split at hsend
  · cases hsend
  split at hsend
  · cases hsend
  next fileConf hfile =>
    cases hsend
    exact { h with
      sent := forall_mem_cons.mpr
        ⟨⟨(h.confState hin.1 hin.2.1).trans hin.2.2.confAt_eq.symm,
          h.files m.index fileConf hfile⟩, h.sent⟩ }

theorem Own.exec {i : ConfInput C} (hin : n.InStep change initial log i)
    (hexec : n.exec change log i = .ok n') : n'.Own change initial log := by
  cases i with
  | ready snapshot count => exact h.ready hin hexec
  | change => exact h.makeChange hexec
  | apply => exact h.applyNext hin hexec
  | createContext =>
    cases hexec
    exact { h with
      contexts := forall_mem_cons.mpr
        ⟨(h.confState hin.1 hin.2.1).trans hin.2.2.confAt_eq.symm, h.contexts⟩ }
  | createSnapshot ctx => exact h.createSnapshot hexec
  | message =>
    simp only [ConfNode.exec] at hexec
    split at hexec
    · cases hexec
    · cases hexec
      exact { h with }
  | send m => exact h.sendSnapshot hin hexec

end

/-- In every run in which the loops keep in step, each snapshot that is sent carries the
configuration of its index, in the message and with its files. -/
theorem sent_carries_own {inputs : List (ConfInput C)}
    (hrun : run (exec change log) (start initial) inputs = .ok n)
    (hin : Throughout (exec change log) (InStep change initial log) (start initial) inputs) :
    ∀ m ∈ n.sent, m.CarriesOwn change initial log :=
  (throughout_induction (fun h hin hexec => h.exec hin hexec) own_start hin hrun).sent

def addSecondPeer : List (ConfEntry Configuration (ConfChangeType × Nat)) :=
  [.other, .change (.addNode, 2)]

/-- A snapshot at index 1, then the change, then the snapshot is sent to the new peer. -/
def snapshotThenChange : List (ConfInput Configuration) :=
  [.ready none 1, .change, .apply, .createContext, .createSnapshot ⟨1, ⟨[1], []⟩⟩, .ready none 1,
    .apply, .change, .message, .ready none 0, .send ⟨1, ⟨[1], []⟩⟩]

/-- The message has the peer that was added behind the snapshot, the files have not. -/
theorem sent_with_later_configuration :
    (run (exec (fun c d => Configuration.change c d.1 d.2) addSecondPeer) (start ⟨[1], []⟩)
      snapshotThenChange).map (·.sent) = .ok [⟨1, ⟨[1, 2], []⟩, ⟨[1], []⟩⟩] ∧
    confAt (fun c d => Configuration.change c d.1 d.2) ⟨[1], []⟩ addSecondPeer 1 = ⟨[1], []⟩ := by
  decide +kernel

/-- The snapshot is taken behind the change, and a received one is passed on. -/
def changeThenSnapshot : List (ConfInput Configuration) :=
  [.ready (some ⟨⟨1, ⟨[1], []⟩⟩, ⟨[1], []⟩⟩) 1, .apply, .change, .createContext,
    .createSnapshot ⟨2, ⟨[1, 2], []⟩⟩, .message, .ready none 0, .send ⟨2, ⟨[1, 2], []⟩⟩]

theorem sent_with_own_configuration :
    ∃ n, run (exec (fun c d => Configuration.change c d.1 d.2) addSecondPeer) (start ⟨[1], []⟩)
        changeThenSnapshot = .ok n ∧
      n.sent = [⟨2, ⟨[1, 2], []⟩, ⟨[1, 2], []⟩⟩] ∧
      ∀ m ∈ n.sent, m.CarriesOwn (fun c d => Configuration.change c d.1 d.2) ⟨[1], []⟩
        addSecondPeer := by
  refine (exists_eq_ok (by decide +kernel)).imp fun n hn => ⟨hn, ?_, ?_⟩
  · revert n
    decide +kernel
  · exact sent_carries_own hn (by decide +kernel)

end ConfNode

end Babuza.Raft
