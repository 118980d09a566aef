import Babuza.Lib.Run
import Mathlib.Data.Nat.Bitwise
import Mathlib.Logic.Function.Basic

/-!
# Reply ids

A call that proposes an entry waits under a reply id, which it writes into the entry. Every node
that applies the entry sends the result to whoever waits under that id there; so the ids have to be
different for all proposals of all nodes and of all their runs. An id has the low twelve bits of the
peer id and a sequence number that starts at the nanoseconds of the clock within the current second
(`idgenerator.New`, `NewRaft`). `results_exclusive_iff` says that peer ids which agree in these bits
and overlapping sequence numbers are all that can go wrong.
-/

namespace Babuza.Raft

open Lib List

def sequenceNumBits : Nat := 51

def memberBits : Nat := 12

def sequenceBitsMask : Nat := 2 ^ sequenceNumBits - 1

def memberBitsMask : Nat := 2 ^ memberBits - 1

structure ReplyId where
  seqNum : Nat
  peerID : Nat
  deriving DecidableEq

namespace ReplyId

def new (peerID seed : Nat) : ReplyId := ⟨seed, peerID &&& memberBitsMask⟩

def next (a : ReplyId) : Nat × ReplyId :=
  let seqNum := (a.seqNum + 1) % 2 ^ 64
  (((seqNum &&& sequenceBitsMask) <<< memberBits) % 2 ^ 64 ||| a.peerID,
    { a with seqNum := seqNum })

theorem new_peerID (peerID seed : Nat) : (new peerID seed).peerID = peerID % 2 ^ 12 :=
  Nat.and_two_pow_sub_one_eq_mod peerID 12

theorem next_fst {a : ReplyId} (h : a.peerID < 2 ^ 12) :
    a.next.1 = (a.seqNum + 1) % 2 ^ 51 * 2 ^ 12 + a.peerID := by
  have hmask : (a.seqNum + 1) % 2 ^ 64 &&& sequenceBitsMask = (a.seqNum + 1) % 2 ^ 51 := by
    rw [sequenceBitsMask, sequenceNumBits, Nat.and_two_pow_sub_one_eq_mod]
    exact Nat.mod_mod_of_dvd _ (pow_dvd_pow 2 (by decide))
  have hshift : ((a.seqNum + 1) % 2 ^ 51) <<< 12 < 2 ^ 64 := by
    rw [Nat.shiftLeft_eq]
    omega
  rw [next, hmask, memberBits, Nat.mod_eq_of_lt hshift, ← Nat.shiftLeft_add_eq_or_of_lt h,
    Nat.shiftLeft_eq]

end ReplyId

/-! ## Nodes that propose, apply and restart -/

/-- The nodes with their peer ids, and for each run of a node the `Nanosecond` of the clock at its
start. -/
structure Deployment (ι : Type) where
  peerID : ι → Nat
  peerID_injective : Function.Injective peerID
  peerID_pos : ∀ n, 0 < peerID n
  nanosecond : ι → Nat → Nat
  nanosecond_lt : ∀ n r, nanosecond n r < 10 ^ 9

/-- A proposal is known by its node, the run of that node and the place of its id among those that
the run has drawn. -/
structure Proposal (ι : Type) where
  node : ι
  run : Nat
  number : Nat
  deriving DecidableEq

/-- An entry. One that no call has proposed, as the changes of the configuration at the start of a
cluster, has reply id 0. -/
structure ReplyEntry (ι : Type) where
  replyID : Nat
  proposal : Option (Proposal ι)
  deriving DecidableEq

/-- A node in its current run: how many ids it has drawn, who waits under which id
(`resultReplier`), and how many entries of the log it has applied. -/
structure ReplyNode (ι : Type) where
  run : Nat
  drawn : Nat
  idGenerator : ReplyId
  results : Nat → Option (Proposal ι)
  applied : Nat

structure SentResult (ι : Type) where
  node : ι
  run : Nat
  caller : Proposal ι
  entry : ReplyEntry ι
  deriving DecidableEq

/-- The nodes, the entries proposed, the committed log, and all results sent to a caller. -/
structure ReplySystem (ι : Type) where
  nodes : ι → ReplyNode ι
  proposed : List (ReplyEntry ι)
  log : List (ReplyEntry ι)
  sent : List (SentResult ι)

inductive ReplyEvent (ι : Type)
  /-- the node stops, and starts from a state in which the given number of entries is applied -/
  | restart (node : ι) (applied : Nat)
  /-- an id that is not used for a proposal -/
  | next (node : ι)
  /-- `propose` and `proposeConfChange` -/
  | propose (node : ι)
  /-- `CancelResult` -/
  | cancelResult (node : ι) (replyID : Nat)
  | commit (entry : ReplyEntry ι)
  /-- an entry is passed over, or contained in an installed snapshot -/
  | skip (node : ι)
  /-- an entry is applied, with `SendAppliedResult` -/
  | apply (node : ι)

inductive ReplyError
  | disabled
  deriving DecidableEq

namespace ReplyNode

variable {ι : Type}

def draw (node : ReplyNode ι) : ReplyNode ι :=
  { node with drawn := node.drawn + 1, idGenerator := node.idGenerator.next.2 }

def nextID (node : ReplyNode ι) : Nat := node.idGenerator.next.1

/-- A channel is registered, or taken from the map. -/
def setResult (node : ReplyNode ι) (replyID : Nat) (caller : Option (Proposal ι)) : ReplyNode ι :=
  { node with results := Function.update node.results replyID caller }

def advance (node : ReplyNode ι) : ReplyNode ι := { node with applied := node.applied + 1 }

theorem setResult_self (node : ReplyNode ι) (id : Nat) (caller : Option (Proposal ι)) :
    (node.setResult id caller).results id = caller := by
  simp only [setResult, Function.update_self]

end ReplyNode

namespace ReplySystem

variable {ι : Type} (d : Deployment ι) (limit : ι → Nat → Nat)

def newRaft (n : ι) (r applied : Nat) : ReplyNode ι :=
  ⟨r, 0, .new (d.peerID n) (d.nanosecond n r), fun _ => none, applied⟩

def init : ReplySystem ι := ⟨fun n => newRaft d n 0 0, [], [], []⟩

section
variable [DecidableEq ι]

def setNode (s : ReplySystem ι) (n : ι) (node : ReplyNode ι) : ReplySystem ι :=
  { s with nodes := Function.update s.nodes n node }

/-- `Next`, `AcquireResultChan` and `Propose`: when the id is taken, the call fails. -/
def propose (s : ReplySystem ι) (n : ι) : ReplySystem ι :=
  let node := s.nodes n
  let caller : Proposal ι := ⟨n, node.run, node.drawn⟩
  match node.results node.nextID with
  | some _ => s.setNode n node.draw
  | none =>
    { s.setNode n (node.draw.setResult node.nextID (some caller)) with
      proposed := s.proposed ++ [⟨node.nextID, some caller⟩] }

def sendResult (s : ReplySystem ι) (n : ι) (e : ReplyEntry ι) : ReplySystem ι :=
  let node := s.nodes n
  match node.results e.replyID with
  | none => s.setNode n node.advance
  | some caller =>
    { s.setNode n (node.setResult e.replyID none).advance with
      sent := s.sent ++ [⟨n, node.run, caller, e⟩] }

/-- One step, where run `r` of node `n` may draw `limit n r` ids. -/
def step (s : ReplySystem ι) : ReplyEvent ι → Except ReplyError (ReplySystem ι)
  | .restart n applied =>
    if applied ≤ s.log.length then .ok (s.setNode n (newRaft d n ((s.nodes n).run + 1) applied))
    else .error .disabled
  | .next n =>
    if (s.nodes n).drawn < limit n (s.nodes n).run then .ok (s.setNode n (s.nodes n).draw)
    else .error .disabled
  | .propose n =>
    if (s.nodes n).drawn < limit n (s.nodes n).run then .ok (s.propose n) else .error .disabled
  | .cancelResult n replyID => .ok (s.setNode n ((s.nodes n).setResult replyID none))
  | .commit e =>
    if e ∈ s.proposed ∨ e = ⟨0, none⟩ then .ok { s with log := s.log ++ [e] } else .error .disabled
  | .skip n =>
    if (s.nodes n).applied < s.log.length then .ok (s.setNode n (s.nodes n).advance)
    else .error .disabled
  | .apply n =>
    match s.log[(s.nodes n).applied]? with
    | none => .error .disabled
    | some e => .ok (s.sendResult n e)

end

/-- Every result went to the call that proposed the entry, on that node and in the run in which it
was sent. -/
def Exclusive (s : ReplySystem ι) : Prop :=
  ∀ x ∈ s.sent, x.entry.proposal = some x.caller ∧ x.caller.node = x.node ∧ x.caller.run = x.run

/-- The ids of the proposals within the limits are pairwise different, and not 0: the peers differ
in the low twelve bits, or the sequence numbers in the low 51. -/
def Distinct : Prop :=
  (∀ c c' : Proposal ι, c.number < limit c.node c.run → c'.number < limit c'.node c'.run → c ≠ c' →
    d.peerID c.node % 2 ^ 12 ≠ d.peerID c'.node % 2 ^ 12 ∨
      (d.nanosecond c.node c.run + c.number) % 2 ^ 51 ≠
        (d.nanosecond c'.node c'.run + c'.number) % 2 ^ 51) ∧
  ∀ c : Proposal ι, c.number < limit c.node c.run →
    d.peerID c.node % 2 ^ 12 ≠ 0 ∨ (d.nanosecond c.node c.run + c.number + 1) % 2 ^ 51 ≠ 0

def replyID (c : Proposal ι) : Nat :=
  (d.nanosecond c.node c.run + c.number + 1) % 2 ^ 51 * 2 ^ 12 + d.peerID c.node % 2 ^ 12

variable {d limit}

variable {c c' : Proposal ι}

theorem replyID_eq_iff : replyID d c = replyID d c' ↔
    d.peerID c.node % 2 ^ 12 = d.peerID c'.node % 2 ^ 12 ∧
      (d.nanosecond c.node c.run + c.number) % 2 ^ 51 =
        (d.nanosecond c'.node c'.run + c'.number) % 2 ^ 51 := by
  unfold replyID
  omega

theorem replyID_eq_zero_iff : replyID d c = 0 ↔
    d.peerID c.node % 2 ^ 12 = 0 ∧ (d.nanosecond c.node c.run + c.number + 1) % 2 ^ 51 = 0 := by
  unfold replyID
  omega

def Generates (d : Deployment ι) (n : ι) (node : ReplyNode ι) : Prop :=
  node.idGenerator =
    ⟨(d.nanosecond n node.run + node.drawn) % 2 ^ 64, d.peerID n % 2 ^ 12⟩

theorem Generates.newRaft (n : ι) (r applied : Nat) : Generates d n (newRaft d n r applied) := by
  have hlt := d.nanosecond_lt n r
  have hseed : (d.nanosecond n r + 0) % 2 ^ 64 = d.nanosecond n r :=
    Nat.mod_eq_of_lt (by omega)
  simp only [Generates, ReplySystem.newRaft, hseed]
  rw [← ReplyId.new_peerID _ (d.nanosecond n r)]
  rfl

variable {node : ReplyNode ι} {n : ι}

theorem Generates.nextID (h : Generates d n node) :
    node.nextID = replyID d ⟨n, node.run, node.drawn⟩ := by
  have hpeer : d.peerID n % 2 ^ 12 < 2 ^ 12 := Nat.mod_lt _ (by decide)
  rw [ReplyNode.nextID, h, ReplyId.next_fst hpeer, replyID]
  dsimp only
  omega

theorem Generates.draw (h : Generates d n node) : Generates d n node.draw := by
  simp only [Generates, ReplyNode.draw, ReplyId.next, ReplyId.mk.injEq]
  rw [h]
  exact ⟨by dsimp only; omega, rfl⟩

/-! ## The invariant -/

/-- What a node holds: its generator, and callers of its current run that wait under their own
ids. -/
structure Waits (d : Deployment ι) (limit : ι → Nat → Nat) (n : ι) (node : ReplyNode ι) : Prop where
  generates : Generates d n node
  within : node.drawn ≤ limit n node.run
  caller : ∀ id c, node.results id = some c →
    c.node = n ∧ c.run = node.run ∧ c.number < node.drawn ∧ id = replyID d c

theorem Waits.newRaft (n : ι) (r applied : Nat) : Waits d limit n (newRaft d n r applied) where
  generates := .newRaft n r applied
  within := Nat.zero_le _
  caller := nofun

theorem Waits.draw (h : Waits d limit n node) (hlt : node.drawn < limit n node.run) :
    Waits d limit n node.draw where
  generates := h.generates.draw
  within := hlt
  caller := by
    intro id c hc
    obtain ⟨hnode, hrun, hnumber, hid⟩ := h.caller id c hc
    exact ⟨hnode, hrun, Nat.lt_succ_of_lt hnumber, hid⟩

theorem Waits.setResult (h : Waits d limit n node) (id : Nat) {caller : Option (Proposal ι)}
    (hcaller : ∀ c, caller = some c → c.node = n ∧ c.run = node.run ∧ c.number < node.drawn ∧
      id = replyID d c) :
    Waits d limit n (node.setResult id caller) where
  generates := h.generates
  within := h.within
  caller := by
    intro id' c hc
    by_cases heq : id' = id
    · subst heq
      exact hcaller c ((node.setResult_self id' caller).symm.trans hc)
    · exact h.caller id' c ((Function.update_of_ne heq ..).symm.trans hc)

theorem Waits.advance (h : Waits d limit n node) : Waits d limit n node.advance :=
  { h with }

structure Issued (d : Deployment ι) (limit : ι → Nat → Nat) (s : ReplySystem ι) : Prop where
  waits : ∀ n, Waits d limit n (s.nodes n)
  proposed : ∀ e ∈ s.proposed, ∃ c, e = ⟨replyID d c, some c⟩ ∧ c.number < limit c.node c.run
  log : ∀ e ∈ s.log, e ∈ s.proposed ∨ e = ⟨0, none⟩

theorem Issued.init : Issued d limit (init d) where
  waits := fun n => .newRaft n 0 0
  proposed := nofun
  log := nofun

variable [DecidableEq ι]

theorem setNode_self (s : ReplySystem ι) (n : ι) (node : ReplyNode ι) :
    (s.setNode n node).nodes n = node := by
  simp only [setNode, Function.update_self]

variable {s : ReplySystem ι}

theorem Issued.setNode (h : Issued d limit s) (hnode : Waits d limit n node) :
    Issued d limit (s.setNode n node) where
  waits := by
    intro m
    by_cases heq : m = n
    · subst heq
      rwa [setNode_self]
    · rw [show (s.setNode n node).nodes m = s.nodes m from Function.update_of_ne heq ..]
      exact h.waits m
  proposed := h.proposed
  log := h.log

theorem Issued.propose (h : Issued d limit s) (hlt : (s.nodes n).drawn < limit n (s.nodes n).run) :
    Issued d limit (s.propose n) := by
  have hnext := (h.waits n).generates.nextID
  unfold ReplySystem.propose
  dsimp only
  split
  · exact h.setNode ((h.waits n).draw hlt)
  · have hnode : Waits d limit n ((s.nodes n).draw.setResult (s.nodes n).nextID
        (some ⟨n, (s.nodes n).run, (s.nodes n).drawn⟩)) := by
      refine ((h.waits n).draw hlt).setResult _ fun c hc => ?_
      cases hc
      exact ⟨rfl, rfl, Nat.lt_succ_self _, hnext⟩
    obtain ⟨hwaits, hproposed, hlog⟩ := h.setNode hnode
    exact ⟨hwaits, forall_mem_concat.mpr ⟨hproposed, _, by rw [hnext], hlt⟩,
      fun e he => (hlog e he).imp_left (mem_append_left _)⟩

theorem Issued.sendResult (h : Issued d limit s) (n : ι) (e : ReplyEntry ι) :
    Issued d limit (s.sendResult n e) := by
  unfold ReplySystem.sendResult
  dsimp only
  split
  · exact h.setNode (h.waits n).advance
  · have hnode : Waits d limit n ((s.nodes n).setResult e.replyID none) :=
      (h.waits n).setResult e.replyID nofun
    obtain ⟨hwaits, hproposed, hlog⟩ := h.setNode hnode.advance
    exact ⟨hwaits, hproposed, hlog⟩

variable {t : ReplySystem ι} {event : ReplyEvent ι}

theorem Issued.step (h : Issued d limit s) (hstep : s.step d limit event = .ok t) :
    Issued d limit t := by
  cases event with
  | restart n applied =>
    simp only [ReplySystem.step] at hstep
    split at hstep <;> cases hstep
    exact h.setNode (.newRaft n _ applied)
  | next n =>
    simp only [ReplySystem.step] at hstep
    split at hstep <;> cases hstep
    exact h.setNode ((h.waits n).draw ‹_›)
  | propose n =>
    simp only [ReplySystem.step] at hstep
    split at hstep <;> cases hstep
    exact h.propose ‹_›
  | cancelResult n id =>
    cases hstep
    exact h.setNode ((h.waits n).setResult id nofun)
  | commit e =>
    simp only [ReplySystem.step] at hstep
    split at hstep <;> cases hstep
    exact { h with log := forall_mem_concat.mpr ⟨h.log, ‹_›⟩ }
  | skip n =>
    simp only [ReplySystem.step] at hstep
    split at hstep <;> cases hstep
    exact h.setNode (h.waits n).advance
  | apply n =>
    simp only [ReplySystem.step] at hstep
    split at hstep <;> cases hstep
    exact h.sendResult n _

variable {events : List (ReplyEvent ι)}

theorem Issued.run (h : Issued d limit s) (hrun : run (ReplySystem.step d limit) s events = .ok t) :
    Issued d limit t :=
  run_induction Issued.step h hrun

variable {e : ReplyEntry ι}

omit [DecidableEq ι] in
theorem Distinct.proposal_eq (hd : Distinct d limit) (h : Issued d limit s) (he : e ∈ s.log)
    (hc : (s.nodes n).results e.replyID = some c) :
    e.proposal = some c ∧ c.node = n ∧ c.run = (s.nodes n).run := by
  obtain ⟨hnode, hrun, hnumber, hid⟩ := (h.waits n).caller _ _ hc
  have hlimit : c.number < limit c.node c.run := by
    rw [hnode, hrun]
    exact hnumber.trans_le (h.waits n).within
  refine ⟨?_, hnode, hrun⟩
  rcases h.log e he with hproposed | rfl
  · obtain ⟨c', rfl, hlimit'⟩ := h.proposed e hproposed
    obtain ⟨hpeer, hseq⟩ := replyID_eq_iff.mp hid
    refine congrArg some (by_contra fun hne => ?_)
    rcases hd.1 c' c hlimit' hlimit hne with hpeer' | hseq'
    · exact hpeer' hpeer
    · exact hseq' hseq
  · obtain ⟨hpeer, hseq⟩ := replyID_eq_zero_iff.mp hid.symm
    rcases hd.2 c hlimit with hpeer' | hseq'
    · exact absurd hpeer hpeer'
    · exact absurd hseq hseq'

theorem Exclusive.step (hd : Distinct d limit) (h : Issued d limit s) (hs : s.Exclusive)
    (hstep : s.step d limit event = .ok t) : t.Exclusive := by
  have hsame : t.sent = s.sent → t.Exclusive := fun heq x hx => hs x (heq ▸ hx)
  cases event with
  | restart n applied | next n | commit e | skip n =>
    simp only [ReplySystem.step] at hstep
    split at hstep <;> cases hstep
    exact hsame rfl
  | propose n =>
    simp only [ReplySystem.step, ReplySystem.propose] at hstep
    split at hstep
    · split at hstep <;> cases hstep <;> exact hsame rfl
    · cases hstep
  | cancelResult n id =>
    cases hstep
    exact hsame rfl
  | apply n =>
    simp only [ReplySystem.step] at hstep
    split at hstep
    · cases hstep
    · rename_i e he
      simp only [ReplySystem.sendResult] at hstep
      split at hstep <;> cases hstep
      · exact hsame rfl
      · exact forall_mem_concat.mpr ⟨hs, hd.proposal_eq h (mem_of_getElem? he) ‹_›⟩

theorem Exclusive.run (hd : Distinct d limit)
    (hrun : run (ReplySystem.step d limit) (init d) events = .ok t) : t.Exclusive := by
  have h : Issued d limit t ∧ t.Exclusive :=
    run_induction (I := fun s => Issued d limit s ∧ s.Exclusive)
      (fun h hstep => ⟨h.1.step hstep, h.2.step hd h.1 hstep⟩) ⟨.init, nofun⟩ hrun
  exact h.2

/-! ## Equal ids -/

variable (d limit) in
def Reaches (s t : ReplySystem ι) : Prop :=
  ∃ events, Lib.run (ReplySystem.step d limit) s events = .ok t

theorem Reaches.refl (s : ReplySystem ι) : Reaches d limit s s := ⟨[], rfl⟩

theorem Reaches.trans {u : ReplySystem ι} (h : Reaches d limit s t) (h' : Reaches d limit t u) :
    Reaches d limit s u := by
  obtain ⟨events, hrun⟩ := h
  obtain ⟨events', hrun'⟩ := h'
  exact ⟨events ++ events', run_append_eq_ok.mpr ⟨t, hrun, hrun'⟩⟩

theorem Reaches.step {u : ReplySystem ι} (h : Reaches d limit s t) (event : ReplyEvent ι)
    (hstep : t.step d limit event = .ok u) : Reaches d limit s u :=
  h.trans ⟨[event], (run_singleton t event).trans hstep⟩

theorem Reaches.issued (h : Reaches d limit s t) (hs : Issued d limit s) : Issued d limit t := by
  obtain ⟨events, hrun⟩ := h
  exact hs.run hrun

theorem reaches_restart (s : ReplySystem ι) (n : ι) (j : Nat) :
    Reaches d limit s (s.setNode n (newRaft d n ((s.nodes n).run + (j + 1)) 0)) := by
  induction j with
  | zero =>
    refine (Reaches.refl s).step (.restart n 0) ?_
    rw [ReplySystem.step, if_pos (Nat.zero_le _)]
  | succ j ih =>
    refine ih.step (.restart n 0) ?_
    rw [ReplySystem.step, if_pos (Nat.zero_le _), setNode_self]
    simp only [setNode, Function.update_idem]
    rfl

variable (d limit) in
theorem reaches_next (s : ReplySystem ι) (n : ι) {j : Nat}
    (h : (s.nodes n).drawn + j ≤ limit n (s.nodes n).run) :
    ∃ node, Reaches d limit s (s.setNode n node) ∧ node.run = (s.nodes n).run ∧
      node.drawn = (s.nodes n).drawn + j ∧ node.results = (s.nodes n).results ∧
      node.applied = (s.nodes n).applied := by
  induction j with
  | zero =>
    refine ⟨s.nodes n, ?_, rfl, rfl, rfl, rfl⟩
    rw [setNode, Function.update_eq_self]
    exact .refl s
  | succ j ih =>
    obtain ⟨node, hreaches, hrun, hdrawn, hresults, happlied⟩ := ih (by omega)
    refine ⟨node.draw, hreaches.step (.next n) ?_, hrun, ?_, hresults, happlied⟩
    · have hlt : node.drawn < limit n node.run := by
        rw [hrun]
        omega
      rw [ReplySystem.step, setNode_self, if_pos hlt]
      simp only [setNode, Function.update_idem]
    · show node.drawn + 1 = _
      omega

variable (d limit) in
/-- In `t`, which is reached from `s` through the node of `c` alone, `c` has just been proposed. -/
structure Proposes (s t : ReplySystem ι) (c : Proposal ι) : Prop where
  reaches : Reaches d limit s t
  others : ∀ m, m ≠ c.node → t.nodes m = s.nodes m
  log : t.log = s.log
  proposed : ⟨replyID d c, some c⟩ ∈ t.proposed
  run : (t.nodes c.node).run = c.run
  drawn : (t.nodes c.node).drawn = c.number + 1
  waits : (t.nodes c.node).results (replyID d c) = some c
  applied : (t.nodes c.node).applied = 0

theorem Issued.step_propose (hs : Issued d limit s) (hlimit : c.number < limit c.node c.run)
    (hrun : (s.nodes c.node).run = c.run) (hdrawn : (s.nodes c.node).drawn = c.number)
    (hfree : (s.nodes c.node).results (replyID d c) = none) :
    s.step d limit (.propose c.node) = .ok
      { s.setNode c.node ((s.nodes c.node).draw.setResult (replyID d c) (some c)) with
        proposed := s.proposed ++ [⟨replyID d c, some c⟩] } := by
  have hcaller : (⟨c.node, (s.nodes c.node).run, (s.nodes c.node).drawn⟩ : Proposal ι) = c := by
    rw [hrun, hdrawn]
  have hnext : (s.nodes c.node).nextID = replyID d c := by
    rw [(hs.waits c.node).generates.nextID, hcaller]
  rw [ReplySystem.step, if_pos (by rw [hrun, hdrawn]; exact hlimit), ReplySystem.propose]
  simp only [hnext, hfree, hcaller]

theorem exists_proposes (hs : Issued d limit s) (hlimit : c.number < limit c.node c.run)
    (h : (s.nodes c.node).run < c.run ∨ (s.nodes c.node).run = c.run ∧
      (s.nodes c.node).drawn ≤ c.number ∧ (s.nodes c.node).results (replyID d c) = none ∧
      (s.nodes c.node).applied = 0) :
    ∃ t, Proposes d limit s t c := by
  -- the run of `c` is reached first, then the place of its id
  obtain ⟨node, hreaches, hrun, hdrawn, hresults, happlied⟩ :
      ∃ node, Reaches d limit s (s.setNode c.node node) ∧ node.run = c.run ∧
        node.drawn ≤ c.number ∧ node.results (replyID d c) = none ∧ node.applied = 0 := by
    rcases h with hlt | ⟨hrun, hdrawn, hresults, happlied⟩
    · obtain ⟨j, hj⟩ := Nat.exists_eq_add_of_lt hlt
      refine ⟨_, reaches_restart s c.node j, ?_, Nat.zero_le _, rfl, rfl⟩
      exact hj.symm
    · refine ⟨s.nodes c.node, ?_, hrun, hdrawn, hresults, happlied⟩
      rw [setNode, Function.update_eq_self]
      exact .refl s
  obtain ⟨node', hreaches', hrun', hdrawn', hresults', happlied'⟩ :=
    reaches_next d limit (s.setNode c.node node) c.node (j := c.number - node.drawn)
      (by rw [setNode_self, hrun]; omega)
  rw [setNode_self] at hrun' hdrawn' hresults' happlied'
  have hreach := hreaches.trans hreaches'
  have hset : (s.setNode c.node node).setNode c.node node' = s.setNode c.node node' := by
    simp only [setNode, Function.update_idem]
  rw [hset] at hreach
  have hstep := (hreach.issued hs).step_propose hlimit
    (by rw [setNode_self, hrun', hrun]) (by rw [setNode_self, hdrawn']; omega)
    (by rw [setNode_self, hresults', hresults])
  exact ⟨_, {
    reaches := hreach.step (.propose c.node) hstep
    others := fun m hm => by simp only [setNode, Function.update_of_ne hm]
    log := rfl
    proposed := mem_append_right _ (mem_singleton_self _)
    run := by
      simp only [setNode_self]
      exact hrun'.trans hrun
    drawn := by
      simp only [setNode_self]
      show node'.drawn + 1 = _
      omega
    waits := by
      simp only [setNode_self]
      exact ReplyNode.setResult_self _ _ _
    applied := by
      simp only [setNode_self]
      exact happlied'.trans happlied }⟩

theorem not_exclusive (hreach : Reaches d limit (init d) t)
    (he : t.log[(t.nodes n).applied]? = some e) (hc : (t.nodes n).results e.replyID = some c)
    (hne : e.proposal ≠ some c) :
    ∃ events u, run (ReplySystem.step d limit) (init d) events = .ok u ∧ ¬u.Exclusive := by
  have hstep : t.step d limit (.apply n) = .ok (t.sendResult n e) := by
    simp only [ReplySystem.step, he]
  obtain ⟨events, hrun⟩ := hreach.step (.apply n) hstep
  refine ⟨events, _, hrun, fun hexclusive => hne ?_⟩
  refine (hexclusive ⟨n, (t.nodes n).run, c, e⟩ ?_).1
  simp only [ReplySystem.sendResult, hc]
  exact mem_append_right _ (mem_singleton_self _)

theorem step_commit (h : e ∈ t.proposed ∨ e = ⟨0, none⟩) :
    t.step d limit (.commit e) = .ok { t with log := t.log ++ [e] } := by
  rw [ReplySystem.step, if_pos h]

theorem exists_proposes_of_new (hs : Issued d limit s) (hlimit : c.number < limit c.node c.run)
    (hnew : s.nodes c.node = newRaft d c.node 0 0) : ∃ t, Proposes d limit s t c := by
  refine exists_proposes hs hlimit ?_
  rw [hnew]
  rcases Nat.eq_zero_or_pos c.run with hzero | hpos
  · exact .inr ⟨hzero.symm, Nat.zero_le _, rfl, rfl⟩
  · exact .inl hpos

section

variable (hlimit : c.number < limit c.node c.run)
include hlimit

theorem crossed_nodes (hlimit' : c'.number < limit c'.node c'.run) (hne : c.node ≠ c'.node)
    (hid : replyID d c = replyID d c') :
    ∃ events u, run (ReplySystem.step d limit) (init d) events = .ok u ∧ ¬u.Exclusive := by
  obtain ⟨t, ht⟩ := exists_proposes_of_new (d := d) .init hlimit rfl
  obtain ⟨u, hu⟩ :=
    exists_proposes_of_new (ht.reaches.issued .init) hlimit' (ht.others _ hne.symm)
  have hnode : u.nodes c.node = t.nodes c.node := hu.others _ hne
  refine not_exclusive (n := c.node) (e := ⟨replyID d c', some c'⟩) (c := c)
    ((ht.reaches.trans hu.reaches).step _ (step_commit (.inl hu.proposed))) ?_ ?_ ?_
  · rw [hnode, ht.applied, hu.log, ht.log]
    rfl
  · rw [hnode, ← hid, ht.waits]
  · intro heq
    cases heq
    exact hne rfl

/-- A node gives out an id again, in a later run or later in the same one: the entry of the first
proposal, whose caller is gone, reaches the caller of the second. -/
theorem crossed_runs (hlimit' : c'.number < limit c'.node c'.run) (hnode : c.node = c'.node)
    (hlater : c.run < c'.run ∨ c.run = c'.run ∧ c.number < c'.number)
    (hid : replyID d c = replyID d c') :
    ∃ events u, run (ReplySystem.step d limit) (init d) events = .ok u ∧ ¬u.Exclusive := by
  obtain ⟨t, ht⟩ := exists_proposes_of_new (d := d) .init hlimit rfl
  let e : ReplyEntry ι := ⟨replyID d c, some c⟩
  let committed : ReplySystem ι := { t with log := t.log ++ [e] }
  have hcommitted : Reaches d limit (init d) committed :=
    ht.reaches.step (.commit e) (step_commit (.inl ht.proposed))
  let gone : ReplySystem ι :=
    committed.setNode c.node ((t.nodes c.node).setResult (replyID d c) none)
  have hgone : Reaches d limit (init d) gone :=
    hcommitted.step (.cancelResult c.node (replyID d c)) rfl
  have hself : gone.nodes c'.node = (t.nodes c.node).setResult (replyID d c) none := by
    rw [← hnode]
    exact setNode_self _ _ _
  obtain ⟨u, hu⟩ : ∃ u, Proposes d limit gone u c' := by
    refine exists_proposes (hgone.issued .init) hlimit' ?_
    rw [hself]
    rcases hlater with hlt | ⟨heq, hlt⟩
    · exact .inl (ht.run.trans_lt hlt)
    · refine .inr ⟨ht.run.trans heq, ht.drawn.trans_le hlt, ?_, ht.applied⟩
      rw [← hid]
      exact ReplyNode.setResult_self _ _ _
  refine not_exclusive (n := c'.node) (e := e) (c := c') (hgone.trans hu.reaches) ?_ ?_ ?_
  · have hlog : t.log = [] := ht.log
    rw [hu.applied, hu.log]
    show (t.log ++ [e])[0]? = some e
    rw [hlog]
    rfl
  · show (u.nodes c'.node).results (replyID d c) = some c'
    rw [hid, hu.waits]
  · intro heq
    have heq : c = c' := Option.some.inj heq
    rcases hlater with hlt | ⟨-, hlt⟩
    all_goals exact absurd (heq ▸ hlt) (lt_irrefl _)

theorem crossed_zero (hid : replyID d c = 0) :
    ∃ events u, run (ReplySystem.step d limit) (init d) events = .ok u ∧ ¬u.Exclusive := by
  obtain ⟨t, ht⟩ := exists_proposes_of_new (d := d) .init hlimit rfl
  refine not_exclusive (n := c.node) (e := ⟨0, none⟩) (c := c)
    (ht.reaches.step _ (step_commit (.inr rfl))) ?_ ?_ nofun
  · have hlog : t.log = [] := ht.log
    rw [ht.applied, hlog]
    rfl
  · rw [← hid, ht.waits]

end

/-- In every run every result reaches the call that proposed the entry, in the run of the node that
proposed it, exactly if no id is given out twice and none is 0. -/
theorem results_exclusive_iff (d : Deployment ι) (limit : ι → Nat → Nat) :
    (∀ events s, run (ReplySystem.step d limit) (init d) events = .ok s → s.Exclusive) ↔
      Distinct d limit := by
  constructor
  · intro h
    have hnone : ¬∃ events u, run (ReplySystem.step d limit) (init d) events = .ok u ∧
        ¬u.Exclusive := by
      rintro ⟨events, u, hrun, hu⟩
      exact hu (h events u hrun)
    constructor
    · intro c c' hlimit hlimit' hne
      by_contra hsame
      rw [not_or, not_not, not_not] at hsame
      have hid := replyID_eq_iff.mpr hsame
      by_cases hnode : c.node = c'.node
      · rcases Nat.lt_trichotomy c.run c'.run with hlt | heq | hlt
        · exact hnone (crossed_runs hlimit hlimit' hnode (.inl hlt) hid)
        · rcases Nat.lt_trichotomy c.number c'.number with hnumber | hnumber | hnumber
          · exact hnone (crossed_runs hlimit hlimit' hnode (.inr ⟨heq, hnumber⟩) hid)
          · cases c
            cases c'
            exact hne (by simp_all)
          · exact hnone (crossed_runs hlimit' hlimit hnode.symm (.inr ⟨heq.symm, hnumber⟩) hid.symm)
        · exact hnone (crossed_runs hlimit' hlimit hnode.symm (.inl hlt) hid.symm)
      · exact hnone (crossed_nodes hlimit hlimit' hnode hid)
    · intro c hlimit
      by_contra hzero
      rw [not_or, not_not, not_not] at hzero
      exact hnone (crossed_zero hlimit (replyID_eq_zero_iff.mpr hzero))
  · intro hd events s hrun
    exact Exclusive.run hd hrun

def farPeers : Deployment Bool where
  peerID n := if n then 4097 else 1
  peerID_injective := by
    rintro (_ | _) (_ | _) <;> simp
  peerID_pos := by decide
  nanosecond _ _ := 5
  nanosecond_lt _ _ := by decide

/-- Both peers propose, and the entry of the second is committed and applied: the first peer sends
its result to its own caller. -/
theorem result_sent_to_other_node :
    (run (ReplySystem.step farPeers fun _ _ => 1) (init farPeers)
        [.propose false, .propose true, .commit ⟨24577, some ⟨true, 0, 0⟩⟩, .apply false]).map
      (·.sent) = .ok [⟨false, 0, ⟨false, 0, 0⟩, ⟨24577, some ⟨true, 0, 0⟩⟩⟩] := by
  decide +kernel

def nearPeers : Deployment Bool where
  peerID n := if n then 2 else 1
  peerID_injective := by
    rintro (_ | _) (_ | _) <;> simp
  peerID_pos := by decide
  nanosecond _ _ := 5
  nanosecond_lt _ _ := by decide

/-- In the first runs, which may draw all sequence numbers, the results reach their callers. -/
theorem nearPeers_exclusive :
    ∃ limit, limit = (fun (_ : Bool) r => if r = 0 then 2 ^ 51 else 0) ∧
      ∀ events s, run (ReplySystem.step nearPeers limit) (init nearPeers) events = .ok s →
        s.Exclusive := by
  refine ⟨_, rfl, (results_exclusive_iff nearPeers _).mpr ⟨?_, ?_⟩⟩
  · rintro ⟨n, r, k⟩ ⟨n', r', k'⟩ hlimit hlimit' hne
    dsimp only at hlimit hlimit'
    obtain ⟨rfl, hk⟩ : r = 0 ∧ k < 2 ^ 51 := by split at hlimit <;> simp_all
    obtain ⟨rfl, hk'⟩ : r' = 0 ∧ k' < 2 ^ 51 := by split at hlimit' <;> simp_all
    by_cases hnode : n = n'
    · subst hnode
      refine .inr fun heq => hne ?_
      have heq : (5 + k) % 2 ^ 51 = (5 + k') % 2 ^ 51 := heq
      obtain rfl : k = k' := by omega
      rfl
    · refine .inl ?_
      cases n <;> cases n' <;> simp_all [nearPeers]
  · rintro ⟨n, r, k⟩ -
    refine .inl ?_
    cases n <;> simp [nearPeers]

end ReplySystem

end Babuza.Raft
