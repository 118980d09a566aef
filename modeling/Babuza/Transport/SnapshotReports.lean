import Babuza.Transport.PeerManager

/-!
# Snapshot transfers and their reports

`Transport.SendSnapshot` opens the snapshot (which counts it as inflight) and hands it to the peer
of the message, which sends it in a goroutine and reports the outcome (which counts it off). Every
message is reported once, and the counter is the number of transfers, exactly if no message is for
an unknown peer and no peer is stopped under a transfer (`reported_once_iff`).
-/

namespace Babuza.Transport

open Lib List

/-! ## The model -/

inductive SnapshotStatus
  | finish
  | failure
  deriving DecidableEq

/-- How `sendSnapshotMessageLoop` ends. -/
inductive TransferResult
  | sent
  | failed
  | peerStopped
  deriving DecidableEq

/-- A message for the peer `target`, handled by the peer with the number `peer`. -/
structure Transfer where
  target : Nat
  peer : Nat
  deriving DecidableEq

structure EndedTransfer where
  target : Nat
  reports : List SnapshotStatus
  deriving DecidableEq

/-- The messages stand in the list of the step they have reached: the peer is found, the snapshot is
opened, the peer's goroutine is running. -/
structure SnapshotSender where
  peerMgr : PeerManager
  found : List Transfer
  opened : List Transfer
  running : List Transfer
  ended : List EndedTransfer
  inflight : Int

inductive SenderError
  | disabled
  | readerPanic
  | nilPeer
  deriving DecidableEq

inductive SenderInput
  | addPeer (peerID : Nat) (address : String)
  | updatePeer (peerID : Nat) (address : String)
  | removePeer (peerID : Nat)
  | removePeers
  | sendSnapshot (target : Nat)
  | createSnapshotReader (transfer : Transfer) (readable : Bool)
  | runTransfer (transfer : Transfer)
  | endTransfer (transfer : Transfer) (result : TransferResult)
  deriving DecidableEq

namespace SnapshotSender

def new : SnapshotSender := ⟨.newPeerManager, [], [], [], [], 0⟩

/-- An error of the peer manager is logged. -/
def withPeers (s : SnapshotSender) (result : Except PeerError PeerManager) :
    Except SenderError SnapshotSender :=
  match result with
  | .ok m => .ok { s with peerMgr := m }
  | .error .nilPeer => .error .nilPeer
  | .error _ => .ok s

def report (s : SnapshotSender) (target : Nat) (status : SnapshotStatus) : SnapshotSender :=
  { s with ended := ⟨target, [status]⟩ :: s.ended, inflight := s.inflight - 1 }

/-- The handling of a message ends without a report. -/
def drop (s : SnapshotSender) (target : Nat) : SnapshotSender :=
  { s with ended := ⟨target, []⟩ :: s.ended }

/-- A peer that was stopped runs nothing new, and a transfer that it was running may notice that. -/
def exec (s : SnapshotSender) : SenderInput → Except SenderError SnapshotSender
  | .addPeer peerID address => s.withPeers (s.peerMgr.addPeer 0 peerID address)
  | .updatePeer peerID address => s.withPeers (s.peerMgr.updatePeer 0 peerID address)
  | .removePeer peerID => s.withPeers (s.peerMgr.removePeer 0 peerID)
  | .removePeers => .ok { s with peerMgr := s.peerMgr.removeAllPeers }
  | .sendSnapshot target => match s.peerMgr.getPeer 0 target with
    | .error _ => .ok (s.drop target)
    | .ok p => .ok { s with found := ⟨target, p⟩ :: s.found }
  | .createSnapshotReader t readable =>
    if t ∈ s.found then
      if readable then
        .ok { s with
          found := s.found.erase t
          opened := t :: s.opened
          inflight := s.inflight + 1 }
      else .error .readerPanic
    else .error .disabled
  | .runTransfer t =>
    if t ∈ s.opened then
      let s := { s with opened := s.opened.erase t }
      if s.peerMgr.running t.peer then .ok { s with running := t :: s.running }
      else .ok (s.drop t.target)
    else .error .disabled
  | .endTransfer t result =>
    if t ∈ s.running then
      let s := { s with running := s.running.erase t }
      match result with
      | .sent => .ok (s.report t.target .finish)
      | .failed => .ok (s.report t.target .failure)
      | .peerStopped =>
        if s.peerMgr.running t.peer then .error .disabled else .ok (s.drop t.target)
    else .error .disabled

/-! ## Reports -/

/-- Every message whose handling has ended was reported once, and the counter is the number of
transfers under way. -/
def Reported (s : SnapshotSender) : Prop :=
  (∀ t ∈ s.ended, t.reports.length = 1) ∧ s.inflight = s.opened.length + s.running.length

/-- The peer of a message is known, it is not stopped when its goroutine starts, and no transfer
ends because of a stop. -/
def Undisturbed (s : SnapshotSender) : SenderInput → Prop
  | .sendSnapshot target => (s.peerMgr.getPeer 0 target).isOk
  | .runTransfer t => s.peerMgr.running t.peer
  | .endTransfer _ result => result ≠ .peerStopped
  | _ => True

instance (s : SnapshotSender) (i : SenderInput) : Decidable (s.Undisturbed i) := by
  cases i <;> unfold Undisturbed <;> infer_instance

theorem not_reported_drop (s : SnapshotSender) (target : Nat) : ¬ (s.drop target).Reported := by
  intro h
  have := h.1 ⟨target, []⟩ mem_cons_self
  simp at this

theorem reported_withPeers {s s' : SnapshotSender} (hs : s.Reported)
    {result : Except PeerError PeerManager} (h : s.withPeers result = .ok s') : s'.Reported := by
  unfold withPeers at h
  split at h <;> cases h
  · exact hs
  · exact hs

theorem reported_exec_iff {s s' : SnapshotSender} {i : SenderInput} (hs : s.Reported)
    (h : s.exec i = .ok s') : s'.Reported ↔ s.Undisturbed i := by
  obtain ⟨hended, hinflight⟩ := hs
  cases i with
  | addPeer _ _ | updatePeer _ _ | removePeer _ =>
    exact iff_of_true (reported_withPeers ⟨hended, hinflight⟩ h) trivial
  | removePeers =>
    cases h
    exact iff_of_true ⟨hended, hinflight⟩ trivial
  | sendSnapshot target =>
    simp only [exec] at h
    simp only [Undisturbed]
    cases hp : s.peerMgr.getPeer 0 target with
    | error e =>
      simp only [hp] at h
      cases h
      exact iff_of_false (not_reported_drop s target) (by simp [Except.isOk, Except.toBool])
    | ok p =>
      simp only [hp] at h
      cases h
      exact iff_of_true ⟨hended, hinflight⟩ rfl
  | createSnapshotReader t readable =>
    simp only [exec] at h
    split at h
    · split at h <;> cases h
      refine iff_of_true ⟨hended, ?_⟩ trivial
      simp only [length_cons]
      omega
    · cases h
  | runTransfer t =>
    simp only [exec] at h
    split at h
    next hmem =>
      split at h
      next hrunning =>
        cases h
        refine iff_of_true ⟨hended, ?_⟩ hrunning
        have hlength := length_erase_of_mem hmem
        have hpos := length_pos_of_mem hmem
        simp only [length_cons]
        omega
      next hstopped =>
        cases h
        exact iff_of_false (not_reported_drop _ _) hstopped
    · cases h
  | endTransfer t result =>
    simp only [exec] at h
    split at h
    next hmem =>
      have hlength := length_erase_of_mem hmem
      have hpos := length_pos_of_mem hmem
      cases result with
      | sent | failed =>
        cases h
        refine iff_of_true ⟨?_, ?_⟩ (by simp [Undisturbed])
        · exact forall_mem_cons.mpr ⟨rfl, hended⟩
        · simp only [report]
          omega
      | peerStopped =>
        simp only at h
        split at h <;> cases h
        exact iff_of_false (not_reported_drop _ _) (by simp [Undisturbed])
    · cases h

/-- In every interleaving, each message is reported exactly once when its handling has ended and the
counter equals the number of transfers under way, if and only if no step is disturbed. -/
theorem reported_once_iff (is : List SenderInput) (s : SnapshotSender)
    (h : run exec new is = .ok s) : (∀ pre s', pre <+: is → run exec new pre = .ok s' →
      (∀ t ∈ s'.ended, t.reports.length = 1) ∧
        s'.inflight = s'.opened.length + s'.running.length) ↔
    Throughout exec Undisturbed new is :=
  forall_reached_iff_throughout (I := fun _ => True) (J := Reported) (fun _ _ => trivial)
    (fun _ => reported_exec_iff) trivial ⟨by simp [new], rfl⟩ h

/-- The peer gets a new address while a snapshot is sent to it: the old peer is stopped, the
transfer is not reported, and the counter stays at 1. -/
theorem update_under_transfer :
    ∃ s, run exec new [.addPeer 2 "a", .sendSnapshot 2, .createSnapshotReader ⟨2, 0⟩ true,
        .runTransfer ⟨2, 0⟩, .updatePeer 2 "b", .endTransfer ⟨2, 0⟩ .peerStopped] = .ok s ∧
      s.ended = [⟨2, []⟩] ∧ s.opened = [] ∧ s.running = [] ∧ s.inflight = 1 := by
  refine ⟨_, rfl, ?_⟩
  decide +kernel

theorem reported_without_stop :
    ∃ s, run exec new [.addPeer 2 "a", .sendSnapshot 2, .createSnapshotReader ⟨2, 0⟩ true,
        .runTransfer ⟨2, 0⟩, .endTransfer ⟨2, 0⟩ .sent, .updatePeer 2 "b"] = .ok s ∧
      ∀ pre s', pre <+: [.addPeer 2 "a", .sendSnapshot 2, .createSnapshotReader ⟨2, 0⟩ true,
          .runTransfer ⟨2, 0⟩, .endTransfer ⟨2, 0⟩ .sent, .updatePeer 2 "b"] →
        run exec new pre = .ok s' → (∀ t ∈ s'.ended, t.reports.length = 1) ∧
          s'.inflight = s'.opened.length + s'.running.length := by
  refine (exists_eq_ok (by decide +kernel)).imp fun s hs => ⟨hs, ?_⟩
  exact (reported_once_iff _ s hs).mpr (by decide +kernel)

end SnapshotSender

end Babuza.Transport
