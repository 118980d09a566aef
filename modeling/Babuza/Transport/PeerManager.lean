import Babuza.Lib.Keyed
import Babuza.Lib.Run
import Mathlib.Data.Finmap

/-!
# The table of peers

`PeerManagerImpl` resolves a group and a peer id to an address, and an address to a peer, which all
identifiers with that address share. The references to an address are counted; a peer is stopped
when the last one is released. The peers are numbered in the order of their creation.
-/

namespace Babuza.Transport

open Lib List

/-! ## The model -/

structure RaftPeerIdentifier where
  groupID : Nat
  peerID : Nat
  deriving DecidableEq

inductive PeerError
  | peerNotFound
  | addressWithoutPeer
  | peerExists
  | nilPeer
  deriving DecidableEq

/-- `PeerManagerImpl`, with the peers whose `Stop` was called, once for each call. -/
structure PeerManager where
  peers : AList fun _ : String => Nat
  addresses : AList fun _ : RaftPeerIdentifier => String
  refCounts : AList fun _ : String => Int
  created : Nat
  stopped : List Nat
  peers_lt : ∀ {address p}, peers.lookup address = some p → p < created
  stopped_lt : ∀ {p}, p ∈ stopped → p < created

namespace PeerManager

def newPeerManager : PeerManager where
  peers := ∅
  addresses := ∅
  refCounts := ∅
  created := 0
  stopped := []
  peers_lt h := by cases h
  stopped_lt h := absurd h not_mem_nil

def resolvePeerAddress (m : PeerManager) (groupID peerID : Nat) : Except PeerError String :=
  match m.addresses.lookup ⟨groupID, peerID⟩ with
  | none => .error .peerNotFound
  | some address => .ok address

def getPeerByAddress (m : PeerManager) (address : String) : Except PeerError Nat :=
  match m.peers.lookup address with
  | none => .error .addressWithoutPeer
  | some p => .ok p

def getPeer (m : PeerManager) (groupID peerID : Nat) : Except PeerError Nat := do
  let address ← m.resolvePeerAddress groupID peerID
  m.getPeerByAddress address

def running (m : PeerManager) (p : Nat) : Bool := p ∉ m.stopped

def refCount (m : PeerManager) (address : String) : Int := (m.refCounts.lookup address).getD 0

/-- `retainAddressLocked`; the factory makes a new peer. -/
def retainAddressLocked (m : PeerManager) (address : String) : PeerManager :=
  if address ∈ m.peers then
    { m with refCounts := m.refCounts.insert address (m.refCount address + 1) }
  else
    { m with
      peers := m.peers.insert address m.created
      refCounts := m.refCounts.insert address 1
      created := m.created + 1
      peers_lt := by
        intro a p h
        by_cases ha : a = address
        · rw [ha, AList.lookup_insert] at h
          cases h
          exact Nat.lt_succ_self _
        · rw [AList.lookup_insert_ne ha] at h
          exact Nat.lt_succ_of_lt (m.peers_lt h)
      stopped_lt := fun h => Nat.lt_succ_of_lt (m.stopped_lt h) }

/-- The address is forgotten together with its peer. -/
def dropAddress (m : PeerManager) (address : String) : PeerManager :=
  { m with
    peers := m.peers.erase address
    refCounts := m.refCounts.erase address
    peers_lt := by
      intro a p h
      by_cases ha : a = address
      · rw [ha, AList.lookup_erase] at h
        cases h
      · rw [AList.lookup_erase_ne ha] at h
        exact m.peers_lt h }

def stop (m : PeerManager) (p : Nat) (hp : p < m.created) : PeerManager :=
  { m with
    stopped := m.stopped ++ [p]
    stopped_lt := by
      intro q hq
      rcases List.mem_append.mp hq with hq | hq
      · exact m.stopped_lt hq
      · exact mem_singleton.mp hq ▸ hp }

/-- `releaseAddressLocked` and `stopPeerIfNeeded`. An address without a peer yields a nil peer. -/
def releaseAddressLocked (m : PeerManager) (address : String) : Except PeerError PeerManager :=
  let count := m.refCount address - 1
  if 0 < count then .ok { m with refCounts := m.refCounts.insert address count }
  else
    match h : m.peers.lookup address with
    | none => .error .nilPeer
    | some p => .ok ((m.dropAddress address).stop p (m.peers_lt h))

def addPeer (m : PeerManager) (groupID peerID : Nat) (address : String) :
    Except PeerError PeerManager :=
  if (⟨groupID, peerID⟩ : RaftPeerIdentifier) ∈ m.addresses then .error .peerExists
  else
    .ok ({ m with addresses := m.addresses.insert ⟨groupID, peerID⟩ address }.retainAddressLocked
      address)

def updatePeer (m : PeerManager) (groupID peerID : Nat) (address : String) :
    Except PeerError PeerManager :=
  match m.addresses.lookup ⟨groupID, peerID⟩ with
  | none => .error .peerNotFound
  | some oldAddress =>
    if oldAddress = address then .ok m
    else do
      let m ← m.releaseAddressLocked oldAddress
      return { m with
        addresses := m.addresses.insert ⟨groupID, peerID⟩ address }.retainAddressLocked address

def removePeer (m : PeerManager) (groupID peerID : Nat) : Except PeerError PeerManager :=
  match m.addresses.lookup ⟨groupID, peerID⟩ with
  | none => .error .peerNotFound
  | some address =>
    { m with addresses := m.addresses.erase ⟨groupID, peerID⟩ }.releaseAddressLocked address

def removeAllPeers (m : PeerManager) : PeerManager where
  peers := ∅
  addresses := ∅
  refCounts := ∅
  created := m.created
  stopped := m.stopped ++ m.peers.entries.map Sigma.snd
  peers_lt h := by cases h
  stopped_lt := by
    intro p hp
    rcases List.mem_append.mp hp with hp | hp
    · exact m.stopped_lt hp
    · obtain ⟨⟨address, q⟩, hmem, rfl⟩ := List.mem_map.mp hp
      exact m.peers_lt (AList.mem_lookup_iff.mpr hmem)

variable {a : String}

section Retain

variable (m : PeerManager) (address : String)

@[simp] theorem retainAddressLocked_addresses :
    (m.retainAddressLocked address).addresses = m.addresses := by
  unfold retainAddressLocked
  split <;> rfl

@[simp] theorem retainAddressLocked_stopped :
    (m.retainAddressLocked address).stopped = m.stopped := by
  unfold retainAddressLocked
  split <;> rfl

theorem mem_retainAddressLocked :
    a ∈ (m.retainAddressLocked address).peers ↔ a = address ∨ a ∈ m.peers := by
  unfold retainAddressLocked
  split
  next hmem =>
    grind
  next => exact AList.mem_insert _

theorem lookup_retainAddressLocked {p : Nat}
    (h : (m.retainAddressLocked address).peers.lookup a = some p) :
    m.peers.lookup a = some p ∨ p = m.created := by
  unfold retainAddressLocked at h
  split at h
  · exact .inl h
  · by_cases ha : a = address
    · rw [ha, AList.lookup_insert] at h
      exact .inr (Option.some.inj h).symm
    · rw [AList.lookup_insert_ne ha] at h
      exact .inl h

end Retain

/-! ## Reference counts -/

def mapped (addresses : AList fun _ : RaftPeerIdentifier => String) (address : String) : Nat :=
  addresses.entries.countP fun x => x.2 = address

inductive Call
  | addPeer (groupID peerID : Nat) (address : String)
  | updatePeer (groupID peerID : Nat) (address : String)
  | removePeer (groupID peerID : Nat)
  | removeAllPeers

/-- A call; one that returns an error has changed nothing, and `Stop` of a nil peer panics. -/
def exec (m : PeerManager) (call : Call) : Except PeerError PeerManager :=
  match (match call with
    | .addPeer groupID peerID address => m.addPeer groupID peerID address
    | .updatePeer groupID peerID address => m.updatePeer groupID peerID address
    | .removePeer groupID peerID => m.removePeer groupID peerID
    | .removeAllPeers => .ok m.removeAllPeers) with
  | .error .nilPeer => .error .nilPeer
  | .error _ => .ok m
  | .ok m => .ok m

/-- The table counts `c` references: an address has a peer of its own while there are any, and the
peers without an address are the stopped ones. -/
structure Counted (m : PeerManager) (c : String → Nat) : Prop where
  refCount_eq : ∀ a, m.refCount a = c a
  peer_iff : ∀ a, (m.peers.lookup a).isSome ↔ 0 < c a
  stopped_iff : ∀ p < m.created, p ∈ m.stopped ↔ ∀ a, m.peers.lookup a ≠ some p
  injective : ∀ {a b p}, m.peers.lookup a = some p → m.peers.lookup b = some p → a = b

/-- `stops` are the calls of `Stop` that lead from `m` to `m'`. They are for running peers, each
once: those whose address loses its last reference. -/
structure Stops (m m' : PeerManager) (c c' : String → Nat) (stops : List Nat) : Prop where
  stopped_eq : m'.stopped = m.stopped ++ stops
  nodup : stops.Nodup
  running : ∀ p ∈ stops, p ∉ m.stopped
  mem_iff : ∀ p, p ∈ stops ↔ ∃ a, m.peers.lookup a = some p ∧ 0 < c a ∧ c' a = 0

section Mapped

variable (s : AList fun _ : RaftPeerIdentifier => String) (i : RaftPeerIdentifier) (b : String)

theorem mapped_erase :
    mapped s b = mapped (s.erase i) b + if s.lookup i = some b then 1 else 0 := by
  suffices ∀ l : List (Σ _ : RaftPeerIdentifier, String),
      l.countP (fun x => x.2 = b) =
        (kerase i l).countP (fun x => x.2 = b) + if dlookup i l = some b then 1 else 0 from
    this s.entries
  intro l
  induction l with
  | nil => rfl
  | cons x l ih =>
    by_cases hi : i = x.1
    · subst hi
      rw [kerase_cons_eq rfl, dlookup_cons_eq, countP_cons]
      simp
    · rw [kerase_cons_ne hi, dlookup_cons_ne _ _ hi, countP_cons, countP_cons, ih,
        Nat.add_right_comm]

theorem mapped_insert (a : String) :
    mapped (s.insert i a) b = mapped (s.erase i) b + if a = b then 1 else 0 := by
  show countP _ (_ :: kerase i s.entries) = _
  rw [countP_cons]
  simp [mapped, AList.erase]

end Mapped

variable {m m' : PeerManager} {c c' : String → Nat}

theorem stops_nil (hstopped : m'.stopped = m.stopped) (hc : ∀ b, c b ≤ c' b) :
    Stops m m' c c' [] := by
  refine ⟨by simp [hstopped], nodup_nil, by simp, ?_⟩
  grind

namespace Counted

variable (s : AList fun _ : RaftPeerIdentifier => String)

theorem retain (h : Counted m c) (hc : ∀ b, c' b = c b + if a = b then 1 else 0) :
    Counted ({ m with addresses := s }.retainAddressLocked a) c' := by
  obtain ⟨hcount, hpeer, hstopped, hinj⟩ := h
  have hlt := @m.peers_lt
  have hlt' := @m.stopped_lt
  simp only [retainAddressLocked, ← AList.lookup_isSome]
  split
  · constructor <;> grind [refCount]
  · constructor <;> simp only [refCount, alist_lookup_insert] <;> grind [refCount]

theorem release (h : Counted m c) (hc : ∀ b, c b = c' b + if a = b then 1 else 0) :
    ∃ m' stops, { m with addresses := s }.releaseAddressLocked a = .ok m' ∧ m'.addresses = s ∧
      Counted m' c' ∧ Stops m m' c c' stops := by
  obtain ⟨hcount, hpeer, hstopped, hinj⟩ := h
  have hlt := @m.peers_lt
  simp only [refCount] at hcount
  simp only [releaseAddressLocked, refCount, hcount a]
  split
  · refine ⟨_, [], rfl, rfl, ?_, ?_⟩
    · constructor <;> grind [refCount]
    · constructor <;> grind
  · split
    · grind
    · rename_i p hp
      refine ⟨_, [p], rfl, rfl, ?_, ?_⟩
      · constructor <;> simp only [refCount, stop, dropAddress, alist_lookup_erase] <;>
          grind [refCount]
      · constructor <;> grind [stop, dropAddress]

theorem removeAll (h : Counted m c) :
    Counted m.removeAllPeers (fun _ => 0) ∧
      Stops m m.removeAllPeers c (fun _ => 0) (m.peers.entries.map Sigma.snd) := by
  obtain ⟨hcount, hpeer, hstopped, hinj⟩ := h
  have hvalue : ∀ p, p ∈ m.peers.entries.map Sigma.snd ↔ ∃ a, m.peers.lookup a = some p := by
    simp [← AList.mem_lookup_iff]
  have hrun : ∀ p, p ∈ m.removeAllPeers.stopped ↔
      p ∈ m.stopped ∨ p ∈ m.peers.entries.map Sigma.snd := by
    simp [removeAllPeers]
  have hlt := @m.peers_lt
  refine ⟨⟨fun _ => rfl, by simp [removeAllPeers], fun p hp => ?_, nofun⟩, rfl, ?_, ?_, ?_⟩
  · refine iff_of_true ((hrun p).mpr ?_) nofun
    have hp : p < m.created := hp
    grind
  · refine m.peers.nodupKeys.nodup.map_on fun x hx y hy heq => ?_
    have hy := AList.mem_lookup_iff.mpr hy
    rw [← heq] at hy
    exact Sigma.ext (hinj (AList.mem_lookup_iff.mpr hx) hy) (heq_of_eq heq)
  · grind
  · grind

end Counted

theorem exec_counted (h : m.Counted (mapped m.addresses)) (call : Call) :
    ∃ m' stops, m.exec call = .ok m' ∧ m'.Counted (mapped m'.addresses) ∧
      Stops m m' (mapped m.addresses) (mapped m'.addresses) stops := by
  have hsame := stops_nil (m := m) rfl fun b => le_refl (mapped m.addresses b)
  have herase := mapped_erase m.addresses
  have hinsert := mapped_insert m.addresses
  cases call with
  | addPeer groupID peerID address =>
    simp only [exec, addPeer]
    split_ifs with hmem
    · exact ⟨m, [], rfl, h, hsame⟩
    · have hnone := AList.lookup_eq_none.mpr hmem
      refine ⟨_, [], rfl, ?_, stops_nil (by simp) ?_⟩
      · rw [retainAddressLocked_addresses]
        exact h.retain _ (by grind)
      · rw [retainAddressLocked_addresses]
        grind
  | updatePeer groupID peerID address =>
    simp only [exec, updatePeer]
    cases hold : m.addresses.lookup ⟨groupID, peerID⟩ with
    | none => exact ⟨m, [], rfl, h, hsame⟩
    | some old =>
      by_cases heq : old = address
      · simp only [heq, if_pos]
        exact ⟨m, [], rfl, h, hsame⟩
      · obtain ⟨m', stops, hrelease, haddresses, hcounted, hstops⟩ := h.release m.addresses
          (by simpa [hold] using herase ⟨groupID, peerID⟩)
        simp only [heq, if_neg, hrelease, not_false_eq_true]
        refine ⟨_, stops, rfl, ?_, by simp [hstops.stopped_eq], hstops.nodup, hstops.running, ?_⟩
        · rw [retainAddressLocked_addresses]
          exact hcounted.retain _ (by simp [haddresses, hinsert])
        · have hmem := hstops.mem_iff
          simp only [retainAddressLocked_addresses, haddresses]
          grind
  | removePeer groupID peerID =>
    simp only [exec, removePeer]
    cases hold : m.addresses.lookup ⟨groupID, peerID⟩ with
    | none => exact ⟨m, [], rfl, h, hsame⟩
    | some old =>
      obtain ⟨m', stops, hrelease, haddresses, hcounted, hstops⟩ := h.release
        (m.addresses.erase ⟨groupID, peerID⟩) (by simpa [hold] using herase ⟨groupID, peerID⟩)
      simp only [hrelease]
      refine ⟨m', stops, rfl, ?_⟩
      rw [haddresses]
      exact ⟨hcounted, hstops⟩
  | removeAllPeers => exact ⟨_, _, rfl, h.removeAll⟩

theorem getPeer_isOk (h : m.Counted (mapped m.addresses)) (groupID peerID : Nat) :
    (m.getPeer groupID peerID).isOk ↔ (⟨groupID, peerID⟩ : RaftPeerIdentifier) ∈ m.addresses := by
  rw [← AList.lookup_isSome]
  unfold getPeer resolvePeerAddress getPeerByAddress
  cases haddress : m.addresses.lookup ⟨groupID, peerID⟩ with
  | none => simp [Except.isOk, Except.toBool, bind, Except.bind]
  | some a =>
    have hpeer : (m.peers.lookup a).isSome := by
      rw [h.peer_iff, mapped_erase, haddress, if_pos rfl]
      exact Nat.succ_pos _
    obtain ⟨p, hp⟩ := Option.isSome_iff_exists.mp hpeer
    simp [hp, Except.isOk, Except.toBool, bind, Except.bind]

/-- After any calls, none of which panics, the maps agree; the next call stops the peers whose
address loses its last identifier, which no call has stopped before. -/
theorem peers_counted (calls : List Call) :
    ∃ m, run exec newPeerManager calls = .ok m ∧ m.Counted (mapped m.addresses) ∧
      (∀ groupID peerID, (m.getPeer groupID peerID).isOk ↔
        (⟨groupID, peerID⟩ : RaftPeerIdentifier) ∈ m.addresses) ∧
      ∀ call, ∃ m' stops, m.exec call = .ok m' ∧
        Stops m m' (mapped m.addresses) (mapped m'.addresses) stops := by
  have hrun : ∀ m, m.Counted (mapped m.addresses) →
      ∃ m', run exec m calls = .ok m' ∧ m'.Counted (mapped m'.addresses) := by
    induction calls with
    | nil => exact fun m h => ⟨m, rfl, h⟩
    | cons call calls ih =>
      intro m h
      obtain ⟨m', -, hexec, h', -⟩ := exec_counted h call
      rw [run_cons_ok calls hexec]
      exact ih m' h'
  obtain ⟨m, hm, h⟩ :=
    hrun newPeerManager ⟨fun _ => rfl, by simp [newPeerManager, mapped], nofun, nofun⟩
  refine ⟨m, hm, h, getPeer_isOk h, fun call => ?_⟩
  obtain ⟨m', stops, hexec, -, hstops⟩ := exec_counted h call
  exact ⟨m', stops, hexec, hstops⟩

end PeerManager

end Babuza.Transport
