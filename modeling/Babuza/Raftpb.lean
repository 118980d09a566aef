import Babuza.Lib.Wire

/-!
# The raft messages

The data types of `go.etcd.io/etcd/raft/v3/raftpb` and of `walpb.Snapshot`, with the tests on
them that the code takes from the raft package. Terms and indices are natural numbers; where
they meet a byte encoding the 64 bits of the Go types are stated as a bound.
-/

namespace Babuza

open Lib

inductive EntryType
  | normal
  | confChange
  | confChangeV2
  deriving DecidableEq

/-- `raftpb.Entry`. A nil and an empty `data` are the same value. -/
structure Entry where
  term : Nat
  index : Nat
  type : EntryType
  data : Bytes
  deriving DecidableEq

structure HardState where
  term : Nat
  vote : Nat
  commit : Nat
  deriving DecidableEq

def HardState.empty : HardState := ⟨0, 0, 0⟩

def isEmptyHardState (st : HardState) : Bool := st == .empty

def mustSync (st prev : HardState) (entsNum : Nat) : Bool :=
  entsNum != 0 || st.vote != prev.vote || st.term != prev.term

structure ConfState where
  voters : List Nat
  learners : List Nat
  votersOutgoing : List Nat
  learnersNext : List Nat
  autoLeave : Bool
  deriving DecidableEq

def ConfState.empty : ConfState := ⟨[], [], [], [], false⟩

structure SnapshotMetadata where
  confState : ConfState
  index : Nat
  term : Nat
  deriving DecidableEq

structure Snapshot where
  data : Bytes
  metadata : SnapshotMetadata
  deriving DecidableEq

def Snapshot.empty : Snapshot := ⟨[], ⟨.empty, 0, 0⟩⟩

def isEmptySnap (snap : Snapshot) : Bool := snap.metadata.index == 0

/-- `walpb.Snapshot`. -/
structure WalSnapshot where
  index : Nat
  term : Nat
  confState : Option ConfState
  deriving DecidableEq

def WalSnapshot.empty : WalSnapshot := ⟨0, 0, none⟩

def Snapshot.toWal (snap : Snapshot) : WalSnapshot :=
  ⟨snap.metadata.index, snap.metadata.term, some snap.metadata.confState⟩

inductive MessageType
  | hup
  | beat
  | prop
  | app
  | appResp
  | vote
  | voteResp
  | snap
  | heartbeat
  | heartbeatResp
  | unreachable
  | snapStatus
  | checkQuorum
  | transferLeader
  | timeoutNow
  | readIndex
  | readIndexResp
  | preVote
  | preVoteResp
  deriving DecidableEq

structure Message where
  type : MessageType
  toID : Nat
  fromID : Nat
  term : Nat
  logTerm : Nat
  index : Nat
  entries : List Entry
  commit : Nat
  snapshot : Snapshot
  reject : Bool
  rejectHint : Nat
  context : Bytes
  deriving DecidableEq

def Message.empty (type : MessageType) : Message :=
  ⟨type, 0, 0, 0, 0, 0, [], 0, .empty, false, 0, []⟩

/-- The messages whose generated code is not part of the repository. -/
structure RaftCodecs where
  hardState : MessageCodec HardState
  walSnapshot : MessageCodec WalSnapshot
  entry : MessageCodec Entry
  /-- Whether the error for bytes that are not a message is `io.ErrUnexpectedEOF`. -/
  endsEarly : Bytes → Bool

def EntryType.toNat : EntryType → Nat
  | normal => 0
  | confChange => 1
  | confChangeV2 => 2

def EntryType.ofNat? : Nat → Option EntryType
  | 0 => some normal
  | 1 => some confChange
  | 2 => some confChangeV2
  | _ => none

def counted (ns : List Nat) : List Nat := ns.length :: ns

def readCounted : List Nat → Option (List Nat × List Nat)
  | [] => none
  | n :: ns => if n ≤ ns.length then some (ns.take n, ns.drop n) else none

def ConfState.toNats (cs : ConfState) : List Nat :=
  counted cs.voters ++ (counted cs.learners ++ (counted cs.votersOutgoing ++
    (counted cs.learnersNext ++ [cs.autoLeave.toNat])))

def ConfState.ofNats (ns : List Nat) : Option ConfState := do
  let (voters, ns) ← readCounted ns
  let (learners, ns) ← readCounted ns
  let (votersOutgoing, ns) ← readCounted ns
  let (learnersNext, ns) ← readCounted ns
  return ⟨voters, learners, votersOutgoing, learnersNext, ns == [1]⟩

theorem ConfState.ofNats_toNats (cs : ConfState) : ofNats cs.toNats = some cs := by
  obtain ⟨voters, learners, outgoing, next, autoLeave⟩ := cs
  simp [ofNats, toNats, counted, readCounted]

def hardStateCodec : MessageCodec HardState :=
  .ofNats (fun st => [st.term, st.vote, st.commit])
    (fun | [term, vote, commit] => some ⟨term, vote, commit⟩ | _ => none) fun _ => rfl

def walSnapshotCodec : MessageCodec WalSnapshot :=
  .ofNats
    (fun snap => snap.index :: snap.term :: (snap.confState.map ConfState.toNats).getD [])
    (fun
      | [index, term] => some ⟨index, term, none⟩
      | index :: term :: ns => (ConfState.ofNats ns).map fun cs => ⟨index, term, some cs⟩
      | _ => none)
    (by
      rintro ⟨index, term, confState⟩
      cases confState with
      | none => rfl
      | some cs =>
        have h := ConfState.ofNats_toNats cs
        simp only [Option.map_some, Option.getD_some]
        cases hns : cs.toNats with
        | nil => simp [ConfState.toNats, counted] at hns
        | cons n ns =>
          rw [hns] at h
          simp [h])

def entryCodec : MessageCodec Entry :=
  .ofNats (fun e => e.type.toNat :: e.term :: e.index :: e.data.map UInt8.toNat)
    (fun
      | type :: term :: index :: data =>
        (EntryType.ofNat? type).map fun type => ⟨term, index, type, data.map UInt8.ofNat⟩
      | _ => none)
    (by
      rintro ⟨term, index, type, data⟩
      cases type <;> simp [EntryType.toNat, EntryType.ofNat?, Function.comp_def])

/-- Codecs to evaluate the model with. -/
def RaftCodecs.unary : RaftCodecs := ⟨hardStateCodec, walSnapshotCodec, entryCodec, List.isEmpty⟩

end Babuza
