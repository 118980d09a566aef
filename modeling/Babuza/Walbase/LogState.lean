import Babuza.Lib.Log
import Babuza.Raftpb

/-!
# What a log has to bring back

The abstract state of a write-ahead log, whatever it is kept in: the last hard state, the snapshots
on record and the log of entries. `Save` replaces the log from the first index of a batch on; the
same can be said record by record with `LogState.log`.
-/

namespace Babuza.Walbase

open Lib

abbrev SaveArgs := HardState × List Entry

/-- The batch continues a log with the given last index, or overwrites a part of it. -/
structure ValidBatch (lastIndex : Nat) (entries : List Entry) : Prop where
  consecutive : ∃ first, Consecutive Entry.index first entries ∧ 0 < first ∧
    first ≤ lastIndex + 1
  term_lt : ∀ e ∈ entries, e.term < 2 ^ 64
  index_lt : ∀ e ∈ entries, e.index + 1 < 2 ^ 64

/-- What a log is for: the hard state, the snapshots and the entries it has to bring back. -/
structure LogState where
  hardState : HardState
  snapshots : List WalSnapshot
  entries : List Entry
  deriving DecidableEq

namespace LogState

def initial : LogState := ⟨.empty, [.empty], []⟩

/-- A batch replaces the log from its first index on; an empty hard state is not saved. -/
def save (S : LogState) (st : HardState) (entries : List Entry) : LogState where
  hardState := if isEmptyHardState st then S.hardState else st
  snapshots := S.snapshots
  entries := truncAppend Entry.index 0 S.entries entries

def saveAll (S : LogState) (saves : List SaveArgs) : LogState :=
  saves.foldl (fun S save => S.save save.1 save.2) S

def saveSnapshot (S : LogState) (snapshot : Snapshot) : LogState :=
  { S with snapshots := S.snapshots ++ [snapshot.toWal] }

end LogState

/-- Every batch is valid for the log it meets. -/
def ValidSaves : (log : List Entry) → List SaveArgs → Prop
  | _, [] => True
  | log, save :: saves =>
    ValidBatch log.length save.2 ∧ ValidSaves (truncAppend Entry.index 0 log save.2) saves

/-- What the operations log, one record at a time. -/
inductive Item
  | entry (e : Entry)
  | hardState (st : HardState)
  | snapshot (snapshot : Snapshot)
  deriving DecidableEq

def LogState.log (S : LogState) : Item → LogState
  | .entry e => { S with entries := truncAppend Entry.index 0 S.entries [e] }
  | .hardState st => { S with hardState := st }
  | .snapshot snapshot => S.saveSnapshot snapshot

def LogState.ofItems (items : List Item) : LogState := items.foldl LogState.log .initial

theorem LogState.foldl_log_entries (S : LogState) (entries : List Entry) :
    (entries.map Item.entry).foldl LogState.log S = { S with entries :=
      (entries.foldl (fun log e => truncAppend Entry.index 0 log [e]) S.entries) } := by
  induction entries generalizing S with
  | nil => rfl
  | cons e entries ih => exact ih _

end Babuza.Walbase
