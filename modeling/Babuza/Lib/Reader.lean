import Babuza.Lib.Stream

/-!
# Readers that deliver in pieces

An `io.Reader` delivers its bytes in pieces of its own choice: a call of `read` gives what is left
of the first piece, as far as there is room for it. The end, or an error, is reported by a call of
its own or together with the last bytes. `readFull` calls `read` until it has what it was asked for,
so it does not depend on the pieces (`readFull_of_le`); one call of `read` does.
-/

namespace Babuza.Lib

open List

inductive ReadEnd
  | eof
  | failed
  deriving DecidableEq

inductive ReadFailure
  | eof
  | unexpectedEOF
  | failed
  deriving DecidableEq

structure Reader where
  pieces : List Bytes
  pieces_ne_nil : ∀ piece ∈ pieces, piece ≠ []
  ending : ReadEnd
  /-- The end is reported together with the last bytes. -/
  early : Bool
  /-- The end is reported also to a call that has no room. -/
  endsEmpty : Bool

namespace Reader

def bytes (r : Reader) : Bytes := r.pieces.flatten

/-- The pieces without the first `n` bytes of the first one. -/
def restPieces (n : Nat) : List Bytes → List Bytes
  | [] => []
  | piece :: pieces => if piece.drop n = [] then pieces else piece.drop n :: pieces

theorem restPieces_ne_nil {pieces : List Bytes} (n : Nat) (h : ∀ piece ∈ pieces, piece ≠ []) :
    ∀ piece ∈ restPieces n pieces, piece ≠ [] := by
  cases pieces with
  | nil => exact h
  | cons piece pieces =>
    obtain ⟨-, hpieces⟩ := forall_mem_cons.mp h
    rw [restPieces]
    split
    · exact hpieces
    next hrest => exact forall_mem_cons.mpr ⟨hrest, hpieces⟩

def skipPiece (r : Reader) (n : Nat) : Reader :=
  { r with
    pieces := restPieces n r.pieces
    pieces_ne_nil := restPieces_ne_nil n r.pieces_ne_nil }

/-- A call of `Read` with room for `n` bytes. -/
def read (r : Reader) (n : Nat) : Bytes × Option ReadEnd × Reader :=
  match r.pieces with
  | [] => ([], if n = 0 ∧ ¬r.endsEmpty then none else some r.ending, r)
  | piece :: _ =>
    (piece.take n, if restPieces n r.pieces = [] ∧ r.early then some r.ending else none,
      r.skipPiece n)

/-- The loop of `io.ReadFull`, which still needs `need` bytes and has `got`. -/
def readLoop : (fuel : Nat) → (r : Reader) → (need : Nat) → (got : Bytes) →
    Bytes × Option ReadEnd × Reader
  | 0, r, _, got => (got, none, r)
  | fuel + 1, r, need, got =>
    if need = 0 then (got, none, r)
    else match r.read need with
      | (data, some e, r) => (got ++ data, some e, r)
      | (data, none, r) => readLoop fuel r (need - data.length) (got ++ data)

/-- The reader after `io.ReadFull`. -/
def skip (r : Reader) (n : Nat) : Reader := (readLoop n r n []).2.2

def readFull (n : Nat) (r : Reader) : Except ReadFailure (Bytes × Reader) :=
  match readLoop n r n [] with
  | (data, ending, r) =>
    if data.length = n then .ok (data, r)
    else if ending = some .failed then .error .failed
    else if data = [] then .error .eof
    else .error .unexpectedEOF

/-- A number of eight bytes, the least significant first. -/
def readUint64 (r : Reader) : Except ReadFailure (Nat × Reader) :=
  (readFull 8 r).map fun read => (leNat read.1, read.2)

variable (r : Reader)

theorem read_append (n : Nat) : (r.read n).1 ++ (r.read n).2.2.bytes = r.bytes := by
  unfold read
  split
  · rfl
  · rename_i piece pieces hpieces
    have hsplit := take_append_drop n piece
    simp only [bytes, skipPiece, hpieces, restPieces, flatten_cons]
    split
    next hrest => rw [← hsplit, hrest, append_nil, take_take, min_self]
    · rw [flatten_cons, ← append_assoc, hsplit]

theorem length_read_le (n : Nat) : (r.read n).1.length ≤ n := by
  unfold read
  split
  · exact Nat.zero_le n
  · exact length_take_le n _

@[simp] theorem ending_read (n : Nat) : (r.read n).2.2.ending = r.ending := by
  unfold read
  split <;> rfl

variable {n : Nat}

theorem bytes_of_ending {r : Reader} {e : ReadEnd} (h : (r.read n).2.1 = some e) :
    (r.read n).2.2.bytes = [] ∧ e = r.ending := by
  unfold read at h ⊢
  split at h
  next hpieces =>
    split at h <;> cases h
    exact ⟨by simp only [bytes, hpieces, flatten_nil], rfl⟩
  next piece pieces hpieces =>
    split at h
    next hend =>
      cases h
      exact ⟨congrArg List.flatten hend.1, rfl⟩
    · cases h

theorem read_ne_nil {r : Reader} (hn : n ≠ 0) (h : (r.read n).2.1 = none) : (r.read n).1 ≠ [] := by
  unfold read at h ⊢
  split at h
  next hpieces =>
    rw [if_neg fun hempty => hn hempty.1] at h
    cases h
  next piece pieces hpieces =>
    have hpiece := r.pieces_ne_nil piece (hpieces ▸ mem_cons_self)
    rw [Ne, take_eq_nil_iff, not_or]
    exact ⟨hn, hpiece⟩

/-! ## The loop -/

theorem readLoop_spec {fuel : Nat} {need : Nat} (got : Bytes) (hfuel : need ≤ fuel) :
    (readLoop fuel r need got).1 = got ++ r.bytes.take need ∧
      (readLoop fuel r need got).2.2.bytes = r.bytes.drop need := by
  induction fuel generalizing r need got with
  | zero =>
    obtain rfl : need = 0 := by omega
    exact ⟨by rw [take_zero, append_nil]; rfl, rfl⟩
  | succ fuel ih =>
    rw [readLoop]
    split
    next hneed => subst hneed; exact ⟨by rw [take_zero, append_nil], rfl⟩
    next hneed =>
      have happend := r.read_append need
      have hlength := r.length_read_le need
      split
      next data e r' hread =>
        -- the end is reported: what was read is all there is
        have hnone := (bytes_of_ending (congrArg (·.2.1) hread)).1
        rw [hread] at happend hlength hnone
        rw [hnone, append_nil] at happend
        rw [← happend, take_of_length_le hlength, drop_eq_nil_of_le hlength]
        exact ⟨rfl, hnone⟩
      next data r' hread =>
        have hsome := read_ne_nil hneed (congrArg (·.2.1) hread)
        rw [hread] at happend hlength hsome
        dsimp only at happend hlength hsome
        have hpos := length_pos_iff.mpr hsome
        have hfuel' : need - data.length ≤ fuel := by omega
        obtain ⟨hdata, hrest⟩ := ih r' (got ++ data) hfuel'
        rw [← happend, take_append, drop_append, take_of_length_le hlength,
          drop_eq_nil_of_le hlength, nil_append]
        exact ⟨hdata.trans (append_assoc ..), hrest⟩

theorem bytes_skip (n : Nat) : (r.skip n).bytes = r.bytes.drop n :=
  (readLoop_spec r [] le_rfl).2

theorem readFull_of_le {r : Reader} (h : n ≤ r.bytes.length) :
    readFull n r = .ok (r.bytes.take n, r.skip n) := by
  have hdata : (readLoop n r n []).1 = r.bytes.take n := (readLoop_spec r [] le_rfl).1
  have hlength : (readLoop n r n []).1.length = n := by rw [hdata, length_take_of_le h]
  rw [readFull, skip]
  dsimp only
  rw [if_pos hlength, hdata]

theorem readFull_of_lt {r : Reader} (h : r.bytes.length < n) : ∃ e, readFull n r = .error e := by
  have hdata : (readLoop n r n []).1 = r.bytes.take n := (readLoop_spec r [] le_rfl).1
  have hlength : (readLoop n r n []).1.length ≠ n := by
    rw [hdata, length_take]
    omega
  rw [readFull]
  dsimp only
  rw [if_neg hlength]
  split
  · exact ⟨_, rfl⟩
  · split
    all_goals exact ⟨_, rfl⟩

theorem readLoop_ending (fuel : Nat) (r : Reader) (need : Nat) (got : Bytes) :
    ((readLoop fuel r need got).2.1 = none ∨ (readLoop fuel r need got).2.1 = some r.ending) ∧
      (readLoop fuel r need got).2.2.ending = r.ending := by
  induction fuel generalizing r need got with
  | zero => exact ⟨.inl rfl, rfl⟩
  | succ fuel ih =>
    rw [readLoop]
    split
    · exact ⟨.inl rfl, rfl⟩
    · have hending := r.ending_read need
      split
      next data e r' hread =>
        have he := (bytes_of_ending (congrArg (·.2.1) hread)).2
        rw [hread] at hending
        exact ⟨.inr (congrArg some he), hending⟩
      next data r' hread =>
        rw [hread] at hending
        rw [← hending]
        exact ih r' _ _

@[simp] theorem ending_skip (n : Nat) : (r.skip n).ending = r.ending :=
  (readLoop_ending n r n []).2

theorem readFull_of_eof {r : Reader} (heof : r.ending = .eof) (h : r.bytes.length < n) :
    readFull n r = .error (if r.bytes = [] then .eof else .unexpectedEOF) := by
  have hdata : (readLoop n r n []).1 = r.bytes := by
    rw [(readLoop_spec r [] le_rfl).1, nil_append, take_of_length_le h.le]
  have hending := (readLoop_ending n r n []).1
  rw [heof] at hending
  have hnot : (readLoop n r n []).2.1 ≠ some .failed := by
    rcases hending with hnone | heof' <;> simp [*]
  rw [readFull]
  dsimp only
  rw [hdata, if_neg h.ne, if_neg hnot]
  split <;> rfl

theorem readUint64_cases :
    (∃ n, Lib.readUint64 r.bytes = .ok (n, (r.skip 8).bytes) ∧ r.readUint64 = .ok (n, r.skip 8)) ∨
      ∃ e e', Lib.readUint64 r.bytes = .error e ∧ r.readUint64 = .error e' := by
  by_cases h : 8 ≤ r.bytes.length
  · refine .inl ⟨leNat (r.bytes.take 8), ?_, ?_⟩
    · rw [Lib.readUint64, Lib.readFull_of_le h, bytes_skip]
      rfl
    · rw [readUint64, readFull_of_le h]
      rfl
  · obtain ⟨e', he'⟩ := readFull_of_lt (not_le.mp h)
    refine .inr ?_
    rw [Lib.readUint64, Lib.readFull, if_neg h, readUint64, he']
    split
    all_goals exact ⟨_, _, rfl, rfl⟩

theorem readUint64_of_bytes {r : Reader} {rest : Bytes} (hn : n < 2 ^ 64)
    (h : r.bytes = leBytes 8 n ++ rest) :
    r.readUint64 = .ok (n, r.skip 8) ∧ (r.skip 8).bytes = rest := by
  have hread := readUint64_leBytes hn rest
  rw [← h] at hread
  rcases r.readUint64_cases with ⟨n', hn', hr⟩ | ⟨e, e', he, -⟩
  · cases hn'.symm.trans hread
    exact ⟨hr, rfl⟩
  · cases he.symm.trans hread

end Reader

end Babuza.Lib
