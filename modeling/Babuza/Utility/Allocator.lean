import Mathlib.Tactic.Ring

/-!
# `allocator.ByteSlicePool`

A pool of byte slices with one level per slice size (`pkg/utility/allocator/pool.go`). A request
is served by the first level that is large enough; a request above the last level panics. The
content of an acquired slice is whatever its last user left there, so only its size is modelled.

The loop that makes the levels stops above the largest size, so that the step after it never adds a
level for this size: `acquire` serves all sizes only if the loop comes to the largest one itself
(`reached_serves_iff`).
-/

namespace Babuza.Allocator

structure ByteSlicePool where
  levels : List Nat
  deriving DecidableEq

/-- `float64(n)`: a number of more than 53 binary digits is rounded to the nearest one, to even at a
tie. -/
def float64 (n : Nat) : Nat :=
  if n < 2 ^ 53 then n
  else
    let unit := 2 ^ (n.log2 - 52)
    let q := n / unit
    (if 2 * (n % unit) < unit ∨ 2 * (n % unit) = unit ∧ q % 2 = 0 then q else q + 1) * unit

/-- The loop of `NewByteSlicePool`: level sizes from `next` on, up to `max`, then the size the
loop stopped at. What the conversion to `int` makes of `2 ^ 63` and above is left out. -/
def poolLevels (max factor : Nat) : (fuel : Nat) → (next : Nat) → List Nat × Nat
  | 0, next => ([], next)
  | fuel + 1, next =>
    if next ≤ max then
      let (levels, stop) := poolLevels max factor fuel (float64 (float64 next * factor))
      (next :: levels, stop)
    else ([], next)

/-- `NewByteSlicePool`, with a whole number for the growth factor. `none` is a panic. -/
def newByteSlicePool (min max factor : Nat) : Option ByteSlicePool :=
  if min = 0 ∨ max = 0 ∨ max < min ∨ factor = 1 then none
  else
    let (levels, stop) := poolLevels max factor (max + 1) min
    some ⟨if stop < max then levels ++ [max] else levels⟩

variable {p : ByteSlicePool} {byteSize level : Nat}

namespace ByteSlicePool

/-- `ByteSlicePool.Acquire`: the size of the slice handed out. `none` is a panic. -/
def acquire (p : ByteSlicePool) (byteSize : Nat) : Option Nat :=
  if byteSize = 0 then none else p.levels.find? (byteSize ≤ ·)

theorem acquire_isSome_mono {small large : Nat} (hpos : 0 < small) (hle : small ≤ large)
    (h : (p.acquire large).isSome) : (p.acquire small).isSome := by
  have hlarge : large ≠ 0 := by omega
  have hsmall : small ≠ 0 := by omega
  simp only [acquire, hlarge, hsmall, if_false, List.find?_isSome, decide_eq_true_eq] at h ⊢
  obtain ⟨level, hmem, hfit⟩ := h
  exact ⟨level, hmem, Nat.le_trans hle hfit⟩

theorem acquire_le (h : p.acquire byteSize = some level) : byteSize ≤ level := by
  unfold acquire at h
  split at h
  · cases h
  · have hlevel := List.find?_some h
    exact of_decide_eq_true hlevel

end ByteSlicePool

/-- The pool behind the package's `Acquire`: levels from 64 bytes to 16 MiB, each twice as large as
the one before. -/
def defaultByteSlicePool : ByteSlicePool := ⟨(List.range 19).map fun k => 64 * 2 ^ k⟩

theorem newByteSlicePool_default :
    newByteSlicePool 64 (16 * 1024 * 1024) 2 = some defaultByteSlicePool := by
  decide +kernel

theorem acquire_default_isSome_iff (byteSize : Nat) :
    (defaultByteSlicePool.acquire byteSize).isSome ↔ byteSize ≠ 0 ∧
      byteSize ≤ 16 * 1024 * 1024 := by
  unfold ByteSlicePool.acquire
  split
  · rename_i hzero
    simp [hzero]
  · rename_i hzero
    simp only [List.find?_isSome, decide_eq_true_eq, defaultByteSlicePool, List.mem_map,
      List.mem_range, exists_exists_and_eq_and]
    constructor
    · rintro ⟨k, hk, hle⟩
      have hpow : 2 ^ k ≤ 2 ^ 18 := Nat.pow_le_pow_right (by omega) (by omega)
      exact ⟨hzero, by omega⟩
    · rintro ⟨-, hle⟩
      exact ⟨18, by omega, hle⟩

/-! ## Slices in use -/

structure ByteSlice where
  length : Nat
  capacity : Nat
  deriving DecidableEq

/-- The slices in the `sync.Pool` of each level, and all that were ever acquired. -/
structure Slices where
  pools : Nat → List ByteSlice
  acquired : List ByteSlice

namespace ByteSlicePool

/-- `Acquire`, for which the `sync.Pool` of the level returns its slice with number `k`, or nil. -/
def acquireSlice (p : ByteSlicePool) (s : Slices) (byteSize k : Nat) :
    Option (ByteSlice × Slices) :=
  (p.acquire byteSize).map fun level =>
    match (s.pools level)[k]? with
    | none => (⟨level, level⟩, { s with acquired := ⟨level, level⟩ :: s.acquired })
    | some b =>
      (b, ⟨Function.update s.pools level ((s.pools level).eraseIdx k), b :: s.acquired⟩)

/-- `Release` of a slice whose buffer is not nil. `none` is a panic. -/
def release (p : ByteSlicePool) (s : Slices) (b : ByteSlice) : Option Slices :=
  (p.levels.find? (b.capacity = ·)).map fun level =>
    { s with pools := Function.update s.pools level (⟨level, b.capacity⟩ :: s.pools level) }

/-- What comes of a new pool. An acquired slice can be cut to any length before its release. -/
inductive Reached (p : ByteSlicePool) : Slices → Prop
  | new : Reached p ⟨fun _ => [], []⟩
  | acquire {s s' byteSize k b} (h : Reached p s)
      (hacquire : p.acquireSlice s byteSize k = some (b, s')) : Reached p s'
  | release {s s' b} {length : Nat} (h : Reached p s) (hb : b ∈ s.acquired)
      (hlength : length ≤ b.capacity) (hrelease : p.release s ⟨length, b.capacity⟩ = some s') :
      Reached p s'

/-- `Acquire` returns a slice that is long enough, new or used before, and `Release` does not
panic. -/
def Serves (p : ByteSlicePool) (max : Nat) (s : Slices) : Prop :=
  (∀ byteSize k, 1 ≤ byteSize → byteSize ≤ max →
    ∃ b s', p.acquireSlice s byteSize k = some (b, s') ∧ byteSize ≤ b.length) ∧
  ∀ b ∈ s.acquired, ∀ length ≤ b.capacity, (p.release s ⟨length, b.capacity⟩).isSome

/-- A slice has the size of a level, and stands in the pool of that level. -/
structure Sorted (p : ByteSlicePool) (s : Slices) : Prop where
  pools : ∀ level, ∀ b ∈ s.pools level, level ∈ p.levels ∧ b = ⟨level, level⟩
  acquired : ∀ b ∈ s.acquired, b.capacity ∈ p.levels

variable {s s' : Slices} {b : ByteSlice} {k max : Nat}

theorem Sorted.update (h : p.Sorted s) {l : List ByteSlice}
    (hl : ∀ b ∈ l, level ∈ p.levels ∧ b = ⟨level, level⟩) :
    ∀ level', ∀ b ∈ Function.update s.pools level l level',
      level' ∈ p.levels ∧ b = ⟨level', level'⟩ :=
  (Function.forall_update_iff s.pools fun level l =>
    ∀ b ∈ l, level ∈ p.levels ∧ b = ⟨level, level⟩).mpr ⟨hl, fun level' _ => h.pools level'⟩

theorem Sorted.acquireSlice_eq (h : p.Sorted s) (hlevel : p.acquire byteSize = some level)
    (hacquire : p.acquireSlice s byteSize k = some (b, s')) : b = ⟨level, level⟩ ∧ p.Sorted s' := by
  have hmem : level ∈ p.levels := by
    unfold acquire at hlevel
    split at hlevel
    · cases hlevel
    · exact List.mem_of_find?_eq_some hlevel
  rw [acquireSlice, hlevel, Option.map_some, Option.some.injEq] at hacquire
  split at hacquire <;> cases hacquire
  · exact ⟨rfl, h.pools, List.forall_mem_cons.mpr ⟨hmem, h.acquired⟩⟩
  · rename_i b' hk
    obtain ⟨-, rfl⟩ := h.pools level b (List.mem_of_getElem? hk)
    exact ⟨rfl, h.update fun b hb => h.pools level b (List.mem_of_mem_eraseIdx hb),
      List.forall_mem_cons.mpr ⟨hmem, h.acquired⟩⟩

theorem Sorted.release (h : p.Sorted s) (hrelease : p.release s b = some s') : p.Sorted s' := by
  obtain ⟨level, hlevel, rfl⟩ := Option.map_eq_some_iff.mp hrelease
  obtain rfl : b.capacity = level := by simpa using List.find?_some hlevel
  refine { h with pools := h.update (List.forall_mem_cons.mpr ⟨⟨?_, rfl⟩, h.pools _⟩) }
  exact List.mem_of_find?_eq_some hlevel

theorem Reached.sorted (h : p.Reached s) : p.Sorted s := by
  induction h with
  | new => exact ⟨nofun, nofun⟩
  | acquire h hacquire ih =>
    obtain ⟨level, hlevel, -⟩ := Option.map_eq_some_iff.mp hacquire
    exact (ih.acquireSlice_eq hlevel hacquire).2
  | release h hb hlength hrelease ih => exact ih.release hrelease

theorem Sorted.serves_iff (h : p.Sorted s) :
    p.Serves max s ↔ ∀ byteSize, 1 ≤ byteSize → byteSize ≤ max → (p.acquire byteSize).isSome := by
  constructor
  · intro hserves byteSize hpos hle
    obtain ⟨b, s', hacquire, -⟩ := hserves.1 byteSize 0 hpos hle
    obtain ⟨level, hlevel, -⟩ := Option.map_eq_some_iff.mp hacquire
    rw [hlevel]
    rfl
  · intro hsome
    refine ⟨fun byteSize k hpos hle => ?_, fun b hb length _ => ?_⟩
    · obtain ⟨level, hlevel⟩ := Option.isSome_iff_exists.mp (hsome byteSize hpos hle)
      obtain ⟨⟨b, s'⟩, hacquire⟩ : ∃ x, p.acquireSlice s byteSize k = some x := by
        rw [acquireSlice, hlevel]
        exact ⟨_, rfl⟩
      refine ⟨b, s', hacquire, ?_⟩
      rw [(h.acquireSlice_eq hlevel hacquire).1]
      exact acquire_le hlevel
    · rw [ByteSlicePool.release, Option.isSome_map, List.find?_isSome]
      exact ⟨_, h.acquired b hb, decide_eq_true rfl⟩

end ByteSlicePool

theorem float64_double {n : Nat} (h : n < 2 ^ 53) : float64 (float64 n * 2) = n * 2 := by
  have hn : float64 n = n := if_pos h
  rw [hn, float64]
  split
  · rfl
  · have hlog : (n * 2).log2 = 53 := (Nat.log2_eq_iff (by omega)).mpr ⟨by omega, by omega⟩
    simp [hlog]

theorem poolLevels_two {max fuel next : Nat} (hmax : max < 2 ^ 53) (hfuel : max < next * 2 ^ fuel) :
    max < (poolLevels max 2 fuel next).2 ∧
      ∀ level, level ∈ (poolLevels max 2 fuel next).1 ↔
        level ≤ max ∧ ∃ k, level = next * 2 ^ k := by
  have hstop : ∀ {next}, max < next → max < next ∧ ∀ level, level ∈ ([] : List Nat) ↔
      level ≤ max ∧ ∃ k, level = next * 2 ^ k := by
    refine fun {next} hlt => ⟨hlt, fun level => iff_of_false List.not_mem_nil ?_⟩
    rintro ⟨hle, k, rfl⟩
    have hge := Nat.le_mul_of_pos_right next (Nat.two_pow_pos k)
    omega
  induction fuel generalizing next with
  | zero =>
    rw [Nat.pow_zero, Nat.mul_one] at hfuel
    exact hstop hfuel
  | succ fuel ih =>
    rw [poolLevels]
    split
    · rename_i hle
      rw [float64_double (by omega)]
      have hdouble : ∀ k, next * 2 ^ (k + 1) = next * 2 * 2 ^ k := by
        intro k
        rw [Nat.mul_assoc, Nat.pow_succ']
      obtain ⟨hlt, hmem⟩ := ih (hdouble fuel ▸ hfuel)
      refine ⟨hlt, fun level => ?_⟩
      rw [List.mem_cons, hmem]
      constructor
      · rintro (rfl | ⟨hle', k, rfl⟩)
        · exact ⟨hle, 0, by simp⟩
        · exact ⟨hle', k + 1, (hdouble k).symm⟩
      · rintro ⟨hle', k, rfl⟩
        cases k with
        | zero => exact .inl (by simp)
        | succ k => exact .inr ⟨hle', k, hdouble k⟩
    · exact hstop (Nat.not_le.mp ‹_›)

theorem newByteSlicePool_two {min max : Nat} (hmin : 1 ≤ min) (hle : min ≤ max)
    (hmax : max < 2 ^ 53) : ∃ p, newByteSlicePool min max 2 = some p ∧
      ∀ level, level ∈ p.levels ↔ level ≤ max ∧ ∃ k, level = min * 2 ^ k := by
  have hfuel : max < min * 2 ^ (max + 1) :=
    calc max < 2 ^ (max + 1) := by have := Nat.lt_two_pow_self (n := max + 1); omega
      _ ≤ min * 2 ^ (max + 1) := Nat.le_mul_of_pos_left _ hmin
  obtain ⟨hstop, hmem⟩ := poolLevels_two hmax hfuel
  refine ⟨⟨(poolLevels max 2 (max + 1) min).1⟩, ?_, hmem⟩
  rw [newByteSlicePool, if_neg (by omega)]
  dsimp only
  rw [if_neg (by omega)]

/-- The pool serves all requests up to the largest size, however it was used, if and only if the
doubling, which is exact below `2 ^ 53`, comes to that size. -/
theorem reached_serves_iff {min max : Nat} (hmin : 1 ≤ min) (hle : min ≤ max)
    (hmax : max < 2 ^ 53) :
    (∃ p, newByteSlicePool min max 2 = some p ∧ ∀ s, p.Reached s → p.Serves max s) ↔
      ∃ k, max = min * 2 ^ k := by
  obtain ⟨p, hp, hmem⟩ := newByteSlicePool_two hmin hle hmax
  have hsome : (p.acquire max).isSome ↔ ∃ k, max = min * 2 ^ k := by
    rw [ByteSlicePool.acquire, if_neg (by omega), List.find?_isSome]
    constructor
    · rintro ⟨level, hlevel, hfit⟩
      obtain ⟨hle, k, rfl⟩ := (hmem level).mp hlevel
      exact ⟨k, Nat.le_antisymm (of_decide_eq_true hfit) hle⟩
    · intro hk
      exact ⟨max, (hmem max).mpr ⟨Nat.le_refl _, hk⟩, decide_eq_true (Nat.le_refl _)⟩
  rw [← hsome]
  constructor
  · rintro ⟨p', hp', hserves⟩
    cases hp.symm.trans hp'
    exact ByteSlicePool.Reached.new.sorted.serves_iff.mp (hserves _ .new) max (by omega)
      (Nat.le_refl _)
  · intro hacquire
    refine ⟨p, hp, fun s hs => hs.sorted.serves_iff.mpr fun byteSize hpos hle' => ?_⟩
    exact ByteSlicePool.acquire_isSome_mono hpos hle' hacquire

theorem reached_serves_sixteen :
    ∃ p, newByteSlicePool 1 16 2 = some p ∧ ∀ s, p.Reached s → p.Serves 16 s :=
  (reached_serves_iff (by decide) (by decide) (by decide)).mpr ⟨4, rfl⟩

theorem largest_size_panics :
    ∃ p, newByteSlicePool 64 100 2 = some p ∧ p.acquire 80 = none ∧
      p.Reached ⟨fun _ => [], []⟩ ∧ ¬ p.Serves 100 ⟨fun _ => [], []⟩ := by
  refine ⟨⟨[64]⟩, by decide, by decide, .new, fun h => ?_⟩
  obtain ⟨b, s', hacquire, -⟩ := h.1 80 0 (by decide) (by decide)
  cases hacquire

end Babuza.Allocator
