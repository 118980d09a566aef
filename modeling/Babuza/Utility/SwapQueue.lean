import Mathlib.Data.List.Basic
import Mathlib.Logic.Function.Basic

/-!
# `queue.SwapBufferQueue`

A queue with two buffers that change roles at each `Get` (`pkg/utility/queue/swap_queue.go`), as
long as it is not disposed of. `Get` hands out a slice of the buffer that was written to, and
refuses to do so until the slice before is released. `Release` can be called any number of times.
Between its two atomic actions `onRelease` changes the slice, and others can use the queue.
-/

namespace Babuza.Queue

open List

variable {T : Type}

/-- `buffer true` and `buffer false` are `bufferA` and `bufferB`, and `writeBuf` is one of them. -/
structure SwapBufferQueue (T : Type) where
  buffer : Bool → List T
  writeBuf : Bool
  size : Nat
  tail : Nat
  isTargetA : Bool
  bufferInUse : Bool

/-- A `BufferSlice` whose data is not nil: the front of a buffer, and what stood there when the
slice was handed out. -/
structure BufferSlice (T : Type) where
  buffer : Bool
  length : Nat
  data : List T

namespace SwapBufferQueue

def newSwapBufferQueue (zero : T) (size : Nat) : SwapBufferQueue T :=
  ⟨fun _ => List.replicate size zero, true, size, 0, true, false⟩

/-- `Put`; `none` is `ErrBufferFull`. -/
def put (q : SwapBufferQueue T) (element : T) : Option (SwapBufferQueue T) :=
  if q.tail = q.size then none
  else some { q with
    buffer := Function.update q.buffer q.writeBuf ((q.buffer q.writeBuf).set q.tail element)
    tail := q.tail + 1 }

/-- What a slice of a buffer shows. -/
def view (q : SwapBufferQueue T) (b : BufferSlice T) : List T := (q.buffer b.buffer).take b.length

def swapBuffer (q : SwapBufferQueue T) : BufferSlice T × SwapBufferQueue T :=
  (⟨q.isTargetA, q.tail, (q.buffer q.isTargetA).take q.tail⟩,
    { q with writeBuf := !q.isTargetA, isTargetA := !q.isTargetA, tail := 0 })

/-- `Get`. The error is `ErrBufferInUse`, and without elements there is only the zero slice. -/
def get (q : SwapBufferQueue T) : Except Unit (Option (BufferSlice T × SwapBufferQueue T)) :=
  if q.bufferInUse then .error ()
  else if q.tail = 0 then .ok none
  else .ok (some (swapBuffer { q with bufferInUse := true }))

/-- `onRelease` has the slice, and with it the buffer. -/
def applyOnRelease (q : SwapBufferQueue T) (b : BufferSlice T) (onRelease : Nat → T → T) :
    SwapBufferQueue T :=
  { q with buffer := Function.update q.buffer b.buffer ((q.buffer b.buffer).mapIdx onRelease) }

def pending (q : SwapBufferQueue T) : List T := (q.buffer q.writeBuf).take q.tail

end SwapBufferQueue

/-- How far `Release` has come: nobody called it, a call has set `released`, or it has also reset
`bufferInUse`. -/
inductive Phase
  | held
  | releasing
  | released
  deriving DecidableEq

/-- The slices that were handed out, by number, and the elements that were put. -/
structure Usage (T : Type) where
  queue : SwapBufferQueue T
  slices : List (BufferSlice T)
  phase : Nat → Phase
  done : List T

inductive Call (T : Type)
  | put (element : T)
  | get
  /-- `Release` up to the end of `onRelease`, which changes the buffer of the slice element by
  element. -/
  | release (k : Nat) (onRelease : Nat → T → T)
  /-- `Release` behind `onRelease`. -/
  | unlock (k : Nat)

namespace Usage

def new (zero : T) (size : Nat) : Usage T := ⟨.newSwapBufferQueue zero size, [], fun _ => .held, []⟩

def step (s : Usage T) : Call T → Usage T
  | .put element => match s.queue.put element with
    | none => s
    | some q => { s with queue := q, done := s.done ++ [element] }
  | .get => match s.queue.get with
    | .error _ | .ok none => s
    | .ok (some (b, q)) => { s with
      queue := q
      slices := s.slices ++ [b]
      phase := Function.update s.phase s.slices.length .held }
  | .release k onRelease => match s.slices[k]? with
    | none => s
    | some b =>
      if s.phase k = .held then { s with
        queue := s.queue.applyOnRelease b onRelease
        phase := Function.update s.phase k .releasing }
      else s
  | .unlock k =>
    if k < s.slices.length ∧ s.phase k = .releasing then { s with
      queue := { s.queue with bufferInUse := false }
      phase := Function.update s.phase k .released }
    else s

/-- Only the slice that was handed out last can be in use, and it is of the buffer that is not
written to. -/
structure Ordered (size : Nat) (s : Usage T) : Prop where
  size_eq : s.queue.size = size
  target : s.queue.writeBuf = s.queue.isTargetA
  tail_le : s.queue.tail ≤ size
  length_eq : ∀ a, (s.queue.buffer a).length = size
  fifo : s.slices.flatMap BufferSlice.data ++ s.queue.pending = s.done
  inUse : ∀ k b, s.slices[k]? = some b → s.phase k ≠ .released →
    k + 1 = s.slices.length ∧ s.queue.bufferInUse ∧ b.buffer ≠ s.queue.writeBuf ∧
      (s.phase k = .held → s.queue.view b = b.data)

variable {size : Nat} {s : Usage T}

theorem Ordered.put (h : s.Ordered size) (element : T) : (s.step (.put element)).Ordered size := by
  have htail := h.tail_le
  have hsize := h.size_eq
  rw [step]
  split
  · exact h
  · rename_i q hput
    obtain ⟨hroom, hq⟩ := Option.ite_none_left_eq_some.mp hput
    cases hq
    have hlt : s.queue.tail < (s.queue.buffer s.queue.writeBuf).length := by
      rw [h.length_eq]
      omega
    refine { h with
      tail_le := show s.queue.tail + 1 ≤ size by omega
      length_eq := (Function.forall_update_iff s.queue.buffer fun _ l => l.length = size).mpr
        ⟨by rw [length_set, h.length_eq], fun a _ => h.length_eq a⟩
      fifo := ?_
      inUse := fun k b hk hp => ?_ }
    · rw [← h.fifo, append_assoc]
      simp [SwapBufferQueue.pending, take_add_one, hlt, take_set_of_le]
    · obtain ⟨hlast, huse, hother, hview⟩ := h.inUse k b hk hp
      refine ⟨hlast, huse, hother, fun hheld => ?_⟩
      simp only [← hview hheld, SwapBufferQueue.view, Function.update_of_ne hother]

theorem Ordered.get (h : s.Ordered size) : (s.step .get).Ordered size := by
  rw [step]
  split
  · exact h
  · exact h
  · rename_i b q hget
    rw [SwapBufferQueue.get] at hget
    split at hget
    · cases hget
    · rename_i hfree
      split at hget <;> cases hget
      refine { h with
        target := rfl, tail_le := Nat.zero_le _, fifo := ?_, inUse := fun k b hk hp => ?_ }
      · simp [← h.fifo, SwapBufferQueue.pending, h.target]
      · -- no slice was in use, so it is the new one
        have hnone := fun k b hk hp => hfree (h.inUse k b hk hp).2.1
        grind [SwapBufferQueue.view]

theorem Ordered.release (h : s.Ordered size) (k : Nat) (onRelease : Nat → T → T) :
    (s.step (.release k onRelease)).Ordered size := by
  rw [step]
  split
  · exact h
  · rename_i b hb
    split
    · rename_i hheld
      obtain ⟨hlast, -, hother, -⟩ := h.inUse k b hb (by simp [hheld])
      refine { h with
        length_eq := (Function.forall_update_iff s.queue.buffer fun _ l => l.length = size).mpr
          ⟨by rw [length_mapIdx, h.length_eq], fun a _ => h.length_eq a⟩
        fifo := ?_
        inUse := fun k' b' hb' hp => ?_ }
      · simpa [SwapBufferQueue.pending, SwapBufferQueue.applyOnRelease, Function.update_of_ne
          hother.symm] using h.fifo
      · -- only the slice that is being released was in use
        have hp' : s.phase k' ≠ .released := by grind
        have hin := h.inUse k' b' hb' hp'
        exact ⟨hin.1, hin.2.1, hin.2.2.1, fun hheld' => by grind⟩
    · exact h

theorem Ordered.step (h : s.Ordered size) (call : Call T) : (s.step call).Ordered size := by
  cases call with
  | put element => exact h.put element
  | get => exact h.get
  | release k onRelease => exact h.release k onRelease
  | unlock k =>
    rw [Usage.step]
    split
    · rename_i hk
      refine { h with inUse := fun k' b hb hp => ?_ }
      have hlast := h.inUse k _ (getElem?_eq_getElem hk.1)
      have hlast' := h.inUse k' b hb
      grind
    · exact h

end Usage

/-- The slices that `Get` returned and what is pending are what was put, in order. A slice that is
not released shows what it showed at first, and nothing is put into its buffer until the release is
over. `Put` fails only when the buffer is full. -/
theorem swapBufferQueue_ordered (zero : T) (size : Nat) (calls : List (Call T)) :
    ∃ s, calls.foldl Usage.step (.new zero size) = s ∧
      s.slices.flatMap BufferSlice.data ++ s.queue.pending = s.done ∧
      (∀ k b, s.slices[k]? = some b → s.phase k = .held → s.queue.view b = b.data) ∧
      (∀ k b, s.slices[k]? = some b → s.phase k ≠ .released → b.buffer ≠ s.queue.writeBuf) ∧
      ∀ element, s.queue.put element = none → s.queue.pending.length = size := by
  have hordered : (calls.foldl Usage.step (.new zero size)).Ordered size := by
    refine foldlRecOn calls Usage.step ?_ fun s hs call _ => hs.step call
    exact ⟨rfl, rfl, Nat.zero_le _, fun _ => length_replicate, rfl, by simp [Usage.new]⟩
  refine ⟨_, rfl, hordered.fifo, fun k b hk hp => ?_,
    fun k b hk hp => (hordered.inUse k b hk hp).2.2.1, ?_⟩
  · exact (hordered.inUse k b hk (by simp [hp])).2.2.2 hp
  intro element hfull
  rw [SwapBufferQueue.put] at hfull
  split at hfull
  · rename_i htail
    rw [SwapBufferQueue.pending, length_take, hordered.length_eq, htail, hordered.size_eq,
      Nat.min_self]
  · cases hfull

end Babuza.Queue
