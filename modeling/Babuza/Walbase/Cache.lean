import Babuza.Lib.Log
import Babuza.Lib.Ring
import Babuza.Raftpb

/-!
# `walbase.Cache`

The ring cache of entry data in front of the log (`walbase/cache.go`). Positions are masked with
`bufferSize - 1`, the size is a power of two, and the ring is doubled as soon as it is full.

`Cache.Holds c xs` says that the cache is the list `xs`; every method is then a list operation:
`append` stores behind the list, `truncate` drops from its end and `delete` from its front.
Slots outside the window are zero, which is why an empty cache answers index `0`.
-/

namespace Babuza.Walbase

open Lib List

structure CacheEntryData where
  index : Nat
  data : Bytes
  deriving DecidableEq

namespace CacheEntryData

def empty : CacheEntryData := ⟨0, []⟩

def ofEntry (e : Entry) : CacheEntryData := ⟨e.index, e.data⟩

end CacheEntryData

def defaultBuffer : Nat := 128

structure IndexRange where
  first : Nat
  last : Nat
  empty : Bool
  deriving DecidableEq

/-- `ToOffsetIndex`, the offset of the first index. -/
def IndexRange.toOffsetIndex (i : IndexRange) (firstItemIndex : Nat) : Nat :=
  if i.empty then 0 else i.first - firstItemIndex

structure Cache where
  ringBuf : List CacheEntryData
  bufferSize : Nat
  consumePos : Nat
  appendPos : Nat
  length : Nat
  deriving DecidableEq

namespace Cache

def newCache : Cache where
  ringBuf := List.replicate defaultBuffer CacheEntryData.empty
  bufferSize := defaultBuffer
  consumePos := 0
  appendPos := 0
  length := 0

def inc (c : Cache) (p : Nat) : Nat := (p + 1) &&& (c.bufferSize - 1)

/-- The position before `p`. The source lets `p - 1` wrap around, which the mask makes the same
as adding the size. -/
def dec (c : Cache) (p : Nat) : Nat := (p + c.bufferSize - 1) &&& (c.bufferSize - 1)

def slot (c : Cache) (p : Nat) : CacheEntryData := c.ringBuf[p]?.getD CacheEntryData.empty

def indexRange (c : Cache) : IndexRange :=
  if c.length = 0 then ⟨0, 0, true⟩
  else ⟨(c.slot c.consumePos).index, (c.slot (c.dec c.appendPos)).index, false⟩

def growBuf (c : Cache) : Cache :=
  if c.consumePos = c.appendPos then
    { ringBuf := c.ringBuf.drop c.consumePos ++ c.ringBuf.take c.consumePos ++
        List.replicate c.bufferSize CacheEntryData.empty
      bufferSize := c.bufferSize <<< 1
      consumePos := 0
      appendPos := c.bufferSize
      length := c.length }
  else c

/-- One round of the loop of `append`. -/
def appendOne (c : Cache) (e : Entry) : Cache :=
  growBuf { c with
    ringBuf := c.ringBuf.set c.appendPos (.ofEntry e)
    appendPos := c.inc c.appendPos
    length := c.length + 1 }

def appendEntries (c : Cache) (entries : List Entry) : Cache := entries.foldl appendOne c

/-- The body of the loop of `truncate`: free the last slot. -/
def freeLast (c : Cache) : Cache :=
  { c with
    ringBuf := c.ringBuf.set (c.dec c.appendPos) .empty
    appendPos := c.dec c.appendPos
    length := c.length - 1 }

/-- The loop of `truncate`; it runs at most `length` times. -/
def truncateLoop (toIndex : Nat) : (fuel : Nat) → Cache → Cache
  | 0, c => c
  | fuel + 1, c =>
    if toIndex ≤ (c.slot (c.dec c.appendPos)).index then
      if c.freeLast.consumePos = c.freeLast.appendPos then c.freeLast
      else truncateLoop toIndex fuel c.freeLast
    else c

def truncate (c : Cache) (toIndex : Nat) : Cache := truncateLoop toIndex c.length c

/-- The body of the loop of `Delete`: free the first slot. -/
def freeFirst (c : Cache) : Cache :=
  { c with
    ringBuf := c.ringBuf.set c.consumePos .empty
    consumePos := c.inc c.consumePos
    length := c.length - 1 }

/-- The loop of `Delete`; it runs at most `length` times. -/
def deleteLoop (toIndex : Nat) : (fuel : Nat) → Cache → Cache
  | 0, c => c
  | fuel + 1, c =>
    if (c.slot c.consumePos).index ≤ toIndex then
      if c.freeFirst.consumePos = c.freeFirst.appendPos then c.freeFirst
      else deleteLoop toIndex fuel c.freeFirst
    else c

def delete (c : Cache) (toIndex : Nat) : Cache := deleteLoop toIndex c.length c

def clear (c : Cache) : Cache := c.delete (c.slot (c.dec c.appendPos)).index

/-- `appendFirst - consumeIndex` in `uint64`. -/
def appendOffset (appendFirst consumeIndex : Nat) : Nat :=
  if consumeIndex ≤ appendFirst then appendFirst - consumeIndex
  else 2 ^ 64 - (consumeIndex - appendFirst)

/-- The exported `Append`. The offset is taken from the batch as it was given, also when its
front has been cut off. -/
def append (c : Cache) : List Entry → Cache
  | [] => c
  | e :: rest =>
    let entries := e :: rest
    let consumeIndex := (c.slot c.consumePos).index
    let appendLast := (entries.getLast (by simp)).index
    if appendLast < consumeIndex then c
    else
      let appendFirst := e.index
      let entries := entries.drop (consumeIndex - appendFirst)
      let offset := appendOffset appendFirst consumeIndex
      if offset < c.length then (c.truncate appendFirst).appendEntries entries
      else if c.length = offset ∨ c.length = 0 then c.appendEntries entries
      else c

/-- The loop of `ReadEntriesData`: `n` rounds from position `pos` on. `none` is a panic. -/
def readLoop (c : Cache) : (n pos : Nat) → List Entry → Option (List Entry)
  | 0, _, ents => some ents
  | _ + 1, _, [] => none
  | n + 1, pos, e :: ents =>
    (readLoop c n (c.inc pos) ents).map ({ e with data := (c.slot pos).data } :: ·)

/-- `ReadEntriesData`: the filled entries, or `none` when the cache does not cover them. A panic
is the error. -/
def readEntriesData (c : Cache) : List Entry → Except Unit (Option (List Entry))
  | [] => .ok none
  | e :: rest =>
    let ents := e :: rest
    if c.length = 0 then .ok none
    else
      let firstIndex := (c.slot c.consumePos).index
      let lastIndex := (c.slot (c.dec c.appendPos)).index
      let entsHiIndex := (ents.getLast (by simp)).index
      if e.index < firstIndex ∨ lastIndex < entsHiIndex then .ok none
      else
        let fetchStartPos := (c.consumePos + (e.index - firstIndex)) &&& (c.bufferSize - 1)
        match c.readLoop (entsHiIndex + 1 - e.index) fetchStartPos ents with
        | none => .error ()
        | some ents => .ok (some ents)

/-! ## The list a cache holds -/

/-- The cache holds the list `xs`, and the rest of the ring is zero. -/
structure Holds (c : Cache) (xs : List CacheEntryData) : Prop where
  size : ∃ k, c.bufferSize = 2 ^ k
  ringBuf_length : c.ringBuf.length = c.bufferSize
  appendPos_eq : c.appendPos = (c.consumePos + xs.length) % c.bufferSize
  length_eq : c.length = xs.length
  length_lt : xs.length < c.bufferSize
  window : Window c.ringBuf c.consumePos .empty xs

section Holds

variable {c : Cache} {xs : List CacheEntryData}

theorem newCache_holds : newCache.Holds [] where
  size := ⟨7, rfl⟩
  ringBuf_length := by simp [newCache]
  appendPos_eq := rfl
  length_eq := rfl
  length_lt := by decide
  window := Window.replicate (by decide)

section

variable (h : c.Holds xs)
include h

theorem Holds.mask (p : Nat) : p &&& (c.bufferSize - 1) = p % c.bufferSize := by
  obtain ⟨k, hk⟩ := h.size
  rw [hk, Nat.and_two_pow_sub_one_eq_mod]

theorem Holds.consumePos_lt : c.consumePos < c.bufferSize := by
  rw [← h.ringBuf_length]
  exact h.window.start_lt

theorem Holds.inc_eq (p : Nat) : c.inc p = (p + 1) % c.bufferSize := h.mask _

theorem Holds.dec_appendPos (hne : xs ≠ []) :
    c.dec c.appendPos = (c.consumePos + (xs.length - 1)) % c.bufferSize := by
  have hpos := length_pos_iff.mpr hne
  have hsize := Nat.zero_lt_of_lt h.length_lt
  rw [dec, h.mask, h.appendPos_eq]
  rw [Nat.add_sub_assoc hsize, Nat.mod_add_mod,
    show c.consumePos + xs.length + (c.bufferSize - 1) =
      c.consumePos + (xs.length - 1) + c.bufferSize by omega, Nat.add_mod_right]

theorem Holds.slot_eq {i : Nat} (hi : i < xs.length) :
    c.slot ((c.consumePos + i) % c.bufferSize) = xs.get ⟨i, hi⟩ := by
  rw [slot, ← h.ringBuf_length, h.window.getElem? hi, getElem?_eq_getElem hi]
  rfl

end

variable {x : CacheEntryData}

theorem Holds.slot_consumePos (h : c.Holds (x :: xs)) : c.slot c.consumePos = x := by
  have := h.slot_eq (i := 0) (by simp)
  rwa [Nat.add_zero, Nat.mod_eq_of_lt h.consumePos_lt] at this

theorem Holds.slot_consumePos_nil (h : c.Holds []) : c.slot c.consumePos = .empty := by
  have hpos := Nat.zero_lt_of_lt h.window.start_lt
  have := h.window.getElem?_blank (Nat.zero_le 0) hpos
  rw [Nat.add_zero, Nat.mod_eq_of_lt h.window.start_lt] at this
  rw [slot, this]
  rfl

theorem Holds.slot_last (h : c.Holds xs) (hne : xs ≠ []) :
    c.slot (c.dec c.appendPos) = xs.getLast hne := by
  have hpos := length_pos_iff.mpr hne
  rw [h.dec_appendPos hne, h.slot_eq (show xs.length - 1 < xs.length by omega),
    getLast_eq_getElem]
  rfl

theorem add_mod_eq_self_iff {a m n : Nat} (ha : a < n) (hm : m ≤ n) :
    a = (a + m) % n ↔ m = 0 ∨ m = n := by
  constructor
  · intro heq
    rcases Nat.lt_or_ge (a + m) n with hlo | hhi
    · rw [Nat.mod_eq_of_lt hlo] at heq
      omega
    · rw [Nat.mod_eq_sub_mod hhi, Nat.mod_eq_of_lt (by omega)] at heq
      omega
  · rintro (rfl | rfl)
    · rw [Nat.add_zero, Nat.mod_eq_of_lt ha]
    · rw [Nat.add_mod_right, Nat.mod_eq_of_lt ha]

theorem Holds.consumePos_eq_appendPos (h : c.Holds xs) : c.consumePos = c.appendPos ↔ xs = [] := by
  have hlt := h.length_lt
  rw [h.appendPos_eq, add_mod_eq_self_iff h.consumePos_lt hlt.le, ← List.length_eq_zero_iff]
  omega

/-! ## The operations on the list -/

theorem Holds.appendOne (h : c.Holds xs) (e : Entry) :
    (c.appendOne e).Holds (xs ++ [.ofEntry e]) := by
  have hlt := h.length_lt
  have hlen := h.ringBuf_length
  obtain ⟨k, hk⟩ := h.size
  have hwindow := h.window.push (hlen ▸ hlt) (CacheEntryData.ofEntry e)
  rw [hlen, ← h.appendPos_eq] at hwindow
  have hnext : c.inc c.appendPos = (c.consumePos + (xs.length + 1)) % c.bufferSize := by
    rw [h.inc_eq, h.appendPos_eq, Nat.mod_add_mod, Nat.add_assoc]
  have hsize : (xs ++ [CacheEntryData.ofEntry e]).length = xs.length + 1 := by simp
  rw [Cache.appendOne, growBuf, hnext]
  by_cases hfull : xs.length + 1 = c.bufferSize
  · -- the ring is full: copy it into one of twice the size
    rw [if_pos ((add_mod_eq_self_iff h.consumePos_lt hfull.le).mpr (.inr hfull))]
    refine ⟨⟨k + 1, ?_⟩, ?_, ?_, ?_, ?_, ?_⟩
    · simp only [hk, Nat.shiftLeft_eq, Nat.pow_succ]
    · simp only [length_append, length_drop, length_take, length_set, hlen,
        length_replicate, Nat.shiftLeft_eq]
      have := h.consumePos_lt
      omega
    · simp only [hsize, hfull, Nat.zero_add, Nat.shiftLeft_eq]
      rw [Nat.mod_eq_of_lt (by omega)]
    · simp only [hsize, h.length_eq]
    · simp only [hsize, Nat.shiftLeft_eq]
      omega
    · exact hwindow.grow (by rw [hsize, length_set, hlen, hfull]) _
  · rw [if_neg (fun heq => by
      rcases (add_mod_eq_self_iff h.consumePos_lt (by omega)).mp heq with h0 | h1 <;> omega)]
    have hroom : xs.length + 1 < c.bufferSize := by omega
    exact ⟨⟨k, hk⟩, by simp [hlen], by rw [hsize], by simp [h.length_eq], by rwa [hsize], hwindow⟩

theorem Holds.appendEntries (h : c.Holds xs) (entries : List Entry) :
    (c.appendEntries entries).Holds (xs ++ entries.map .ofEntry) := by
  induction entries generalizing c xs with
  | nil => simpa [Cache.appendEntries] using h
  | cons e entries ih =>
    have := ih (h.appendOne e)
    rwa [append_assoc, singleton_append] at this

theorem Holds.freeLast (h : c.Holds (xs ++ [x])) : c.freeLast.Holds xs := by
  have hdec := h.dec_appendPos (by simp)
  have hlt := h.length_lt
  have hwindow := h.window.popBack
  rw [length_append, length_singleton] at hlt hdec
  rw [Nat.add_sub_cancel] at hdec
  rw [h.ringBuf_length, ← hdec] at hwindow
  exact ⟨h.size, by simp [Cache.freeLast, h.ringBuf_length], hdec,
    by simp [Cache.freeLast, h.length_eq], show xs.length < c.bufferSize by omega, hwindow⟩

theorem Holds.truncateLoop (h : c.Holds xs) (toIndex : Nat) :
    (truncateLoop toIndex xs.length c).Holds (xs.rdropWhile (fun x => toIndex ≤ x.index)) := by
  induction xs using List.reverseRecOn generalizing c with
  | nil => exact h
  | append_singleton xs x ih =>
    have hlast := h.slot_last (by simp)
    rw [getLast_concat] at hlast
    rw [length_append, length_singleton, Cache.truncateLoop, hlast]
    by_cases hle : toIndex ≤ x.index
    · have hpop := h.freeLast
      rw [if_pos hle, rdropWhile_concat_pos _ _ _ (by simpa using hle)]
      split
      · rename_i heq
        obtain rfl := hpop.consumePos_eq_appendPos.mp heq
        exact hpop
      · exact ih hpop
    · rwa [if_neg hle, rdropWhile_concat_neg _ _ _ (by simpa using hle)]

theorem Holds.truncate (h : c.Holds xs) (toIndex : Nat) :
    (c.truncate toIndex).Holds (xs.rdropWhile (fun x => toIndex ≤ x.index)) := by
  rw [Cache.truncate, h.length_eq]
  exact h.truncateLoop toIndex

theorem Holds.freeFirst (h : c.Holds (x :: xs)) : c.freeFirst.Holds xs := by
  have hlt := h.length_lt
  have happend := h.appendPos_eq
  have hwindow := h.window.popFront
  rw [length_cons] at hlt happend
  rw [h.ringBuf_length, ← h.inc_eq] at hwindow
  refine ⟨h.size, by simp [Cache.freeFirst, h.ringBuf_length], ?_,
    by simp [Cache.freeFirst, h.length_eq], show xs.length < c.bufferSize by omega, hwindow⟩
  show c.appendPos = (c.inc c.consumePos + xs.length) % c.bufferSize
  rw [happend, h.inc_eq, Nat.mod_add_mod, Nat.add_assoc, Nat.add_comm 1]

theorem Holds.deleteLoop (h : c.Holds xs) (toIndex : Nat) :
    (deleteLoop toIndex xs.length c).Holds (xs.dropWhile (fun x => x.index ≤ toIndex)) := by
  induction xs generalizing c with
  | nil => exact h
  | cons x xs ih =>
    rw [length_cons, Cache.deleteLoop, h.slot_consumePos, dropWhile_cons]
    by_cases hle : x.index ≤ toIndex
    · have hpop := h.freeFirst
      simp only [hle, if_true, decide_true]
      split
      · rename_i heq
        obtain rfl := hpop.consumePos_eq_appendPos.mp heq
        exact hpop
      · exact ih hpop
    · simpa only [hle, if_false, decide_false, Bool.false_eq_true] using h

theorem Holds.delete (h : c.Holds xs) (toIndex : Nat) :
    (c.delete toIndex).Holds (xs.dropWhile (fun x => x.index ≤ toIndex)) := by
  rw [Cache.delete, h.length_eq]
  exact h.deleteLoop toIndex

theorem Holds.length_eq_zero_iff (h : c.Holds xs) : c.length = 0 ↔ xs = [] := by
  rw [h.length_eq, List.length_eq_zero_iff]

variable {first : Nat} {entries : List Entry}

theorem consecutive_ofEntry :
    Consecutive CacheEntryData.index first (entries.map .ofEntry) ↔
      Consecutive Entry.index first entries := by
  rw [Consecutive, Consecutive, map_map, length_map]
  rfl

theorem Holds.first_index (h : c.Holds xs) (hne : xs ≠ [])
    (hxs : Consecutive CacheEntryData.index first xs) : (c.slot c.consumePos).index = first := by
  cases xs with
  | nil => exact absurd rfl hne
  | cons x xs => rw [h.slot_consumePos, (consecutive_cons.mp hxs).1]

theorem Holds.append_of_empty (h : c.Holds []) (entries : List Entry) :
    (c.append entries).Holds (entries.map .ofEntry) := by
  cases entries with
  | nil => exact h
  | cons e rest =>
    have hlen : c.length = 0 := h.length_eq
    have hindex : (c.slot c.consumePos).index = 0 := by rw [h.slot_consumePos_nil]; rfl
    simp only [append, hindex, hlen, Nat.not_lt_zero, if_false, Nat.zero_sub, drop_zero,
      or_true, if_true]
    exact h.appendEntries (e :: rest)

theorem Holds.append_of_le {start : Nat} (h : c.Holds xs) (hne : xs ≠ [])
    (hxs : Consecutive CacheEntryData.index first xs)
    (hentries : Consecutive Entry.index start entries) (hlo : first ≤ start)
    (hhi : start ≤ first + xs.length) (hne' : entries ≠ []) :
    (c.append entries).Holds (xs.take (start - first) ++ entries.map .ofEntry) := by
  cases entries with
  | nil => exact absurd rfl hne'
  | cons e rest =>
    have hlast := hentries.getLast hne'
    have hstart : e.index = start := (consecutive_cons.mp hentries).1
    have hindex := h.first_index hne hxs
    have hlen := h.length_eq
    rw [length_cons] at hlast
    have hcovers : ¬ ((e :: rest).getLast hne').index < first := by omega
    simp only [append, hindex, hstart, hcovers, if_false, Nat.sub_eq_zero_of_le hlo,
      drop_zero, appendOffset, if_pos hlo]
    by_cases hinside : start - first < c.length
    · have htrunc := h.truncate start
      rw [hxs.rdropWhile_ge] at htrunc
      rw [if_pos hinside]
      exact htrunc.appendEntries (e :: rest)
    · rw [if_neg hinside, if_pos (.inl (by omega)), take_of_length_le (by omega)]
      exact h.appendEntries (e :: rest)

/-- A batch that ends below the first cached entry is ignored. -/
theorem Holds.append_of_below {start : Nat} (h : c.Holds xs) (hne : xs ≠ [])
    (hxs : Consecutive CacheEntryData.index first xs)
    (hentries : Consecutive Entry.index start entries) (hbelow : start + entries.length ≤ first) :
    c.append entries = c := by
  cases entries with
  | nil => rfl
  | cons e rest =>
    have hlast := hentries.getLast (cons_ne_nil e rest)
    have hindex := h.first_index hne hxs
    exact if_pos (by omega)

theorem Holds.clear (h : c.Holds xs) (hxs : Consecutive CacheEntryData.index first xs) :
    c.clear.Holds [] := by
  by_cases hne : xs = []
  · have hdelete := h.delete (c.slot (c.dec c.appendPos)).index
    rwa [hne] at hdelete
  · have hdelete := h.delete (c.slot (c.dec c.appendPos)).index
    have hlast := hxs.getLast hne
    rw [hxs.dropWhile_le, h.slot_last hne, hlast, Nat.add_sub_cancel_left, drop_length]
      at hdelete
    rwa [Cache.clear, h.slot_last hne]

theorem Holds.indexRange_eq (h : c.Holds xs) (hne : xs ≠ [])
    (hxs : Consecutive CacheEntryData.index first xs) :
    c.indexRange = ⟨first, first + xs.length - 1, false⟩ := by
  have hlast := hxs.getLast hne
  rw [indexRange, if_neg (mt h.length_eq_zero_iff.mp hne), h.slot_last hne,
    h.first_index hne hxs, ← hlast,
    Nat.add_sub_cancel]

def fill (e : Entry) (x : CacheEntryData) : Entry := { e with data := x.data }

theorem Holds.readLoop (h : c.Holds xs) (ents : List Entry) {i : Nat}
    (hi : i + ents.length ≤ xs.length) :
    c.readLoop ents.length ((c.consumePos + i) % c.bufferSize) ents =
      some (List.zipWith fill ents (xs.drop i)) := by
  induction ents generalizing i with
  | nil => rfl
  | cons e ents ih =>
    rw [length_cons] at hi
    have hlt : i < xs.length := by omega
    have hnext : c.inc ((c.consumePos + i) % c.bufferSize) =
        (c.consumePos + (i + 1)) % c.bufferSize := by
      rw [h.inc_eq, Nat.mod_add_mod, Nat.add_assoc]
    rw [length_cons, Cache.readLoop, hnext, ih (by omega), h.slot_eq hlt,
      drop_eq_getElem_cons hlt, zipWith_cons_cons]
    rfl

theorem Holds.readEntriesData_eq {lo : Nat} {ents : List Entry} (h : c.Holds xs)
    (hxs : Consecutive CacheEntryData.index first xs) (hne : ents ≠ [])
    (hents : Consecutive Entry.index lo ents) (hlo : first ≤ lo)
    (hhi : lo + ents.length ≤ first + xs.length) :
    c.readEntriesData ents = .ok (some (List.zipWith fill ents (xs.drop (lo - first)))) := by
  cases ents with
  | nil => exact absurd rfl hne
  | cons e rest =>
    rw [length_cons] at hhi
    have hxne : xs ≠ [] := by
      rintro rfl
      simp at hhi
      omega
    have hlast := hents.getLast hne
    have hxlast := hxs.getLast hxne
    have hindex : e.index = lo := (consecutive_cons.mp hents).1
    have hfirst := h.first_index hxne hxs
    rw [length_cons] at hlast
    have hcovers : ¬ (lo < first ∨ (xs.getLast hxne).index < ((e :: rest).getLast hne).index) := by
      omega
    have hrounds : ((e :: rest).getLast hne).index + 1 - lo = (e :: rest).length := by
      rw [length_cons]
      omega
    have hread := h.readLoop (e :: rest) (i := lo - first) (by rw [length_cons]; omega)
    simp only [readEntriesData, if_neg (mt h.length_eq_zero_iff.mp hxne), hfirst, hindex,
      h.slot_last hxne, hcovers, if_false, h.mask, hrounds, hread]

end Holds

end Cache

end Babuza.Walbase
