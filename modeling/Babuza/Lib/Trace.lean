import Mathlib.Data.List.Basic
import Mathlib.Data.List.Perm.Basic
import Mathlib.Logic.Function.Basic

/-!
# Interleavings of calls

Several parties make calls on a shared state. A call has a position, its place in the order in which
one party alone would make all calls. An interleaving in which no two dependent calls change places
has the effect of the calls in the order of their positions (`foldl_sim_of_ordered`), up to an
equivalence `Sim` that the calls respect.

`Preceded P` says of a sequence of events that `P` holds of each of them and those before it. The
last part is about two parties that share a value and a heap of objects: effects on different things
commute (`Effect.onRight_onLeft`).
-/

namespace Babuza.Lib

open List

variable {S α : Type*} {act : S → α → S} {Sim : S → S → Prop}

def positions (xs : List α) : List (α × Nat) := xs.zipIdx

/-- No two calls that `dep` relates are in another order than that of their positions. -/
def InOrder (dep : α → α → Prop) (ys : List (α × Nat)) : Prop :=
  ys.Pairwise fun a b => dep a.1 b.1 → a.2 < b.2

instance {dep : α → α → Prop} [DecidableRel dep] (ys : List (α × Nat)) :
    Decidable (InOrder dep ys) :=
  inferInstanceAs (Decidable (List.Pairwise _ ys))

theorem foldl_sim (hact : ∀ {s t} a, Sim s t → Sim (act s a) (act t a)) {s t : S} (h : Sim s t)
    (xs : List α) : Sim (xs.foldl act s) (xs.foldl act t) := by
  induction xs generalizing s t with
  | nil => exact h
  | cons x xs ih => exact ih (hact x h)

theorem foldl_sim_move (hsim : Equivalence Sim)
    (hact : ∀ {s t} a, Sim s t → Sim (act s a) (act t a)) (x : α) (before : List α)
    (hcomm : ∀ a ∈ before, ∀ s, Sim (act (act s a) x) (act (act s x) a)) (s : S) (after : List α) :
    Sim ((before ++ x :: after).foldl act s) ((x :: (before ++ after)).foldl act s) := by
  induction before generalizing s with
  | nil => exact hsim.refl _
  | cons a before ih =>
    have htail := ih (fun b hb => hcomm b (mem_cons_of_mem a hb)) (act s a)
    have hhead := foldl_sim hact (hcomm a mem_cons_self s) (before ++ after)
    exact hsim.trans htail hhead

variable (act) in
theorem foldl_sim_of_ordered {dep : α → α → Prop} (hsim : Equivalence Sim)
    (hact : ∀ {s t} a, Sim s t → Sim (act s a) (act t a))
    (hcomm : ∀ {a b} s, ¬ dep a b → Sim (act (act s a) b) (act (act s b) a))
    {xs ys : List (α × Nat)} (hperm : ys.Perm xs) (hxs : xs.Pairwise fun a b => a.2 < b.2)
    (hys : InOrder dep ys) (s : S) :
    Sim ((ys.map Prod.fst).foldl act s) ((xs.map Prod.fst).foldl act s) := by
  induction xs generalizing ys s with
  | nil =>
    rw [hperm.eq_nil]
    exact hsim.refl _
  | cons x xs ih =>
    obtain ⟨before, after, rfl⟩ := append_of_mem (hperm.mem_iff.mpr mem_cons_self)
    rw [pairwise_cons] at hxs
    have hrest : (before ++ after).Perm xs :=
      List.Perm.cons_inv (perm_middle.symm.trans hperm)
    -- what the interleaving has before `x` comes behind `x` in the order, so it is independent
    have hindependent : ∀ a ∈ before, ¬ dep a.1 x.1 := by
      intro a ha hdep
      have hbefore : dep a.1 x.1 → a.2 < x.2 :=
        (pairwise_append.mp hys).2.2 a ha x mem_cons_self
      have hbehind := hxs.1 a (hrest.mem_iff.mp (mem_append_left after ha))
      have := hbefore hdep
      omega
    have hmove := foldl_sim_move hsim hact x.1 (before.map Prod.fst)
      (fun a ha s => by
        obtain ⟨p, hp, rfl⟩ := mem_map.mp ha
        exact hcomm s (hindependent p hp)) s (after.map Prod.fst)
    have hinorder : InOrder dep (before ++ after) :=
      hys.sublist (List.Sublist.append_left (sublist_cons_self x after) before)
    have htail := ih hrest hxs.2 hinorder (act s x.1)
    simp only [map_append, map_cons] at hmove htail ⊢
    exact hsim.trans hmove htail

theorem positions_pairwise (xs : List α) : (positions xs).Pairwise fun a b => a.2 < b.2 := by
  have hrange : ((positions xs).map Prod.snd).Pairwise (· < ·) := by
    rw [positions, zipIdx_map_snd]
    exact pairwise_lt_range'
  exact pairwise_map.mp hrange

theorem positions_map_fst (xs : List α) : (positions xs).map Prod.fst = xs :=
  zipIdx_map_fst 0 xs

variable {xs ys : List α}

/-- Two parties make the calls, each in its order: an interleaving without conflicting calls out of
order has the effect of the calls in the order of their positions. -/
theorem foldl_sim_of_interleaving {left : α → Bool} {C : α → α → Prop} (hsim : Equivalence Sim)
    (hact : ∀ {s t} a, Sim s t → Sim (act s a) (act t a)) (hsymm : ∀ {a b}, C a b → C b a)
    (hcomm : ∀ {a b} s, left a = true → left b = false → ¬ C a b →
      Sim (act (act s a) b) (act (act s b) a))
    {ys : List (α × Nat)} (hperm : ys.Perm (positions xs))
    (hloop : InOrder (fun a b => left a = left b) ys) (hordered : InOrder C ys) (s : S) :
    Sim ((ys.map Prod.fst).foldl act s) (xs.foldl act s) := by
  have hys : InOrder (fun a b => left a = left b ∨ C a b) ys := by
    refine (hloop.and hordered).imp fun {a b} h hdep => ?_
    rcases hdep with hsame | hconflict
    · exact h.1 hsame
    · exact h.2 hconflict
  have hindependent : ∀ {a b} s, ¬ (left a = left b ∨ C a b) →
      Sim (act (act s a) b) (act (act s b) a) := by
    intro a b s hdep
    obtain ⟨hne, hconflict⟩ := not_or.mp hdep
    cases ha : left a with
    | true => exact hcomm s ha (by simpa [ha] using Ne.symm hne) hconflict
    | false =>
      exact hsim.symm
        (hcomm s (by simpa [ha] using Ne.symm hne) ha fun h => hconflict (hsymm h))
  have h := foldl_sim_of_ordered act hsim hact hindependent hperm (positions_pairwise _) hys s
  rwa [positions_map_fst] at h

/-- `P` holds of each event of the list together with those before it; `front` are the events before
the list. -/
def Preceded (P : List α → α → Prop) (front : List α) : List α → Prop
  | [] => True
  | x :: xs => P front x ∧ Preceded P (front ++ [x]) xs

section Preceded

variable {P : List α → α → Prop} {front : List α}

@[simp] theorem preceded_nil : Preceded P front [] := trivial

@[simp] theorem preceded_cons {x : α} :
    Preceded P front (x :: xs) ↔ P front x ∧ Preceded P (front ++ [x]) xs := Iff.rfl

theorem preceded_append :
    Preceded P front (xs ++ ys) ↔ Preceded P front xs ∧ Preceded P (front ++ xs) ys := by
  induction xs generalizing front with
  | nil => simp
  | cons x xs ih => simp [ih, and_assoc]

theorem preceded_of_forall (h : ∀ x ∈ xs, ∀ front, P front x) : Preceded P front xs := by
  induction xs generalizing front with
  | nil => trivial
  | cons x xs ih =>
    exact ⟨h x mem_cons_self front, ih fun y hy => h y (mem_cons_of_mem x hy)⟩

theorem Preceded.at {before after : List α} {x : α} (h : Preceded P front xs)
    (hxs : before ++ x :: after <+: xs) : P (front ++ before) x := by
  obtain ⟨rest, rfl⟩ := hxs
  rw [append_assoc, preceded_append] at h
  exact h.2.1

end Preceded

/-! ## Two parties with a shared value and a heap -/

/-- What two parties work on: each its own state, and what they share. -/
structure Shared (κ O X P Q : Type*) where
  left : P
  right : Q
  value : O
  objects : κ → X

/-- The effect of a call: on the party's own state alone, or also on the shared value, on one object
or on both. -/
inductive Effect (κ O X P : Type*)
  | own (f : P → P)
  | value (f : P → O → P × O)
  | read (k : κ) (f : P → X → P)
  | object (k : κ) (f : P → X → P × X)
  | both (k : κ) (f : P → O → X → P × O × X)

namespace Effect

variable {κ O X P Q : Type*} [DecidableEq κ]

/-- A party's state, the value and the objects after the call. -/
def run (y : P × O × (κ → X)) : Effect κ O X P → P × O × (κ → X)
  | own f => (f y.1, y.2)
  | value f => ((f y.1 y.2.1).1, (f y.1 y.2.1).2, y.2.2)
  | read k f => (f y.1 (y.2.2 k), y.2)
  | object k f => ((f y.1 (y.2.2 k)).1, y.2.1, Function.update y.2.2 k (f y.1 (y.2.2 k)).2)
  | both k f =>
    let z := f y.1 y.2.1 (y.2.2 k)
    (z.1, z.2.1, Function.update y.2.2 k z.2.2)

def onLeft (s : Shared κ O X P Q) (e : Effect κ O X P) : Shared κ O X P Q :=
  let y := e.run (s.left, s.value, s.objects)
  ⟨y.1, s.right, y.2.1, y.2.2⟩

def onRight (s : Shared κ O X P Q) (e : Effect κ O X Q) : Shared κ O X P Q :=
  let y := e.run (s.right, s.value, s.objects)
  ⟨s.left, y.1, y.2.1, y.2.2⟩

def onValue : Effect κ O X P → Bool
  | value _ | both _ _ => true
  | _ => false

def key? : Effect κ O X P → Option κ
  | read k _ | object k _ | both k _ => some k
  | _ => none

def isRead : Effect κ O X P → Bool
  | read _ _ => true
  | _ => false

/-- The effects are on different objects, or only read. -/
def Apart (e : Effect κ O X P) (e' : Effect κ O X Q) : Prop :=
  e.key? = none ∨ e.key? ≠ e'.key? ∨ e.isRead ∧ e'.isRead

theorem onRight_onLeft (e : Effect κ O X P) (e' : Effect κ O X Q)
    (hvalue : e.onValue = false ∨ e'.onValue = false) (hkey : e.Apart e')
    (s : Shared κ O X P Q) : onRight (onLeft s e) e' = onLeft (onRight s e') e := by
  cases e with
  | own f => cases e' <;> rfl
  | value f =>
    cases e' with
    | own | read | object => rfl
    | value | both => simp [onValue] at hvalue
  | read k f =>
    cases e' with
    | own | value | read => rfl
    | object k' g | both k' g =>
      have hne : k ≠ k' := by simpa [Apart, key?, isRead] using hkey
      simp [onRight, onLeft, run, Function.update_of_ne hne]
  | object k f | both k f =>
    cases e' with
    | own g => rfl
    | value g => first | rfl | simp [onValue] at hvalue
    | read k' g | object k' g | both k' g =>
      have hne : k ≠ k' := by simpa [Apart, key?, isRead] using hkey
      simp_all [onRight, onLeft, run, onValue, Function.update_of_ne hne.symm,
        Function.update_comm hne]

end Effect

end Babuza.Lib
