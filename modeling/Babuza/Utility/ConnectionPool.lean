import Babuza.Lib.Run
import Mathlib.Data.List.Nodup

/-!
# `connpool.ConnectionPool`

A pool of connections by address (`pkg/connpool/connection_pool.go`). `Get` hands out a connection
that is not in use or dials a new one, `Put` gives it back, `Remove` closes it, and a cleaner closes
those that were not used for a while. The methods exclude one another, so a use of the pool is a
sequence of calls.
-/

namespace Babuza.Connpool

open Lib List

structure ConnectionWrapper (C : Type) where
  conn : C
  inUse : Bool
  lastUsed : Int

structure Config where
  maxConnectionsPerHost : Int
  idleTimeout : Int

inductive PoolError
  | maxConnectionsReached
  | connectionNotFound
  | dial

/-- The pool, the connections that were closed, and the number of borrowers that hold a connection.
The map of the source has no empty slices: an address that is not in the map has the empty list. -/
structure Pool (A C : Type) where
  connections : A → List (ConnectionWrapper C)
  closed : A → List C
  held : C → Nat

/-- What a loop stops at: the first element that satisfies `p`, with those in front and behind. -/
def first {α : Type} (p : α → Bool) : List α → Option (List α × α × List α)
  | [] => none
  | c :: l => if p c then some ([], c, l) else (first p l).map fun x => (c :: x.1, x.2)

theorem first_eq_some {α : Type} {p : α → Bool} {l front back : List α} {c : α}
    (h : first p l = some (front, c, back)) : l = front ++ c :: back ∧ p c := by
  induction l generalizing front with
  | nil => cases h
  | cons x l ih =>
    rw [first] at h
    split at h
    · cases h
      exact ⟨rfl, ‹_›⟩
    · obtain ⟨⟨front', rest⟩, hrest, heq⟩ := Option.map_eq_some_iff.mp h
      cases heq
      obtain ⟨rfl, hc⟩ := ih hrest
      exact ⟨rfl, hc⟩

variable {A C : Type}

/-- The calls, with the time, what `Dial` returns, and the address at which the loop of `Put` or
`Remove` over the map comes to the connection. -/
inductive Call (A C : Type)
  | get (address : A) (now : Int) (dial : Option C)
  | put (conn : C) (address : A) (now : Int)
  | remove (conn : C) (address : A)
  | cleanup (now : Int)

namespace Pool

def empty : Pool A C := ⟨fun _ => [], fun _ => [], fun _ => 0⟩

def conns (p : Pool A C) (a : A) : List C := (p.connections a).map ConnectionWrapper.conn

/-- `Get`: the connection and the new slice of the address. -/
def get (cfg : Config) (p : Pool A C) (address : A) (now : Int) (dial : Option C) :
    Except PoolError (C × List (ConnectionWrapper C)) :=
  match first (fun c => !c.inUse) (p.connections address) with
  | some (front, c, back) =>
    .ok (c.conn, front ++ { c with inUse := true, lastUsed := now } :: back)
  | none =>
    if p.connections address ≠ [] ∧ cfg.maxConnectionsPerHost ≤ (p.connections address).length then
      .error .maxConnectionsReached
    else match dial with
      | none => .error .dial
      | some conn => .ok (conn, p.connections address ++ [⟨conn, true, now⟩])

/-- One round of `startCleanup`. -/
def cleanup (cfg : Config) (p : Pool A C) (now : Int) : Pool A C :=
  let isIdle c := !c.inUse && now - c.lastUsed > cfg.idleTimeout
  { p with
    connections := fun a => (p.connections a).filter fun c => !isIdle c
    closed := fun a => ((p.connections a).filter isIdle).map ConnectionWrapper.conn ++ p.closed a }

def borrowers : Option (A × Bool) → Nat
  | some (_, true) => 1
  | _ => 0

theorem borrowers_le_one (x : Option (A × Bool)) : borrowers x ≤ 1 := by
  unfold borrowers
  split <;> omega

/-- `status` says where a connection stands and whether it is in use; those that are closed have
none. -/
structure Exclusive (cfg : Config) (p : Pool A C) (status : C → Option (A × Bool)) : Prop where
  nodup : ∀ a, (p.conns a).Nodup
  pooled : ∀ a, ∀ c ∈ p.connections a, status c.conn = some (a, c.inUse)
  closed : ∀ a, ∀ conn ∈ p.closed a, status conn = none
  held : ∀ conn, p.held conn ≤ borrowers (status conn)
  limit : 1 ≤ cfg.maxConnectionsPerHost →
    ∀ a, ((p.connections a).length : Int) ≤ cfg.maxConnectionsPerHost

variable {cfg : Config} {p : Pool A C} {status : C → Option (A × Bool)} {a : A} {conn : C}
  {front back rest l : List (ConnectionWrapper C)} {c : ConnectionWrapper C} {now : Int} {n : Nat}

section

variable (h : p.Exclusive cfg status)
include h

theorem Exclusive.apart (hl : p.connections a = front ++ c :: back) :
    ((front ++ back).map ConnectionWrapper.conn).Nodup ∧
      (∀ w ∈ front ++ back, w ∈ p.connections a ∧ w.conn ≠ c.conn) ∧
      (∀ a', a' ≠ a → ∀ w ∈ p.connections a', w.conn ≠ c.conn) ∧ ∀ a', c.conn ∉ p.closed a' := by
  have hnodup := h.nodup a
  have hc := h.pooled a c (by simp [hl])
  rw [conns, hl, (perm_middle.map _).nodup_iff, map_cons, nodup_cons] at hnodup
  refine ⟨hnodup.2, fun w hw => ⟨by grind, fun heq => hnodup.1 (mem_map.mpr ⟨w, hw, heq⟩)⟩,
    fun a' hne w hw heq => hne ?_, fun a' hclosed => ?_⟩
  · rw [← heq, h.pooled a' w hw] at hc
    exact congrArg Prod.fst (Option.some.inj hc)
  · cases (h.closed a' c.conn hclosed).symm.trans hc

variable [DecidableEq C]

theorem Exclusive.cleanup (now : Int) : ∃ status', (p.cleanup cfg now).Exclusive cfg status' := by
  have hsub : ∀ a, (p.cleanup cfg now).connections a <+ p.connections a := fun _ => filter_sublist
  refine ⟨fun conn => (status conn).filter fun x => x.2 || conn ∈ (p.cleanup cfg now).conns x.1,
    fun a => (h.nodup a).sublist ((hsub a).map _), fun a c hc => ?_, fun a conn hconn => ?_,
    fun conn => ?_, fun hmax a => ?_⟩
  · rw [h.pooled a c ((hsub a).subset hc)]
    simp [show c.conn ∈ (p.cleanup cfg now).conns a from mem_map_of_mem hc]
  · obtain hconn | hconn := mem_append.mp hconn
    · obtain ⟨c, hc, rfl⟩ := mem_map.mp hconn
      obtain ⟨hin, hidle⟩ := mem_filter.mp hc
      have hout : c.conn ∉ (p.cleanup cfg now).conns a := by
        intro hmem
        obtain ⟨c', hc', heq⟩ := mem_map.mp hmem
        obtain rfl := inj_on_of_nodup_map (h.nodup a) ((hsub a).subset hc') hin heq
        exact absurd (mem_filter.mp hc').2 (by simp only [hidle]; decide)
      simp only [Bool.and_eq_true, Bool.not_eq_true'] at hidle
      simp [h.pooled a c hin, hout, hidle.1]
    · rw [h.closed a conn hconn]
      rfl
  · have hheld := h.held conn
    generalize status conn = x at hheld ⊢
    rcases x with _ | ⟨a, _ | _⟩
    · exact hheld
    · exact Nat.le_trans hheld (Nat.zero_le _)
    · exact hheld
  · have hlength := (hsub a).length_le
    have hlimit := h.limit hmax a
    omega

theorem Exclusive.giveUp (hpos : 0 < p.held conn) :
    p.held conn - 1 = 0 ∧
      Exclusive cfg { p with held := Function.update p.held conn (p.held conn - 1) } status := by
  have hheld := h.held conn
  have hle := borrowers_le_one (status conn)
  refine ⟨by omega, { h with held := fun conn' => ?_ }⟩
  have hold := h.held conn'
  grind

end

variable [DecidableEq C]

/-- `Put`: the new slice of the address. -/
def put (p : Pool A C) (conn : C) (address : A) (now : Int) :
    Except PoolError (List (ConnectionWrapper C)) :=
  match first (·.conn = conn) (p.connections address) with
  | none => .error .connectionNotFound
  | some (front, c, back) => .ok (front ++ { c with inUse := false, lastUsed := now } :: back)

/-- `Remove`: the new slice of the address, in which the last connection has the place of the one
that is removed. -/
def remove (p : Pool A C) (conn : C) (address : A) :
    Except PoolError (List (ConnectionWrapper C)) :=
  match first (·.conn = conn) (p.connections address) with
  | none => .error .connectionNotFound
  | some (front, _, back) => .ok (front ++ back.getLast?.toList ++ back.dropLast)

variable [DecidableEq A]

def step (cfg : Config) (p : Pool A C) : Call A C → Pool A C
  | .get address now dial => match p.get cfg address now dial with
    | .error _ => p
    | .ok (conn, conns) => { p with
      connections := Function.update p.connections address conns
      held := Function.update p.held conn (p.held conn + 1) }
  | .put conn address now => match p.put conn address now with
    | .error _ => { p with held := Function.update p.held conn (p.held conn - 1) }
    | .ok conns => { p with
      connections := Function.update p.connections address conns
      held := Function.update p.held conn (p.held conn - 1) }
  | .remove conn address => match p.remove conn address with
    | .error _ => { p with held := Function.update p.held conn (p.held conn - 1) }
    | .ok conns =>
      { connections := Function.update p.connections address conns
        closed := Function.update p.closed address (conn :: p.closed address)
        held := Function.update p.held conn (p.held conn - 1) }
  | .cleanup now => p.cleanup cfg now

/-- A borrower gives back or removes what it holds, and `Dial` returns a connection that does not
exist yet. -/
def Allowed (p : Pool A C) : Call A C → Prop
  | .get _ _ dial => ∀ conn ∈ dial, p.held conn = 0 ∧ ∀ a, conn ∉ p.closed a ∧ conn ∉ p.conns a
  | .put conn _ _ | .remove conn _ => 0 < p.held conn
  | .cleanup _ => True

namespace Exclusive

variable (h : p.Exclusive cfg status)
include h

/-- Only the connection `conn` changes; `mid` is what there is of it in the pool. -/
theorem change (mid : Option (ConnectionWrapper C)) {closed : A → List C}
    (hapart : (rest.map ConnectionWrapper.conn).Nodup ∧
      (∀ w ∈ rest, w ∈ p.connections a ∧ w.conn ≠ conn) ∧
      (∀ a', a' ≠ a → ∀ w ∈ p.connections a', w.conn ≠ conn) ∧ ∀ a', conn ∉ p.closed a')
    (hl : l ~ mid.toList ++ rest) (hmid : ∀ c ∈ mid, c.conn = conn)
    (hclosed : ∀ a', ∀ conn' ∈ closed a', conn' ∈ p.closed a' ∨ conn' = conn ∧ mid = none)
    (hheld : n ≤ borrowers (mid.map fun c => (a, c.inUse)))
    (hlimit : 1 ≤ cfg.maxConnectionsPerHost → (l.length : Int) ≤ cfg.maxConnectionsPerHost) :
    ∃ status', Exclusive cfg
      ⟨Function.update p.connections a l, closed, Function.update p.held conn n⟩ status' := by
  obtain ⟨hnodup, hrest, hother, hopen⟩ := hapart
  refine ⟨Function.update status conn (mid.map fun c => (a, c.inUse)),
    (Function.forall_update_iff p.connections fun _ l => (l.map ConnectionWrapper.conn).Nodup).mpr
      ⟨?_, fun a' _ => h.nodup a'⟩,
    (Function.forall_update_iff p.connections fun a' l => ∀ w ∈ l, Function.update status conn
      (mid.map fun c => (a, c.inUse)) w.conn = some (a', w.inUse)).mpr
      ⟨fun w hw => ?_, fun a' hne w hw => ?_⟩,
    fun a' conn' hconn' => ?_, fun conn' => ?_,
    fun hmax => (Function.forall_update_iff p.connections fun _ l =>
      (l.length : Int) ≤ cfg.maxConnectionsPerHost).mpr ⟨hlimit hmax, fun a' _ => h.limit hmax a'⟩⟩
  · rw [(hl.map _).nodup_iff]
    cases mid with
    | none => exact hnodup
    | some c =>
      refine nodup_cons.mpr ⟨fun hmem => ?_, hnodup⟩
      obtain ⟨w, hw, heq⟩ := mem_map.mp hmem
      exact (hrest w hw).2 (heq.trans (hmid c rfl))
  · obtain hw | hw := mem_append.mp (hl.mem_iff.mp hw)
    · have hw := Option.mem_toList.mp hw
      rw [hmid w hw, Function.update_self, hw]
      rfl
    · rw [Function.update_of_ne (hrest w hw).2, h.pooled a w (hrest w hw).1]
  · rw [Function.update_of_ne (hother a' hne w hw), h.pooled a' w hw]
  · have hold := h.closed a' conn'
    grind
  · have hold := h.held conn'
    simp only [Function.update_apply]
    grind

/-- The connection is taken from the pool, or given back. -/
theorem replace (hl : p.connections a = front ++ c :: back) {c' : ConnectionWrapper C}
    (hc' : c'.conn = c.conn) (hheld : n ≤ borrowers (some (a, c'.inUse))) :
    ∃ status', Exclusive cfg ⟨Function.update p.connections a (front ++ c' :: back), p.closed,
      Function.update p.held c.conn n⟩ status' := by
  refine h.change (some c') (h.apart hl) perm_middle (by simpa using hc') (fun _ _ => .inl) hheld
    fun hmax => ?_
  have hlimit := h.limit hmax a
  rw [hl] at hlimit
  simpa using hlimit

theorem get {dial : Option C} (hallowed : p.Allowed (.get a now dial))
    (hget : p.get cfg a now dial = .ok (conn, l)) :
    ∃ status', Exclusive cfg ⟨Function.update p.connections a l, p.closed,
      Function.update p.held conn (p.held conn + 1)⟩ status' := by
  unfold Pool.get at hget
  split at hget
  · rename_i front c back hfirst
    cases hget
    obtain ⟨hl, hc⟩ := first_eq_some hfirst
    have hheld := h.held c.conn
    rw [h.pooled a c (by simp [hl]), Bool.not_eq_true' .. |>.mp hc] at hheld
    exact h.replace hl rfl (Nat.succ_le_succ hheld)
  · split at hget
    · cases hget
    · rename_i hroom
      split at hget <;> cases hget
      obtain ⟨hzero, hfresh⟩ := hallowed conn rfl
      have hother : ∀ a, ∀ w ∈ p.connections a, w.conn ≠ conn := fun a w hw heq =>
        (hfresh a).2 (mem_map.mpr ⟨w, hw, heq⟩)
      refine h.change (some ⟨conn, true, now⟩) ⟨h.nodup a, fun w hw => ⟨hw, hother a w hw⟩,
        fun a' _ => hother a', fun a' => (hfresh a').1⟩ (perm_append_singleton _ _) (by simp)
        (fun _ _ => .inl) (by simp [hzero, borrowers]) fun hmax => ?_
      by_cases hempty : p.connections a = []
      · simpa [hempty] using hmax
      · have hlt := Int.not_le.mp (not_and.mp hroom hempty)
        rw [length_append, length_singleton]
        omega

theorem step {call : Call A C} (hallowed : p.Allowed call) :
    ∃ status', (p.step cfg call).Exclusive cfg status' := by
  cases call with
  | get a now dial =>
    rw [Pool.step]
    split
    · exact ⟨_, h⟩
    · exact h.get hallowed ‹_›
  | put conn a now =>
    obtain ⟨hzero, hgive⟩ := h.giveUp hallowed
    rw [Pool.step, put]
    cases hfirst : first (·.conn = conn) (p.connections a) with
    | none => exact ⟨_, hgive⟩
    | some x =>
      obtain ⟨front, c, back⟩ := x
      obtain ⟨hl, hc⟩ := first_eq_some hfirst
      obtain rfl := of_decide_eq_true hc
      exact h.replace hl rfl (Nat.le_of_eq hzero)
  | remove conn a =>
    obtain ⟨hzero, hgive⟩ := h.giveUp hallowed
    rw [Pool.step, remove]
    cases hfirst : first (·.conn = conn) (p.connections a) with
    | none => exact ⟨_, hgive⟩
    | some x =>
      obtain ⟨front, c, back⟩ := x
      obtain ⟨hl, hc⟩ := first_eq_some hfirst
      obtain rfl := of_decide_eq_true hc
      have hperm : front ++ back.getLast?.toList ++ back.dropLast ~ front ++ back := by
        rw [append_assoc]
        refine Perm.append_left front ?_
        obtain rfl | ⟨l, last, rfl⟩ := eq_nil_or_concat back
        · rfl
        · simpa using (perm_append_singleton last l).symm
      refine h.change none (h.apart hl) hperm nofun (fun a' conn' hconn' => ?_) (Nat.le_of_eq hzero)
        fun hmax => ?_
      · grind
      · have hlimit := h.limit hmax a
        rw [hl, length_append, length_cons] at hlimit
        rw [hperm.length_eq, length_append]
        omega
  | cleanup now => exact h.cleanup now

end Exclusive

end Pool

/-- In every use of the pool a connection has at most one borrower, what is held is not closed, and
an address has no more connections than allowed. -/
theorem pool_exclusive [DecidableEq A] [DecidableEq C] (cfg : Config) {calls : List (Call A C)}
    (h : Along (Pool.step cfg) Pool.Allowed .empty calls) :
    ∃ p, calls.foldl (Pool.step cfg) .empty = p ∧ (∀ conn, p.held conn ≤ 1) ∧
      (∀ conn, 0 < p.held conn → ∀ a, conn ∉ p.closed a) ∧
      (1 ≤ cfg.maxConnectionsPerHost →
        ∀ a, ((p.connections a).length : Int) ≤ cfg.maxConnectionsPerHost) := by
  have hempty : ∃ status, (Pool.empty : Pool A C).Exclusive cfg status :=
    ⟨fun _ => none, fun _ => nodup_nil, nofun, nofun, fun _ => Nat.le_refl _,
      fun hmax _ => Int.le_trans Int.one_nonneg hmax⟩
  obtain ⟨status, hp⟩ := along_induction (I := fun p => ∃ status, p.Exclusive cfg status)
    (fun ⟨_, hp⟩ => hp.step) hempty h
  refine ⟨_, rfl, fun conn => Nat.le_trans (hp.held conn) (Pool.borrowers_le_one _), ?_, hp.limit⟩
  intro conn hheld a hclosed
  have hle := hp.held conn
  rw [hp.closed a conn hclosed] at hle
  exact absurd hheld (Nat.not_lt.mpr hle)

def exampleCalls : List (Call Unit Nat) :=
  [.get () 0 (some 7), .put 7 () 1, .get () 2 none, .cleanup 9]

theorem pool_exclusive_twice :
    ∃ p, exampleCalls.foldl (Pool.step ⟨1, 5⟩) .empty = p ∧ ∀ conn, p.held conn ≤ 1 := by
  have hallowed : Along (Pool.step ⟨1, 5⟩) Pool.Allowed .empty exampleCalls := by
    simp [exampleCalls, Along, Pool.Allowed, Pool.empty, Pool.step, Pool.get, Pool.put, first,
      Pool.conns]
  obtain ⟨p, hp, hsingle, -⟩ := pool_exclusive ⟨1, 5⟩ hallowed
  exact ⟨p, hp, hsingle⟩

end Babuza.Connpool
