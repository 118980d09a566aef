import Babuza.Lib.Bytes
import Babuza.Lib.Keyed
import Mathlib.Data.List.Lex
import Mathlib.Data.List.Sort

/-!
# Ordered key-value stores

A store is a finite map; `scan` iterates over a part of its keys in key order. A scan is known once
its pairs are known: any list with strictly increasing keys and the right members is the scan
(`scan_eq`).

The second part is the order of byte strings as keys. Big-endian numbers of one width are ordered
like the numbers, and a common front does not matter.
-/

namespace Babuza.Lib

open List

/-! ## Scans -/

section Scan

variable {K V R : Type} [LinearOrder R]

/-- The pairs whose key satisfies `p`, in the order of `rank`. -/
def scan (rank : K → R) (s : AList fun _ : K => V) (p : K → Bool) : List (K × V) :=
  ((s.entries.map fun x => (x.1, x.2)).filter fun x => p x.1).insertionSort
    fun a b => rank a.1 ≤ rank b.1

theorem entries_nodup (s : AList fun _ : K => V) : (s.entries.map fun x => (x.1, x.2)).Nodup := by
  refine s.nodupKeys.nodup.map ?_
  rintro ⟨k, v⟩ ⟨k', v'⟩ heq
  cases heq
  rfl

variable {rank : K → R}

theorem scan_pairwise (hrank : Function.Injective rank) (s : AList fun _ : K => V) (p : K → Bool) :
    (scan rank s p).Pairwise fun a b => rank a.1 < rank b.1 := by
  have : Std.Total fun a b : K × V => rank a.1 ≤ rank b.1 := ⟨fun a b => le_total _ _⟩
  have : IsTrans (K × V) fun a b => rank a.1 ≤ rank b.1 := ⟨fun _ _ _ => le_trans⟩
  have hle : (scan rank s p).Pairwise fun a b => rank a.1 ≤ rank b.1 :=
    pairwise_insertionSort _ _
  have hkeys : ((s.entries.map fun x => (x.1, x.2)).filter fun x => p x.1).Pairwise
      fun a b => rank a.1 ≠ rank b.1 := by
    refine List.Pairwise.filter _ (pairwise_map.mpr ?_)
    exact (pairwise_map.mp s.nodupKeys).imp fun hne heq => hne (hrank heq)
  have hne : (scan rank s p).Pairwise fun a b => rank a.1 ≠ rank b.1 :=
    ((perm_insertionSort _ _).pairwise_iff fun h => h.symm).mpr hkeys
  exact (hle.and hne).imp fun h => lt_of_le_of_ne h.1 h.2

variable [DecidableEq K]

variable {s : AList fun _ : K => V}

theorem mem_entries_iff {k : K} {v : V} :
    (k, v) ∈ s.entries.map (fun x => (x.1, x.2)) ↔ s.lookup k = some v := by
  rw [← Option.mem_def, AList.mem_lookup_iff, mem_map]
  grind

variable {p : K → Bool}

theorem scan_eq {pairs : List (K × V)} (hsorted : pairs.Pairwise fun a b => rank a.1 < rank b.1)
    (hmem : ∀ k v, (k, v) ∈ pairs ↔ s.lookup k = some v ∧ p k) : scan rank s p = pairs := by
  have hnodup : pairs.Nodup := by
    refine hsorted.imp ?_
    rintro a b hlt rfl
    exact lt_irrefl _ hlt
  have hperm : (scan rank s p).Perm pairs := by
    refine (perm_insertionSort _ _).trans
      ((perm_ext_iff_of_nodup ((entries_nodup s).filter _) hnodup).mpr ?_)
    rintro ⟨k, v⟩
    rw [mem_filter, mem_entries_iff, hmem]
  have : Std.Total fun a b : K × V => rank a.1 ≤ rank b.1 := ⟨fun a b => le_total _ _⟩
  have : IsTrans (K × V) fun a b => rank a.1 ≤ rank b.1 := ⟨fun _ _ _ => le_trans⟩
  refine hperm.eq_of_pairwise ?_ (pairwise_insertionSort _ _) (hsorted.imp le_of_lt)
  -- two pairs of one rank are one pair, since the ranks of `pairs` increase
  intro a b ha hb hab hba
  have : Std.Symm fun a b : K × V => rank a.1 ≠ rank b.1 := ⟨fun _ _ h => h.symm⟩
  by_contra hne
  exact (hsorted.imp ne_of_lt).forall (hperm.mem_iff.mp ha) hb hne (le_antisymm hab hba)

theorem mem_scan {k : K} {v : V} : (k, v) ∈ scan rank s p ↔ s.lookup k = some v ∧ p k := by
  unfold scan
  rw [mem_insertionSort, mem_filter, mem_entries_iff]

theorem scan_congr (hrank : Function.Injective rank) {s' : AList fun _ : K => V}
    (h : ∀ k, p k → s.lookup k = s'.lookup k) : scan rank s p = scan rank s' p := by
  refine scan_eq (scan_pairwise hrank s' p) fun k v => ?_
  rw [mem_scan]
  refine and_congr_left fun hk => ?_
  rw [h k hk]

def eraseKeys (s : AList fun _ : K => V) (keys : List K) : AList fun _ : K => V :=
  keys.foldl (fun s k => s.erase k) s

theorem lookup_eraseKeys_eq_some {keys : List K} {k : K} {v : V} :
    (eraseKeys s keys).lookup k = some v ↔ s.lookup k = some v ∧ k ∉ keys := by
  rw [eraseKeys, lookup_foldl_erase]
  by_cases hk : k ∈ keys <;> simp [hk]

end Scan

/-! ## Byte strings as keys -/

/-- The order of `bytes.Compare`. -/
def keyRank (key : Bytes) : List Nat := key.map UInt8.toNat

theorem keyRank_append (a b : Bytes) : keyRank (a ++ b) = keyRank a ++ keyRank b :=
  map_append

variable {front a b : List Nat}

theorem append_lt_append_left (h : a < b) : front ++ a < front ++ b := by
  induction front with
  | nil => exact h
  | cons x front ih => exact cons_lt_cons_iff.mpr (.inr ⟨rfl, ih⟩)

theorem le_append_right (a b : List Nat) : a ≤ a ++ b := by
  refine le_of_not_gt ?_
  induction a with
  | nil => exact not_lt_nil _
  | cons x a ih =>
    rw [cons_append, cons_lt_cons_iff]
    rintro (hlt | ⟨-, hlt⟩)
    · exact lt_irrefl _ hlt
    · exact ih hlt

theorem append_lt_append_left_iff : front ++ a < front ++ b ↔ a < b := by
  refine ⟨fun h => ?_, append_lt_append_left⟩
  by_contra hge
  rcases lt_or_eq_of_le (not_lt.mp hge) with hlt | rfl
  · exact absurd h (append_lt_append_left hlt).not_gt
  · exact lt_irrefl _ h

theorem append_lt_append_of_lt {c d : List Nat} (hlen : a.length = b.length) (h : a < b) :
    a ++ c < b ++ d := by
  induction a generalizing b with
  | nil =>
    rw [length_nil] at hlen
    rw [List.length_eq_zero_iff.mp hlen.symm] at h
    exact absurd h (not_lt_nil _)
  | cons x a ih =>
    cases b with
    | nil => exact absurd h (not_lt_nil _)
    | cons y b =>
      rcases cons_lt_cons_iff.mp h with hlt | ⟨rfl, hlt⟩
      · exact cons_lt_cons_iff.mpr (.inl hlt)
      · exact cons_lt_cons_iff.mpr (.inr ⟨rfl, ih (Nat.succ_inj.mp hlen) hlt⟩)

theorem keyRank_injective : Function.Injective keyRank :=
  map_injective_iff.mpr fun _ _ => UInt8.toNat_inj.mp

theorem prefix_of_le_of_lt {front key rest : Bytes} (hle : keyRank front ≤ keyRank key)
    (hlt : keyRank key < keyRank (front ++ rest)) : front <+: key := by
  induction front generalizing key with
  | nil => exact List.nil_prefix
  | cons b front ih =>
    cases key with
    | nil => exact absurd (nil_lt_cons _ _) hle.not_gt
    | cons b' key =>
      have hb : b = b' := by
        apply UInt8.toNat_inj.mp
        apply le_antisymm
        · by_contra hgt
          exact absurd (cons_lt_cons_iff.mpr (.inl (not_le.mp hgt))) hle.not_gt
        · by_contra hgt
          exact absurd (cons_lt_cons_iff.mpr (.inl (not_le.mp hgt))) hlt.not_gt
      subst hb
      refine (prefix_cons_inj b).mpr (ih ?_ ?_)
      · by_contra hgt
        exact absurd (cons_lt_cons_iff.mpr (.inr ⟨rfl, not_le.mp hgt⟩)) hle.not_gt
      · rcases cons_lt_cons_iff.mp hlt with hlt | ⟨-, hlt⟩
        · exact absurd hlt (lt_irrefl _)
        · exact hlt

theorem beBytes_succ (width n : Nat) :
    beBytes (width + 1) n = beBytes width (n / 256) ++ [UInt8.ofNat n] := by
  rw [beBytes, leBytes, reverse_cons, beBytes]

theorem beBytes_cons (width n : Nat) :
    beBytes (width + 1) n = UInt8.ofNat (n / 256 ^ width) :: beBytes width n := by
  induction width generalizing n with
  | zero =>
    rw [Nat.pow_zero, Nat.div_one]
    rfl
  | succ width ih =>
    rw [beBytes_succ, ih, beBytes_succ width n, Nat.div_div_eq_div_mul, Nat.pow_succ',
      cons_append]

theorem keyRank_beBytes_lt {width m n : Nat} (hn : n < 256 ^ width) (h : m < n) :
    keyRank (beBytes width m) < keyRank (beBytes width n) := by
  induction width generalizing m n with
  | zero =>
    rw [Nat.pow_zero] at hn
    omega
  | succ width ih =>
    rw [beBytes_succ, beBytes_succ, keyRank_append, keyRank_append]
    have hq : n / 256 < 256 ^ width := by
      rw [Nat.pow_succ] at hn
      omega
    rcases Nat.lt_or_ge (m / 256) (n / 256) with hlt | hge
    · refine append_lt_append_of_lt ?_ (ih hq hlt)
      simp [keyRank]
    · have heq : m / 256 = n / 256 := by omega
      rw [heq]
      refine append_lt_append_left ?_
      simp only [keyRank, map_cons, map_nil, UInt8.toNat_ofNat']
      exact cons_lt_cons_iff.mpr (.inl (by omega))

end Babuza.Lib
