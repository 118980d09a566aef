import Mathlib.Data.List.Basic

/-!
# Runs of fallible steps

A component is a step function `σ → ι → Except ε σ`; `run` takes the inputs one after the other and
stops at the first error. `run_induction` is the rule for properties of whole runs: what each step
preserves holds after every successful run.
-/

namespace Babuza.Lib

open List

universe u

variable {ε σ ι : Type*} {α β : Type u}

theorem bind_eq_ok {x : Except ε α} {f : α → Except ε β} {b : β} :
    (x >>= f) = .ok b ↔ ∃ a, x = .ok a ∧ f a = .ok b := by
  cases x <;> simp [bind, Except.bind]

theorem ok_bind (a : α) (f : α → Except ε β) : ((Except.ok a : Except ε α) >>= f) = f a := rfl

theorem map_eq_ok {α β : Type*} {x : Except ε α} {f : α → β} {b : β} (h : x.map f = .ok b) :
    ∃ a, x = .ok a ∧ b = f a := by
  cases x with
  | error e => cases h
  | ok a => exact ⟨a, rfl, (Except.ok.inj h).symm⟩

theorem exists_eq_ok {α : Type*} {x : Except ε α} (h : x.isOk) : ∃ a, x = .ok a := by
  cases x with
  | error e => cases h
  | ok a => exact ⟨a, rfl⟩

theorem mapM_eq_ok {α β : Type} {ε : Type} {f : α → Except ε β} {g : α → β} {xs : List α}
    (h : ∀ x ∈ xs, f x = .ok (g x)) : xs.mapM f = .ok (xs.map g) := by
  induction xs with
  | nil => rfl
  | cons x xs ih =>
    rw [mapM_cons, h x mem_cons_self, ok_bind,
      ih (fun y hy => h y (mem_cons_of_mem x hy))]
    rfl

theorem exists_of_mapM_eq_ok {α β : Type} {ε : Type} {f : α → Except ε β} {xs : List α}
    {ys : List β} (h : xs.mapM f = .ok ys) {x : α} (hx : x ∈ xs) : ∃ y ∈ ys, f x = .ok y := by
  induction xs generalizing ys with
  | nil => cases hx
  | cons a xs ih =>
    rw [mapM_cons] at h
    obtain ⟨b, hb, h⟩ := bind_eq_ok.mp h
    obtain ⟨bs, hbs, h⟩ := bind_eq_ok.mp h
    cases h
    rcases mem_cons.mp hx with rfl | hx
    · exact ⟨b, mem_cons_self, hb⟩
    · obtain ⟨y, hy, hfx⟩ := ih hbs hx
      exact ⟨y, mem_cons_of_mem _ hy, hfx⟩

theorem exists_and_exists_iff {α β : Type*} {A : α → Prop} {B : α → β → Prop} {C : β → Prop} :
    (∃ a, A a ∧ ∃ b, B a b ∧ C b) ↔ ∃ b, (∃ a, A a ∧ B a b) ∧ C b := by
  grind

theorem forall_mem_concat {α : Type*} {P : α → Prop} {xs : List α} {a : α} :
    (∀ x ∈ xs ++ [a], P x) ↔ (∀ x ∈ xs, P x) ∧ P a := by
  simp [or_imp, forall_and]

instance decidableForallOk {α : Type*} {x : Except ε α} {P : α → Prop} [DecidablePred P] :
    Decidable (∀ a, x = .ok a → P a) :=
  match x with
  | .error _ => .isTrue nofun
  | .ok a => decidable_of_iff (P a) ⟨fun h _ heq => by cases heq; exact h, fun h => h a rfl⟩

/-- The state after the inputs, taken in order. -/
def run (step : σ → ι → Except ε σ) : σ → List ι → Except ε σ
  | s, [] => .ok s
  | s, i :: is =>
    match step s i with
    | .error e => .error e
    | .ok s' => run step s' is

variable {step : σ → ι → Except ε σ}

@[simp] theorem run_nil (s : σ) : run step s [] = .ok s := rfl

variable {is : List ι} {s t : σ}

theorem run_cons_eq_ok {i : ι} :
    run step s (i :: is) = .ok t ↔ ∃ s', step s i = .ok s' ∧ run step s' is = .ok t := by
  rw [run]
  cases step s i <;> simp

theorem run_append_eq_ok {js : List ι} :
    run step s (is ++ js) = .ok t ↔ ∃ s', run step s is = .ok s' ∧ run step s' js = .ok t := by
  induction is generalizing s with
  | nil => simp
  | cons i is ih =>
    simp only [cons_append, run_cons_eq_ok, ih, exists_and_exists_iff]

variable {I : σ → Prop}

theorem run_induction (hstep : ∀ {s i s'}, I s → step s i = .ok s' → I s') (hs : I s)
    (h : run step s is = .ok t) : I t := by
  induction is generalizing s with
  | nil =>
    cases h
    exact hs
  | cons i is ih =>
    obtain ⟨s', h₁, h₂⟩ := run_cons_eq_ok.mp h
    exact ih (hstep hs h₁) h₂

theorem run_cons_ok {s' : σ} {i : ι} (is : List ι) (h : step s i = .ok s') :
    run step s (i :: is) = run step s' is := by
  rw [run, h]

theorem run_cons_error {i : ι} {e : ε} (is : List ι) (h : step s i = .error e) :
    run step s (i :: is) = .error e := by
  rw [run, h]

theorem run_append_of_ok {s' : σ} (js : List ι) (h : run step s is = .ok s') :
    run step s (is ++ js) = run step s' js := by
  induction is generalizing s with
  | nil =>
    cases h
    rfl
  | cons i is ih =>
    obtain ⟨s₁, hstep, hrest⟩ := run_cons_eq_ok.mp h
    rw [cons_append, run_cons_ok _ hstep, ih hrest]

/-- A relation that the steps of two machines keep holds at the end of their runs. -/
theorem run_simulation {τ κ α : Type*} (step' : τ → κ → Except ε τ) {f : α → ι} (g : α → κ)
    {R : σ → τ → Prop} {xs : List α} {b : τ} (hR : R s b) (hrun : run step s (xs.map f) = .ok t)
    (hstep : ∀ pre x s₁ b₁ s₂, pre ++ [x] <+: xs → run step s (pre.map f) = .ok s₁ →
      run step' b (pre.map g) = .ok b₁ → R s₁ b₁ → step s₁ (f x) = .ok s₂ →
      ∃ b₂, step' b₁ (g x) = .ok b₂ ∧ R s₂ b₂) :
    ∃ b', run step' b (xs.map g) = .ok b' ∧ R t b' := by
  induction xs generalizing s b with
  | nil =>
    cases hrun
    exact ⟨b, rfl, hR⟩
  | cons x xs ih =>
    obtain ⟨s₁, hs₁, hrun⟩ := run_cons_eq_ok.mp hrun
    obtain ⟨b₁, hb₁, hR₁⟩ := hstep [] x s b s₁ (by simp) rfl rfl hR hs₁
    obtain ⟨b', hb', hR'⟩ := ih hR₁ hrun fun pre y s₂ b₂ s₃ hfront hs₂ hb₂ =>
      hstep (x :: pre) y s₂ b₂ s₃ (cons_prefix_cons.mpr ⟨rfl, hfront⟩)
        ((run_cons_ok _ hs₁).trans hs₂) ((run_cons_ok _ hb₁).trans hb₂)
    exact ⟨b', (run_cons_ok _ hb₁).trans hb', hR'⟩

theorem run_singleton (s : σ) (i : ι) : run step s [i] = step s i := by
  rw [run]
  cases step s i <;> rfl

/-- `P` holds of each input that is taken and the state before it. -/
def Throughout (step : σ → ι → Except ε σ) (P : σ → ι → Prop) : σ → List ι → Prop
  | _, [] => True
  | s, i :: is => P s i ∧ ∀ s', step s i = .ok s' → Throughout step P s' is

instance {step : σ → ι → Except ε σ} {P : σ → ι → Prop} [∀ s i, Decidable (P s i)] :
    (s : σ) → (is : List ι) → Decidable (Throughout step P s is)
  | _, [] => .isTrue trivial
  | s, i :: is =>
    have : DecidablePred fun s' => Throughout step P s' is :=
      fun s' => instDecidableThroughout s' is
    inferInstanceAs (Decidable (_ ∧ ∀ s', step s i = .ok s' → _))

variable {P Q : σ → ι → Prop}

theorem throughout_induction (hstep : ∀ {s i s'}, I s → P s i → step s i = .ok s' → I s') (hs : I s)
    (h : Throughout step P s is) (hrun : run step s is = .ok t) : I t := by
  induction is generalizing s with
  | nil =>
    cases hrun
    exact hs
  | cons i is ih =>
    obtain ⟨s', hs', hrest⟩ := run_cons_eq_ok.mp hrun
    exact ih (hstep hs h.1 hs') (h.2 s' hs') hrest

/-- Two conditions on the steps of a run say the same, when they do so in every state that meets an
invariant which the steps that satisfy them keep. -/
theorem throughout_iff (hiff : ∀ {s i}, i ∈ is → I s → (P s i ↔ Q s i))
    (hstep : ∀ {s i s'}, i ∈ is → I s → Q s i → step s i = .ok s' → I s') (hs : I s) :
    Throughout step P s is ↔ Throughout step Q s is := by
  induction is generalizing s with
  | nil => exact Iff.rfl
  | cons i is ih =>
    have ih {s'} := @ih s' (fun hj => hiff (mem_cons_of_mem i hj))
      (fun hj => hstep (mem_cons_of_mem i hj))
    constructor
    · rintro ⟨hP, hrest⟩
      have hQ := (hiff mem_cons_self hs).mp hP
      exact ⟨hQ, fun s' hs' => (ih (hstep mem_cons_self hs hQ hs')).mp (hrest s' hs')⟩
    · rintro ⟨hQ, hrest⟩
      exact ⟨(hiff mem_cons_self hs).mpr hQ,
        fun s' hs' => (ih (hstep mem_cons_self hs hQ hs')).mpr (hrest s' hs')⟩

theorem throughout_iff_forall :
    Throughout step P s is ↔
      ∀ pre i s', pre ++ [i] <+: is → run step s pre = .ok s' → P s' i := by
  induction is generalizing s with
  | nil =>
    refine iff_of_true trivial ?_
    intro pre i s' hfront
    exact absurd (prefix_nil.mp hfront) (by simp)
  | cons i is ih =>
    constructor
    · intro h pre j s' hfront hpre
      cases pre with
      | nil =>
        cases hpre
        obtain rfl : j = i := by simpa using hfront
        exact h.1
      | cons k pre =>
        obtain ⟨rfl, hrest⟩ := cons_prefix_cons.mp hfront
        obtain ⟨s₁, hstep, hpre₁⟩ := run_cons_eq_ok.mp hpre
        exact ih.mp (h.2 s₁ hstep) pre j s' hrest hpre₁
    · intro h
      refine ⟨h [] i s (by simp) rfl, fun s₁ hstep => ih.mpr fun pre j s' hfront hpre => ?_⟩
      exact h (i :: pre) j s' (cons_prefix_cons.mpr ⟨rfl, hfront⟩)
        ((run_cons_ok pre hstep).trans hpre)

theorem throughout_append {js : List ι} :
    Throughout step P s (is ++ js) ↔
      Throughout step P s is ∧ ∀ s', run step s is = .ok s' → Throughout step P s' js := by
  induction is generalizing s with
  | nil => simp [Throughout]
  | cons i is ih =>
    simp only [cons_append, Throughout, ih, run_cons_eq_ok, and_assoc]
    refine and_congr_right fun _ => ?_
    constructor
    · intro h
      refine ⟨fun s' hs' => (h s' hs').1, ?_⟩
      rintro t ⟨s', hs', ht⟩
      exact (h s' hs').2 t ht
    · intro h s' hs'
      exact ⟨h.1 s' hs', fun t ht => h.2 t ⟨s', hs', ht⟩⟩

theorem throughout_of_forall (h : ∀ i ∈ is, ∀ s, P s i) (s : σ) : Throughout step P s is := by
  induction is generalizing s with
  | nil => trivial
  | cons i is ih =>
    obtain ⟨hi, his⟩ := forall_mem_cons.mp h
    exact ⟨hi s, fun s' _ => ih his s'⟩

theorem forall_prefix_iff_throughout {Q : Except ε σ → Prop} (hQ : Q (.ok s)) :
    (∀ pre, pre <+: is → Q (run step s pre)) ↔ Throughout step (fun s i => Q (step s i)) s is := by
  induction is generalizing s with
  | nil => exact iff_of_true (fun pre hfront => prefix_nil.mp hfront ▸ hQ) trivial
  | cons i is ih =>
    constructor
    · intro h
      have hi := h [i] (by simp)
      rw [run_singleton] at hi
      refine ⟨hi, fun t hstep => (ih (hstep ▸ hi)).mp fun pre hfront => ?_⟩
      rw [← run_cons_ok pre hstep]
      exact h _ (cons_prefix_cons.mpr ⟨rfl, hfront⟩)
    · rintro ⟨hi, hrest⟩ pre hfront
      cases pre with
      | nil => exact hQ
      | cons k pre =>
        obtain ⟨rfl, htail⟩ := cons_prefix_cons.mp hfront
        cases hstep : step s k with
        | error e =>
          rwa [run_cons_error pre hstep, ← hstep]
        | ok t =>
          rw [run_cons_ok pre hstep]
          exact (ih (hstep ▸ hi)).mpr (hrest t hstep) pre htail

/-- A property of every outcome of a run is a condition on its steps, when each step keeps the
property exactly if it meets the condition. `D` is what is known of the inputs and `I` an
invariant. -/
theorem forall_prefix_run_iff {D : ι → Prop} {Q : Except ε σ → Prop}
    (hkeep : ∀ {s i s'}, D i → I s → step s i = .ok s' → I s')
    (hiff : ∀ {s i}, D i → I s → Q (.ok s) → (Q (step s i) ↔ P s i)) (hD : ∀ i ∈ is, D i) (hI : I s)
    (hQ : Q (.ok s)) :
    (∀ pre, pre <+: is → Q (run step s pre)) ↔
      ∀ pre i s', pre ++ [i] <+: is → run step s pre = .ok s' → P s' i := by
  rw [forall_prefix_iff_throughout hQ, ← throughout_iff_forall]
  refine throughout_iff (I := fun s => I s ∧ Q (.ok s)) (fun hi hs => hiff (hD _ hi) hs.1 hs.2)
    (fun hi hs hP hstep => ⟨hkeep (hD _ hi) hs.1 hstep, ?_⟩) ⟨hI, hQ⟩
  exact hstep ▸ (hiff (hD _ hi) hs.1 hs.2).mpr hP

/-- `J` holds in every state that a successful run reaches exactly if all its steps meet `P`, when
this is so for one step from a state with the invariant `I`. -/
theorem forall_reached_iff_throughout {J : σ → Prop}
    (hkeep : ∀ {s i s'}, I s → step s i = .ok s' → I s')
    (hiff : ∀ {s i s'}, I s → J s → step s i = .ok s' → (J s' ↔ P s i)) (hI : I s) (hJ : J s)
    (hrun : run step s is = .ok t) :
    (∀ pre s', pre <+: is → run step s pre = .ok s' → J s') ↔ Throughout step P s is := by
  induction is generalizing s with
  | nil =>
    refine iff_of_true (fun pre s' hfront hpre => ?_) trivial
    rw [prefix_nil.mp hfront] at hpre
    cases hpre
    exact hJ
  | cons i is ih =>
    obtain ⟨s₁, hstep, hrun₁⟩ := run_cons_eq_ok.mp hrun
    constructor
    · intro h
      have hJ₁ : J s₁ := h [i] s₁ (by simp) (by rw [run_singleton, hstep])
      refine ⟨(hiff hI hJ hstep).mp hJ₁, fun s' hs' => ?_⟩
      cases hstep.symm.trans hs'
      refine (ih (hkeep hI hstep) hJ₁ hrun₁).mp fun pre s' hfront hpre => ?_
      exact h (i :: pre) s' (cons_prefix_cons.mpr ⟨rfl, hfront⟩)
        ((run_cons_ok pre hstep).trans hpre)
    · rintro ⟨hP, hrest⟩ pre s' hfront hpre
      cases pre with
      | nil =>
        cases hpre
        exact hJ
      | cons k pre =>
        obtain ⟨rfl, htail⟩ := cons_prefix_cons.mp hfront
        rw [run_cons_ok pre hstep] at hpre
        exact (ih (hkeep hI hstep) ((hiff hI hJ hstep).mpr hP) hrun₁).mpr (hrest s₁ hstep) pre s'
          htail hpre

/-- `P` holds of each input and the state before it. -/
def Along (next : σ → ι → σ) (P : σ → ι → Prop) : σ → List ι → Prop
  | _, [] => True
  | s, i :: is => P s i ∧ Along next P (next s i) is

instance {next : σ → ι → σ} {P : σ → ι → Prop} [∀ s i, Decidable (P s i)] :
    (s : σ) → (is : List ι) → Decidable (Along next P s is)
  | _, [] => .isTrue trivial
  | s, i :: is =>
    have : Decidable (Along next P (next s i) is) := instDecidableAlong _ is
    inferInstanceAs (Decidable (_ ∧ _))

variable {next : σ → ι → σ}

theorem along_induction (hstep : ∀ {s i}, I s → P s i → I (next s i)) (hs : I s)
    (h : Along next P s is) : I (is.foldl next s) := by
  induction is generalizing s with
  | nil => exact hs
  | cons i is ih => exact ih (hstep hs h.1) h.2

end Babuza.Lib
