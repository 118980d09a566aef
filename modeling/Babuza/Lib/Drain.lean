import Babuza.Lib.Run

/-!
# Reading a source to its end

`drain` calls a decoder until it reports an error, and returns the values with that error. What a
source delivers before it stops is a path of the decoder (`Delivers`), so a round trip is shown by
following the writer along that path.
-/

namespace Babuza.Lib

variable {σ α ε : Type} {decode : σ → Except ε (α × σ)}

/-- The values in front of the first error. -/
def drain (decode : σ → Except ε (α × σ)) : (fuel : Nat) → σ → List α × Option ε
  | 0, _ => ([], none)
  | fuel + 1, s =>
    match decode s with
    | .error e => ([], some e)
    | .ok (a, s) =>
      let (as, e) := drain decode fuel s
      (a :: as, e)

/-- The source `s` delivers the values and is `t` behind them. -/
inductive Delivers (decode : σ → Except ε (α × σ)) : σ → List α → σ → Prop
  | nil (s : σ) : Delivers decode s [] s
  | cons {s s' t : σ} {a : α} {as : List α} : decode s = .ok (a, s') → Delivers decode s' as t →
      Delivers decode s (a :: as) t

theorem drain_of_delivers {s t : σ} {as : List α} {e : ε} {fuel : Nat}
    (h : Delivers decode s as t) (hend : decode t = .error e) (hfuel : as.length < fuel) :
    drain decode fuel s = (as, some e) := by
  obtain ⟨fuel, rfl⟩ : ∃ n, fuel = n + 1 := ⟨fuel - 1, by omega⟩
  induction h generalizing fuel with
  | nil s => simp only [drain, hend]
  | cons hstep _ ih =>
    rw [List.length_cons] at hfuel
    obtain ⟨fuel, rfl⟩ : ∃ n, fuel = n + 1 := ⟨fuel - 1, by omega⟩
    rw [drain, hstep]
    simp only [ih hend fuel (by omega)]

end Babuza.Lib
