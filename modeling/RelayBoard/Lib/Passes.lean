import Mathlib.Data.Nat.Basic
import Mathlib.Logic.Relation

/-!
# Loops without a bound

A loop is what one pass of it does: to fail, to leave the loop with a result or
to go on to the next pass. The loop runs for as many passes as it is allowed and
has no result where a pass fails or where more would be needed. A measure that
every pass lowers bounds their number.
-/

set_option autoImplicit false

namespace Lib.Passes

variable {σ ρ : Type*}

inductive Pass (σ ρ : Type*) where
  | again (s : σ)
  | leave (r : ρ)

def loop (pass : σ → Option (Pass σ ρ)) : ℕ → σ → Option ρ
  | 0, _ => none
  | fuel + 1, s =>
    match pass s with
    | none => none
    | some (.again t) => loop pass fuel t
    | some (.leave r) => some r

/-- The states in which a pass begins. -/
def Reaches (pass : σ → Option (Pass σ ρ)) : σ → σ → Prop :=
  Relation.ReflTransGen fun s t => pass s = some (.again t)

/-- The pass keeps the invariant and lowers the measure, or leaves with a
result that is as wanted. -/
def Advances (I : σ → Prop) (μ : σ → ℕ) (Q : ρ → Prop) (s : σ) (o : Option (Pass σ ρ)) : Prop :=
  (∃ t, o = some (.again t) ∧ I t ∧ μ t < μ s) ∨ ∃ r, o = some (.leave r) ∧ Q r

variable {pass : σ → Option (Pass σ ρ)} {s t : σ} {r : ρ} {fuel : ℕ}

theorem loop_again (h : pass s = some (.again t)) (fuel : ℕ) :
    loop pass (fuel + 1) s = loop pass fuel t := by
  rw [loop, h]

theorem loop_leave (h : pass s = some (.leave r)) (fuel : ℕ) :
    loop pass (fuel + 1) s = some r := by
  rw [loop, h]

theorem loop_more (h : loop pass fuel s = some r) {more : ℕ} (hmore : fuel ≤ more) :
    loop pass more s = some r := by
  induction fuel generalizing s more with
  | zero => cases h
  | succ fuel ih =>
    obtain ⟨more, rfl⟩ := Nat.exists_eq_add_of_le' (Nat.lt_of_lt_of_le (Nat.succ_pos fuel) hmore)
    rw [loop] at h ⊢
    cases hpass : pass s with
    | none => simp [hpass] at h
    | some o =>
      rw [hpass] at h
      cases o with
      | again t => exact ih h (Nat.le_of_succ_le_succ hmore)
      | leave r => exact h

variable {I : σ → Prop} {μ : σ → ℕ} {Q : ρ → Prop}

/-- A loop whose passes all advance ends, in no more passes than the measure
allows. -/
theorem loop_spec (hpass : ∀ s, I s → Advances I μ Q s (pass s)) (h : I s) (hfuel : μ s < fuel) :
    ∃ r, loop pass fuel s = some r ∧ Q r := by
  induction fuel generalizing s with
  | zero => exact absurd hfuel (Nat.not_lt_zero _)
  | succ fuel ih =>
    rcases hpass s h with ⟨t, ht, hI, hlower⟩ | ⟨r, hr, hQ⟩
    · rw [loop_again ht]
      exact ih hI (by omega)
    · exact ⟨r, loop_leave hr fuel, hQ⟩

/-- The result does not depend on how many passes are allowed beyond those. -/
theorem loop_total (hpass : ∀ s, I s → Advances I μ Q s (pass s)) (h : I s) :
    ∃ r, (∀ fuel, μ s < fuel → loop pass fuel s = some r) ∧ Q r := by
  obtain ⟨r, hr, hQ⟩ := loop_spec hpass h (Nat.lt_succ_self (μ s))
  exact ⟨r, fun fuel hfuel => loop_more hr hfuel, hQ⟩

theorem reaches_invariant (hpass : ∀ s, I s → Advances I μ Q s (pass s)) (h : I s)
    (hreach : Reaches pass s t) : I t := by
  induction hreach with
  | refl => exact h
  | tail _ hstep ih =>
    rcases hpass _ ih with ⟨u, hu, hI, -⟩ | ⟨r, hr, -⟩
    · rw [hu] at hstep
      cases hstep
      exact hI
    · rw [hr] at hstep
      cases hstep

/-- What advances under an invariant does so in every pass of a run. -/
theorem reaches_advances (hpass : ∀ s, I s → Advances I μ Q s (pass s)) (h : I s)
    (hreach : Reaches pass s t) : Advances (fun _ => True) μ (fun _ => True) t (pass t) := by
  rcases hpass t (reaches_invariant hpass h hreach) with ⟨u, hu, -, hlower⟩ | ⟨r, hr, -⟩
  · exact Or.inl ⟨u, hu, trivial, hlower⟩
  · exact Or.inr ⟨r, hr, trivial⟩

end Lib.Passes
