import RelayBoard.Lib.Journal

/-!
# Traces that keep a rule

A record is kept along a trace of events, and a rule says of each event
whether it may follow what the record holds by then. A run whose steps are
linked to the record by an invariant, and whose events each follow the rule,
leaves a trace that keeps it.
-/

set_option autoImplicit false

namespace Lib.Traces
open Runs Journal

variable {ρ ε σ ι : Type*}

def read (note : ρ → ε → ρ) (r : ρ) (es : List ε) : ρ := es.foldl note r

def Follows (note : ρ → ε → ρ) (rule : ρ → ε → Prop) : ρ → List ε → Prop
  | _, [] => True
  | r, e :: es => rule r e ∧ Follows note rule (note r e) es

variable {note : ρ → ε → ρ} {rule : ρ → ε → Prop}

@[simp] theorem read_nil (r : ρ) : read note r [] = r := rfl

@[simp] theorem read_cons (r : ρ) (e : ε) (es : List ε) :
    read note r (e :: es) = read note (note r e) es := rfl

theorem read_append (r : ρ) (xs ys : List ε) :
    read note r (xs ++ ys) = read note (read note r xs) ys := List.foldl_append

@[simp] theorem follows_nil (r : ρ) : Follows note rule r [] ↔ True := Iff.rfl

@[simp] theorem follows_cons (r : ρ) (e : ε) (es : List ε) :
    Follows note rule r (e :: es) ↔ rule r e ∧ Follows note rule (note r e) es := Iff.rfl

theorem follows_append (r : ρ) (xs ys : List ε) : Follows note rule r (xs ++ ys) ↔
    Follows note rule r xs ∧ Follows note rule (read note r xs) ys := by
  induction xs generalizing r with
  | nil => simp
  | cons x xs ih => simp [ih, and_assoc]

/-- Every event follows the rule after what came before it. -/
theorem Follows.at {r : ρ} {es before after : List ε} {e : ε} (h : Follows note rule r es)
    (hes : es = before ++ e :: after) : rule (read note r before) e := by
  rw [hes, follows_append, follows_cons] at h
  exact h.2.1

theorem Follows.before {r : ρ} {es before after : List ε} (h : Follows note rule r es)
    (hes : es = before ++ after) : Follows note rule r before := by
  rw [hes, follows_append] at h
  exact h.1

theorem Follows.after {r : ρ} {es before after : List ε} (h : Follows note rule r es)
    (hes : es = before ++ after) : Follows note rule (read note r before) after := by
  rw [hes, follows_append] at h
  exact h.2

/-- The record of a run and the rule along its trace. `P` is what a step has to
meet in the state and with the record it starts from. -/
theorem run_follows (step : σ → ι → σ) (emit : σ → ι → List ε) {I : σ → ρ → Prop}
    {P : σ → ρ → ι → Prop} (s : σ) (r : ρ) (hstart : I s r)
    (hstep : ∀ t q i, I t q → P t q i →
      Follows note rule q (emit t i) ∧ I (step t i) (read note q (emit t i)))
    (is : List ι)
    (hP : ∀ e past, e :: past <:+ history step s is → P e.1 (read note r (journal emit past)) e.2) :
    Follows note rule r (journal emit (history step s is)) ∧
      I (run step s is) (read note r (journal emit (history step s is))) := by
  refine run_induction_past step
    (I := fun t past => Follows note rule r (journal emit past) ∧
      I t (read note r (journal emit past)))
    (P := fun t past i => P t (read note r (journal emit past)) i) s ⟨trivial, hstart⟩ ?_ is hP
  intro t past i hprev hp
  have hnext := hstep t _ i hprev.2 hp
  rw [journal_cons, follows_append, read_append]
  exact ⟨⟨hprev.1, hnext.1⟩, hnext.2⟩

end Lib.Traces
