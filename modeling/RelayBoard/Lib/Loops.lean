import Mathlib.Data.List.Basic
import Mathlib.Data.List.FinRange

/-!
# Loops whose passes each own one index

A bounded loop runs one pass for every index in ascending order. When a pass
changes only what belongs to its own index, what the loop leaves at an index
is what that single pass would have left there. The view of an index is any
function of the loop's state which the other passes do not disturb.
-/

set_option autoImplicit false

namespace Lib.Loops

variable {ι σ β : Type*}

theorem foldl_frame (f : ι → σ → σ) (view : σ → β) (is : List ι)
    (hkeep : ∀ i ∈ is, ∀ s, view (f i s) = view s) (s : σ) :
    view (is.foldl (fun s i => f i s) s) = view s := by
  induction is generalizing s with
  | nil => rfl
  | cons i is ih =>
    rw [List.foldl_cons, ih (fun j hj => hkeep j (by simp [hj])), hkeep i (by simp)]

/-- One pass decides the view of its own index, wherever in the loop it runs. -/
theorem foldl_own (f : ι → σ → σ) (view : σ → β) (is : List ι) (hn : is.Nodup)
    (i : ι) (hi : i ∈ is) (hother : ∀ j, j ≠ i → ∀ s, view (f j s) = view s)
    (hown : ∀ s t, view s = view t → view (f i s) = view (f i t)) (s : σ) :
    view (is.foldl (fun s i => f i s) s) = view (f i s) := by
  induction is generalizing s with
  | nil => simp at hi
  | cons j is ih =>
    obtain ⟨hj, hn'⟩ := List.nodup_cons.mp hn
    rw [List.foldl_cons]
    rcases List.mem_cons.mp hi with rfl | hrest
    · exact foldl_frame f view is (fun k hk => hother k (fun h => hj (h ▸ hk))) _
    · rw [ih hn' hrest]
      exact hown _ _ (hother j (fun h => hj (h ▸ hrest)) s)

def forEach {n : ℕ} (f : Fin n → σ → σ) (s : σ) : σ :=
  (List.finRange n).foldl (fun s i => f i s) s

theorem forEach_frame {n : ℕ} (f : Fin n → σ → σ) (view : σ → β)
    (hkeep : ∀ i s, view (f i s) = view s) (s : σ) : view (forEach f s) = view s :=
  foldl_frame f view _ (fun i _ => hkeep i) s

theorem forEach_own {n : ℕ} (f : Fin n → σ → σ) (view : σ → β) (i : Fin n)
    (hother : ∀ j, j ≠ i → ∀ s, view (f j s) = view s)
    (hown : ∀ s t, view s = view t → view (f i s) = view (f i t)) (s : σ) :
    view (forEach f s) = view (f i s) :=
  foldl_own f view _ (List.nodup_finRange n) i (List.mem_finRange i) hother hown s

theorem forEach_keeps {n : ℕ} (f : Fin n → σ → σ) {P : σ → Prop}
    (hkeep : ∀ i s, P s → P (f i s)) {s : σ} (h : P s) : P (forEach f s) := by
  unfold forEach
  induction List.finRange n generalizing s with
  | nil => exact h
  | cons i is ih => exact ih (hkeep i s h)

theorem forEach_comm {τ : Type*} {n : ℕ} (f : Fin n → σ → σ) (g : Fin n → τ → τ)
    (e : σ → τ) (h : ∀ i s, e (f i s) = g i (e s)) (s : σ) :
    e (forEach f s) = forEach g (e s) := by
  unfold forEach
  induction List.finRange n generalizing s with
  | nil => rfl
  | cons i is ih => rw [List.foldl_cons, List.foldl_cons, ih, h]

theorem foldl_count (p : ι → Prop) [DecidablePred p] (is : List ι) (c : ℕ) :
    is.foldl (fun c i => if p i then c + 1 else c) c = c + (is.filter p).length := by
  induction is generalizing c with
  | nil => rfl
  | cons i is ih =>
    rw [List.foldl_cons, ih]
    by_cases hi : p i
    · rw [if_pos hi, List.filter_cons_of_pos (by simpa using hi), List.length_cons]
      omega
    · rw [if_neg hi, List.filter_cons_of_neg (by simpa using hi)]

theorem nodup_length_lt_two {is : List ι} (h : is.Nodup) :
    is.length < 2 ↔ ∀ i ∈ is, ∀ j ∈ is, i = j := by
  cases is with
  | nil => simp
  | cons a is =>
    cases is with
    | nil => simp
    | cons b is =>
      refine iff_of_false (by simp) (fun hone => ?_)
      have hab := hone a (by simp) b (by simp)
      simp [hab] at h

/-- A loop that counts finds less than two exactly if no two pass the test. -/
theorem forEach_count_lt_two {n : ℕ} (p : Fin n → Prop) [DecidablePred p] :
    forEach (fun i c => if p i then c + 1 else c) 0 < 2 ↔ ∀ i j, p i → p j → i = j := by
  rw [forEach, foldl_count, Nat.zero_add, nodup_length_lt_two ((List.nodup_finRange n).filter p)]
  simp only [List.mem_filter, List.mem_finRange, true_and, decide_eq_true_eq]
  exact ⟨fun h i j hi hj => h i hi j hj, fun h i hi j hj => h i j hi hj⟩

end Lib.Loops
