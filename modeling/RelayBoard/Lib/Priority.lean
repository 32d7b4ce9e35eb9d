import Mathlib.Algebra.GroupWithZero.Nat
import Mathlib.Data.Finset.Card
import Mathlib.Data.Fintype.Basic
import Mathlib.Data.List.FinRange
import RelayBoard.Lib.Runs

/-!
# Service in a fixed order

In each round the lowest index that asks is served, and only that one. An index
waits through a round for each request of a lower index, so it is served as
soon as the rounds outnumber the requests below it, and no sooner.
-/

set_option autoImplicit false

namespace Lib.Priority
open Lib.Runs

variable {n : ℕ} {σ ι : Type*}

def first (due : Fin n → Bool) : Option (Fin n) := (List.finRange n).find? due

def served (due : Fin n → Bool) : Fin n → Bool :=
  match first due with
  | none => due
  | some k => Function.update due k false

def below (i : Fin n) (due : Fin n → Bool) : ℕ :=
  (Finset.univ.filter fun j => j < i ∧ due j = true).card

def fallen (i : Fin n) (due due' : Fin n → Bool) : ℕ :=
  (Finset.univ.filter fun j => j < i ∧ due j = false ∧ due' j = true).card

section Order

variable {due due' : Fin n → Bool} {i k : Fin n}

theorem first_eq_some_iff :
    first due = some k ↔ due k = true ∧ ∀ j, j < k → due j = false := by
  rw [first, List.find?_eq_some_iff_getElem]
  simp only [List.getElem_finRange, Bool.not_eq_true']
  constructor
  · rintro ⟨hk, m, hm, rfl, hlow⟩
    refine ⟨hk, fun j hj => ?_⟩
    simpa using hlow j.val (by simpa [Fin.lt_def] using hj)
  · rintro ⟨hk, hlow⟩
    refine ⟨hk, k.val, by simp, by simp, fun m hm => ?_⟩
    exact hlow _ (by simpa [Fin.lt_def] using hm)

theorem first_ne_none (hi : due i = true) : first due ≠ none := by
  intro h
  rw [first, List.find?_eq_none] at h
  exact h i (List.mem_finRange i) hi

theorem served_none (h : first due = none) : served due = due := by
  rw [served, h]

theorem served_some (h : first due = some k) : served due = Function.update due k false := by
  rw [served, h]

theorem below_eq_zero_iff : below i due = 0 ↔ ∀ j, j < i → due j = false := by
  rw [below, Finset.card_eq_zero, Finset.filter_eq_empty_iff]
  simp

theorem below_served (hk : due k = true) (hki : k < i) :
    below i (Function.update due k false) + 1 = below i due := by
  have hmem : k ∈ Finset.univ.filter fun j => j < i ∧ due j = true := by simp [hk, hki]
  rw [below, below, ← Finset.card_erase_add_one hmem]
  congr 2
  ext j
  by_cases hj : j = k
  · simp [hj]
  · simp [hj]

theorem below_grown (h : ∀ j, due j = true → due' j = true) :
    below i due' = below i due + fallen i due due' := by
  rw [below, below, fallen, ← Finset.card_union_of_disjoint]
  · congr 1
    ext j
    have hj := h j
    cases hd : due j <;> cases hd' : due' j <;> simp_all
  · rw [Finset.disjoint_filter]
    rintro j - ⟨-, hd⟩ ⟨-, hd', -⟩
    rw [hd] at hd'
    cases hd'

theorem served_other (hi : due i = true) (hne : first due ≠ some i) : served due i = true := by
  cases hk : first due with
  | none => rw [served_none hk, hi]
  | some k =>
    have hik : i ≠ k := by
      rintro rfl
      exact hne hk
    rw [served_some hk, Function.update_of_ne hik, hi]

/-- A round that does not serve an index which asks serves a lower one. -/
theorem below_served_other (hi : due i = true) (hne : first due ≠ some i) :
    below i (served due) + 1 = below i due := by
  cases hk : first due with
  | none => exact absurd hk (first_ne_none hi)
  | some k =>
    rw [served_some hk]
    obtain ⟨hdue, hlow⟩ := first_eq_some_iff.mp hk
    have hle : k ≤ i := by
      by_contra hlt
      rw [hlow i (not_le.mp hlt)] at hi
      cases hi
    have hki : k ≠ i := by
      rintro rfl
      exact hne hk
    exact below_served hdue (lt_of_le_of_ne hle hki)

end Order

/-- A machine with a request for each index. An input may add requests; if it
is a round, the lowest is then served. -/
structure Server (σ ι : Type*) (n : ℕ) where
  step : σ → ι → σ
  due : σ → Fin n → Bool
  offered : σ → ι → Fin n → Bool
  round : ι → Bool
  grows : ∀ s x j, due s j = true → offered s x j = true
  serve : ∀ s x, due (step s x) = if round x = true then served (offered s x) else offered s x

namespace Server

variable (S : Server σ ι n)

def Serves (i : Fin n) (s : σ) (x : ι) : Prop :=
  S.round x = true ∧ first (S.offered s x) = some i

def rounds (is : List ι) : ℕ := is.countP S.round

/-- The requests below `i` that there are at the start or come in the run. -/
def demand (i : Fin n) (s : σ) (is : List ι) : ℕ :=
  below i (S.due s) +
    ((history S.step s is).map fun e => fallen i (S.due e.1) (S.offered e.1 e.2)).sum

variable {S} {i : Fin n} {s : σ} {is : List ι}

theorem demand_snoc (is : List ι) (x : ι) : S.demand i s (is ++ [x]) = S.demand i s is +
    fallen i (S.due (run S.step s is)) (S.offered (run S.step s is) x) := by
  rw [demand, demand, history_snoc, List.map_cons, List.sum_cons, Nat.add_left_comm, Nat.add_comm]

theorem rounds_snoc (is : List ι) (x : ι) :
    S.rounds (is ++ [x]) = S.rounds is + if S.round x = true then 1 else 0 := by
  rw [rounds, rounds, List.countP_append, List.countP_singleton]

/-- While an index waits, each round serves a lower request. -/
theorem waiting (is : List ι) (hi : S.due s i = true)
    (hno : ∀ e ∈ history S.step s is, ¬S.Serves i e.1 e.2) :
    S.due (run S.step s is) i = true ∧
      S.rounds is + below i (S.due (run S.step s is)) = S.demand i s is := by
  induction is using List.reverseRecOn with
  | nil => exact ⟨hi, by simp [rounds, demand, run]⟩
  | append_singleton is x ih =>
    rw [history_snoc] at hno
    obtain ⟨hdue, hcount⟩ := ih fun e he => hno e (List.mem_cons_of_mem _ he)
    have hnow := hno _ (List.mem_cons_self ..)
    have hoffered := S.grows _ x i hdue
    have hgrown := below_grown (i := i) (S.grows (run S.step s is) x)
    rw [run_snoc, S.serve, demand_snoc, rounds_snoc]
    by_cases hround : S.round x = true
    · have hne : first (S.offered (run S.step s is) x) ≠ some i := fun h => hnow ⟨hround, h⟩
      have hless := below_served_other hoffered hne
      rw [if_pos hround, if_pos hround]
      exact ⟨served_other hoffered hne, by omega⟩
    · rw [if_neg hround, if_neg hround]
      exact ⟨hoffered, by omega⟩

/-- An index that asks is served in a run exactly if in some part of it the
rounds outnumber the requests below. -/
theorem serves_iff (is : List ι) (hi : S.due s i = true) :
    (∃ e ∈ history S.step s is, S.Serves i e.1 e.2) ↔
      ∃ js, js <+: is ∧ S.demand i s js < S.rounds js := by
  constructor
  · intro h
    induction is using List.reverseRecOn with
    | nil =>
      obtain ⟨e, he, -⟩ := h
      cases he
    | append_singleton is x ih =>
      by_cases hbefore : ∃ e ∈ history S.step s is, S.Serves i e.1 e.2
      · obtain ⟨js, hjs, hlt⟩ := ih hbefore
        exact ⟨js, hjs.trans (List.prefix_append _ _), hlt⟩
      · obtain ⟨e, he, hserves⟩ := h
        rw [history_snoc, List.mem_cons] at he
        obtain rfl : e = (run S.step s is, x) :=
          he.resolve_right fun hmem => hbefore ⟨e, hmem, hserves⟩
        have hcount := (waiting is hi fun e he hs => hbefore ⟨e, he, hs⟩).2
        have hgrown := below_grown (i := i) (S.grows (run S.step s is) x)
        have hnone := below_eq_zero_iff.mpr (first_eq_some_iff.mp hserves.2).2
        refine ⟨is ++ [x], List.prefix_rfl, ?_⟩
        have hround : S.round x = true := hserves.1
        change below i (S.offered (run S.step s is) x) = 0 at hnone
        rw [demand_snoc, rounds_snoc, if_pos hround]
        omega
  · rintro ⟨js, ⟨ks, rfl⟩, hlt⟩
    by_contra hno
    have hcount := (waiting js hi
      fun e he hs => hno ⟨e, mem_history_append he ks, hs⟩).2
    omega

end Server

end Lib.Priority
