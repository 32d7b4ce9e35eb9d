import Mathlib.Data.List.Induction
import Mathlib.Data.List.Infix

/-!
# Runs with their history

A machine is a step function on states and inputs. The history of a run holds,
newest first, each state the machine was in together with the input it then
took; a condition on a run is a condition on every entry of its history. An
invariant may speak of the history too, which is how facts about the latest
event of a kind are carried along.
-/

set_option autoImplicit false

namespace Lib.Runs

variable {σ ι τ κ : Type*}

def run (step : σ → ι → σ) (s : σ) (is : List ι) : σ := is.foldl step s

def historyFrom (step : σ → ι → σ) : List (σ × ι) → σ → List ι → List (σ × ι)
  | past, _, [] => past
  | past, s, i :: is => historyFrom step ((s, i) :: past) (step s i) is

def history (step : σ → ι → σ) (s : σ) (is : List ι) : List (σ × ι) := historyFrom step [] s is

theorem historyFrom_append (step : σ → ι → σ) (past : List (σ × ι)) (s : σ) (is js : List ι) :
    historyFrom step past s (is ++ js) =
      historyFrom step (historyFrom step past s is) (run step s is) js := by
  induction is generalizing past s with
  | nil => rfl
  | cons i is ih => exact ih _ _

@[simp] theorem history_nil (step : σ → ι → σ) (s : σ) : history step s [] = [] := rfl

theorem run_snoc (step : σ → ι → σ) (s : σ) (is : List ι) (i : ι) :
    run step s (is ++ [i]) = step (run step s is) i := by
  simp [run]

theorem history_snoc (step : σ → ι → σ) (s : σ) (is : List ι) (i : ι) :
    history step s (is ++ [i]) = (run step s is, i) :: history step s is := by
  rw [history, historyFrom_append]
  rfl

theorem mem_history_iff (step : σ → ι → σ) (s : σ) (is : List ι) (e : σ × ι) :
    e ∈ history step s is ↔ ∃ js ks, is = js ++ e.2 :: ks ∧ e.1 = run step s js := by
  induction is using List.reverseRecOn with
  | nil => simp
  | append_singleton is i ih =>
    rw [history_snoc, List.mem_cons, ih]
    constructor
    · rintro (rfl | ⟨js, ks, rfl, he⟩)
      · exact ⟨is, [], rfl, rfl⟩
      · exact ⟨js, ks ++ [i], by simp, he⟩
    · rintro ⟨js, ks, hl, he⟩
      rcases List.eq_nil_or_concat ks with rfl | ⟨ks', k, rfl⟩
      · left
        obtain ⟨rfl, hi⟩ := List.append_inj' hl rfl
        exact Prod.ext he (by simpa using hi.symm)
      · right
        rw [List.concat_eq_append, ← List.cons_append, ← List.append_assoc] at hl
        obtain ⟨rfl, -⟩ := List.append_inj' hl rfl
        exact ⟨js, ks', rfl, he⟩

theorem input_of_history (step : σ → ι → σ) (s : σ) (is : List ι) (e : σ × ι)
    (h : e ∈ history step s is) : e.2 ∈ is := by
  obtain ⟨js, ks, rfl, -⟩ := (mem_history_iff step s is e).mp h
  simp

theorem mem_history_append {step : σ → ι → σ} {s : σ} {is : List ι} {e : σ × ι}
    (h : e ∈ history step s is) (js : List ι) : e ∈ history step s (is ++ js) := by
  obtain ⟨ks, ls, rfl, he⟩ := (mem_history_iff step s is e).mp h
  exact (mem_history_iff step s _ e).mpr ⟨ks, ls ++ js, by simp, he⟩

/-- An entry and its past are a run's last input and the history before it. -/
theorem entry_of_suffix {step : σ → ι → σ} {s : σ} {is : List ι} {e : σ × ι}
    {past : List (σ × ι)} (h : e :: past <:+ history step s is) :
    ∃ js ks, is = js ++ e.2 :: ks ∧ e.1 = run step s js ∧ past = history step s js := by
  induction is using List.reverseRecOn with
  | nil => simp at h
  | append_singleton is i ih =>
    rw [history_snoc, List.suffix_cons_iff] at h
    rcases h with h | h
    · obtain ⟨rfl, rfl⟩ := List.cons.inj h
      exact ⟨is, [], rfl, rfl, rfl⟩
    · obtain ⟨js, ks, rfl, he, hpast⟩ := ih h
      exact ⟨js, ks ++ [i], by simp, he, hpast⟩

theorem suffix_history (step : σ → ι → σ) (s : σ) (js : List ι) (i : ι) (ks : List ι) :
    (run step s js, i) :: history step s js <:+ history step s (js ++ i :: ks) := by
  induction ks using List.reverseRecOn with
  | nil => rw [history_snoc]
  | append_singleton ks k ih =>
    rw [← List.cons_append, ← List.append_assoc, history_snoc]
    exact ih.trans (List.suffix_cons _ _)

theorem history_inputs (step : σ → ι → σ) (s : σ) (is : List ι) :
    (history step s is).map Prod.snd = is.reverse := by
  induction is using List.reverseRecOn with
  | nil => rfl
  | append_singleton is i ih => rw [history_snoc, List.map_cons, ih, List.reverse_append]; rfl

/-- In a run whose inputs come in order, what lies in the past came before. -/
theorem past_le {step : σ → ι → σ} {s : σ} {is : List ι} {f : ι → ℕ}
    (hf : (is.map f).Pairwise (· ≤ ·)) {e : σ × ι} {past : List (σ × ι)}
    (h : e :: past <:+ history step s is) : ∀ d ∈ past, f d.2 ≤ f e.2 := by
  obtain ⟨later, hl⟩ := h
  have hinputs := history_inputs step s is
  rw [← hl, List.map_append, List.map_cons] at hinputs
  have hrev := List.pairwise_reverse.mpr (List.pairwise_map.mp hf)
  rw [← hinputs] at hrev
  have hpast := (List.pairwise_cons.mp (List.pairwise_append.mp hrev).2.1).1
  exact fun d hd => hpast d.2 (List.mem_map_of_mem hd)

/-- A condition on every entry of a history and its past, as a test that can be
evaluated. -/
theorem forall_past_of_tails {past : List (σ × ι)} {P : σ × ι → List (σ × ι) → Prop}
    (hall : ∀ t ∈ past.tails, ∀ e ∈ t.head?, P e t.tail) :
    ∀ e earlier, e :: earlier <:+ past → P e earlier :=
  fun e earlier he => hall (e :: earlier) ((List.mem_tails _ _).mpr he) e rfl

/-- What holds at the start and is kept by every step that meets `P`, after
what has happened before it, holds at the end of every run whose steps all
meet `P`. -/
theorem run_induction_past (step : σ → ι → σ) {I : σ → List (σ × ι) → Prop}
    {P : σ → List (σ × ι) → ι → Prop} (s : σ) (hstart : I s [])
    (hstep : ∀ t past i, I t past → P t past i → I (step t i) ((t, i) :: past))
    (is : List ι) (hP : ∀ e past, e :: past <:+ history step s is → P e.1 past e.2) :
    I (run step s is) (history step s is) := by
  induction is using List.reverseRecOn with
  | nil => exact hstart
  | append_singleton is i ih =>
    rw [history_snoc] at hP ⊢
    rw [run_snoc]
    exact hstep _ _ _ (ih (fun e past he => hP e past (he.trans (List.suffix_cons _ _))))
      (hP (run step s is, i) _ (List.suffix_refl _))

theorem run_induction (step : σ → ι → σ) {I : σ → List (σ × ι) → Prop} {P : σ → ι → Prop}
    (s : σ) (hstart : I s [])
    (hstep : ∀ t past i, I t past → P t i → I (step t i) ((t, i) :: past))
    (is : List ι) (hP : ∀ e ∈ history step s is, P e.1 e.2) :
    I (run step s is) (history step s is) :=
  run_induction_past step (P := fun t _ i => P t i) s hstart hstep is
    (fun e _ he => hP e (he.subset (List.mem_cons_self ..)))

theorem run_invariant (step : σ → ι → σ) {I : σ → Prop} {P : σ → ι → Prop} (s : σ) (hstart : I s)
    (hstep : ∀ t i, I t → P t i → I (step t i))
    (is : List ι) (hP : ∀ e ∈ history step s is, P e.1 e.2) : I (run step s is) :=
  run_induction step (I := fun t _ => I t) s hstart (fun t _ i => hstep t i) is hP

/-- An exact condition: where the invariant `I` makes `P` of a step the same as
`Q` of what it leads to, `Q` holds after every part of a run exactly if `P`
holds of every step. -/
theorem prefixes_iff_history_past (step : σ → ι → σ) {A : ι → Prop}
    {I Q : σ → List (σ × ι) → Prop} {P : σ → ι → Prop} (s : σ) (hstart : I s [])
    (hQ : ∀ t past, I t past → Q t past)
    (hstep : ∀ t past i, A i → I t past → P t i → I (step t i) ((t, i) :: past))
    (hback : ∀ t past i, A i → I t past → Q (step t i) ((t, i) :: past) → P t i)
    (is : List ι) (hA : ∀ i ∈ is, A i) :
    (∀ js, js <+: is → Q (run step s js) (history step s js)) ↔
      ∀ e ∈ history step s is, P e.1 e.2 := by
  induction is using List.reverseRecOn with
  | nil =>
    simp only [List.prefix_nil, history_nil, List.not_mem_nil, false_implies, implies_true,
      iff_true]
    rintro js rfl
    exact hQ s [] hstart
  | append_singleton is i ih =>
    have hA' : ∀ j ∈ is, A j := fun j hj => hA j (by simp [hj])
    have hi : A i := hA i (by simp)
    simp only [List.prefix_concat_iff, forall_eq_or_imp, history_snoc, List.mem_cons, ih hA',
      run_snoc]
    refine and_congr_left (fun hall => ?_)
    have hI : I (run step s is) (history step s is) := by
      refine run_induction step (P := fun t j => A j ∧ P t j) s hstart
        (fun t past j ht hp => hstep t past j hp.1 ht hp.2) is (fun e he => ⟨?_, hall e he⟩)
      exact hA' _ (input_of_history step s is e he)
    exact ⟨hback _ _ i hi hI, fun hp => hQ _ _ (hstep _ _ i hi hI hp)⟩

theorem prefixes_iff_history (step : σ → ι → σ) {A : ι → Prop} {I Q : σ → Prop}
    {P : σ → ι → Prop} (s : σ) (hstart : I s) (hQ : ∀ t, I t → Q t)
    (hstep : ∀ t i, A i → I t → P t i → I (step t i))
    (hback : ∀ t i, A i → I t → Q (step t i) → P t i) (is : List ι) (hA : ∀ i ∈ is, A i) :
    (∀ js, js <+: is → Q (run step s js)) ↔ ∀ e ∈ history step s is, P e.1 e.2 :=
  prefixes_iff_history_past step (I := fun t _ => I t) (Q := fun t _ => Q t) s hstart
    (fun t _ => hQ t) (fun t _ => hstep t) (fun t _ => hback t) is hA

/-- Some input is such, given the inputs before it. -/
def Occurs (P : List ι → ι → Prop) (is : List ι) : Prop :=
  ∃ js i ks, is = js ++ i :: ks ∧ P js i

theorem not_occurs_nil (P : List ι → ι → Prop) : ¬Occurs P [] := by
  rintro ⟨js, i, ks, hnil, -⟩
  simp at hnil

theorem occurs_snoc (P : List ι → ι → Prop) (is : List ι) (i : ι) :
    Occurs P (is ++ [i]) ↔ Occurs P is ∨ P is i := by
  constructor
  · rintro ⟨js, j, ks, hsplit, hj⟩
    rcases List.eq_nil_or_concat ks with rfl | ⟨ks', k, rfl⟩
    · obtain ⟨rfl, hi⟩ := List.append_inj' hsplit rfl
      obtain rfl := List.singleton_inj.mp hi
      exact Or.inr hj
    · rw [List.concat_eq_append, ← List.cons_append, ← List.append_assoc] at hsplit
      obtain ⟨rfl, -⟩ := List.append_inj' hsplit rfl
      exact Or.inl ⟨js, j, ks', rfl, hj⟩
  · rintro (⟨js, j, ks, rfl, hj⟩ | hi)
    · exact ⟨js, j, ks ++ [i], by simp, hj⟩
    · exact ⟨is, i, [], rfl, hi⟩

/-- Two runs in lock step: `R` relates the states, `Q` the inputs taken in
related states. -/
inductive Lockstep (stepA : σ → ι → σ) (stepB : τ → κ → τ) (Q : σ → τ → ι → κ → Prop) :
    σ → τ → List ι → List κ → Prop
  | nil (s : σ) (t : τ) : Lockstep stepA stepB Q s t [] []
  | cons {s : σ} {t : τ} {i : ι} {k : κ} {is : List ι} {ks : List κ} :
      Q s t i k → Lockstep stepA stepB Q (stepA s i) (stepB t k) is ks →
      Lockstep stepA stepB Q s t (i :: is) (k :: ks)

theorem lockstep_run {stepA : σ → ι → σ} {stepB : τ → κ → τ} {Q : σ → τ → ι → κ → Prop}
    {R : σ → τ → Prop} (hstep : ∀ s t i k, R s t → Q s t i k → R (stepA s i) (stepB t k))
    {s : σ} {t : τ} {is : List ι} {ks : List κ} (h : Lockstep stepA stepB Q s t is ks)
    (hR : R s t) : R (run stepA s is) (run stepB t ks) := by
  induction h with
  | nil s t => exact hR
  | cons hq _ ih => exact ih (hstep _ _ _ _ hR hq)

end Lib.Runs
