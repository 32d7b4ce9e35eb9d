import Mathlib.Data.List.Pairwise

/-!
# Samples of a level

A level is sampled from time to time, and the samples are kept newest first. It
is held for `d` if it shows in every sample from one that is at least `d` old on.
What a debouncer stores of the samples is only the newest level and when its
run began, which is enough to tell.
-/

set_option autoImplicit false

namespace Lib.Samples

variable {α : Type*}

def Held (d : ℕ) (level : α) (now : ℕ) (samples : List (ℕ × α)) : Prop :=
  ∃ recent old earlier, samples = recent ++ old :: earlier ∧ (∀ r ∈ recent, r.2 = level) ∧
    old.2 = level ∧ old.1 + d ≤ now

def Ordered (samples : List (ℕ × α)) : Prop := samples.Pairwise (fun later r => r.1 ≤ later.1)

theorem Ordered.tail {r : ℕ × α} {rest : List (ℕ × α)} (h : Ordered (r :: rest)) :
    Ordered rest := (List.pairwise_cons.mp h).2

theorem Ordered.le {r s : ℕ × α} {rest : List (ℕ × α)} (h : Ordered (r :: s :: rest)) :
    s.1 ≤ r.1 := (List.pairwise_cons.mp h).1 s (List.mem_cons_self ..)

variable [DecidableEq α]

/-- The time of the oldest sample since which the level has not changed. -/
def runStart : List (ℕ × α) → ℕ
  | [] => 0
  | [r] => r.1
  | r :: s :: rest => if s.2 = r.2 then runStart (s :: rest) else r.1

theorem runStart_same (r s : ℕ × α) (rest : List (ℕ × α)) (h : s.2 = r.2) :
    runStart (r :: s :: rest) = runStart (s :: rest) := if_pos h

theorem runStart_changed (r s : ℕ × α) (rest : List (ℕ × α)) (h : s.2 ≠ r.2) :
    runStart (r :: s :: rest) = r.1 := if_neg h

theorem runStart_le (r : ℕ × α) (rest : List (ℕ × α)) (h : Ordered (r :: rest)) :
    runStart (r :: rest) ≤ r.1 := by
  induction rest generalizing r with
  | nil => exact Nat.le_refl r.1
  | cons s rest ih =>
    have hs := h.le
    by_cases hl : s.2 = r.2
    · rw [runStart_same r s rest hl]
      exact Nat.le_trans (ih s h.tail) hs
    · exact Nat.le_of_eq (runStart_changed r s rest hl)

/-- The run reaches back to each sample that shows the level with all after it. -/
theorem runStart_le_old (recent : List (ℕ × α)) (old : ℕ × α) (earlier : List (ℕ × α))
    (h : Ordered (recent ++ old :: earlier)) (hl : ∀ r ∈ recent, r.2 = old.2) :
    runStart (recent ++ old :: earlier) ≤ old.1 := by
  induction recent with
  | nil => exact runStart_le old earlier h
  | cons r recent ih =>
    have hr := hl r (List.mem_cons_self ..)
    have hrest := ih h.tail (fun s hs => hl s (List.mem_cons_of_mem r hs))
    cases recent with
    | nil =>
      rw [List.singleton_append, runStart_same r old earlier hr.symm]
      exact hrest
    | cons s recent =>
      have hs := hl s (by simp)
      rw [List.cons_append, List.cons_append, runStart_same r s _ (hs.trans hr.symm)]
      exact hrest

theorem exists_runStart (r : ℕ × α) (rest : List (ℕ × α)) :
    ∃ recent old earlier, r :: rest = recent ++ old :: earlier ∧ (∀ s ∈ recent, s.2 = r.2) ∧
      old.2 = r.2 ∧ old.1 = runStart (r :: rest) := by
  induction rest generalizing r with
  | nil => exact ⟨[], r, [], rfl, by simp, rfl, rfl⟩
  | cons s rest ih =>
    by_cases hl : s.2 = r.2
    · obtain ⟨recent, old, earlier, hsplit, hrecent, hold, hstart⟩ := ih s
      refine ⟨r :: recent, old, earlier, by rw [hsplit, List.cons_append], ?_, hold.trans hl, ?_⟩
      · intro t ht
        rcases List.mem_cons.mp ht with rfl | ht
        · rfl
        · exact (hrecent t ht).trans hl
      · rw [runStart_same r s rest hl]
        exact hstart
    · exact ⟨[], r, s :: rest, rfl, by simp, rfl, (runStart_changed r s rest hl).symm⟩

theorem held_iff (d : ℕ) (level : α) (now : ℕ) (r : ℕ × α) (rest : List (ℕ × α))
    (h : Ordered (r :: rest)) :
    Held d level now (r :: rest) ↔ r.2 = level ∧ runStart (r :: rest) + d ≤ now := by
  constructor
  · rintro ⟨recent, old, earlier, hsplit, hrecent, hold, hd⟩
    have hstart := runStart_le_old recent old earlier (hsplit ▸ h)
      (fun s hs => (hrecent s hs).trans hold.symm)
    rw [← hsplit] at hstart
    refine ⟨?_, by omega⟩
    cases recent with
    | nil =>
      rw [(List.cons.inj hsplit).1]
      exact hold
    | cons s recent =>
      rw [(List.cons.inj hsplit).1]
      exact hrecent s (List.mem_cons_self ..)
  · rintro ⟨rfl, hd⟩
    obtain ⟨recent, old, earlier, hsplit, hrecent, hold, hstart⟩ := exists_runStart r rest
    exact ⟨recent, old, earlier, hsplit, hrecent, hold, by omega⟩

end Lib.Samples
