import RelayBoard.Lib.Bits

/-!
# Slots lent to a borrower

A lender fills a slot, marks it and lends it. The borrower reads it through
the slot, later gives it back, which clears the mark, or drops it without a
word. One slot at a time is chosen for filling. When the borrower is known to
hold nothing the lender takes every slot back.
-/

set_option autoImplicit false

namespace Lib.Lending
open BitVec

/-- `lent` records for a slot the borrower holds what it was lent with. -/
structure State (n : ℕ) (α : Type*) where
  content : Fin n → α
  marked : BitVec n
  lent : Fin n → Option α
  dropped : Fin n → Bool
  chosen : Option (Fin n)

variable {n : ℕ} {α : Type*}

namespace State

def choose (i : Fin n) (s : State n α) : State n α := { s with chosen := some i }

def fill (i : Fin n) (a : α) (s : State n α) : State n α :=
  { s with content := Function.update s.content i a }

def mark (i : Fin n) (s : State n α) : State n α := { s with marked := s.marked ||| single i }

def lend (i : Fin n) (a : α) (s : State n α) : State n α :=
  { s with
    lent := Function.update s.lent i (some a)
    dropped := Function.update s.dropped i false
    chosen := none }

/-- The borrower refused the chosen slot. -/
def withdraw (i : Fin n) (s : State n α) : State n α :=
  { s with marked := s.marked &&& ~~~single i, chosen := none }

def giveBack (i : Fin n) (s : State n α) : State n α :=
  { s with marked := s.marked &&& ~~~single i, lent := Function.update s.lent i none }

def drop (i : Fin n) (s : State n α) : State n α :=
  { s with
    lent := Function.update s.lent i none
    dropped := Function.update s.dropped i true }

def reclaim (s : State n α) : State n α := { s with marked := 0#n, dropped := fun _ => false }

structure Inv (s : State n α) : Prop where
  intact : ∀ i a, s.lent i = some a → s.content i = a
  marked : ∀ i, s.lent i ≠ none → s.marked.has i = true
  idle : ∀ i, s.chosen = some i → s.lent i = none ∧ s.dropped i = false
  accounted : ∀ i, s.marked.has i = true →
    s.lent i ≠ none ∨ s.dropped i = true ∨ s.chosen = some i
  dropped : ∀ i, s.dropped i = true → s.marked.has i = true ∧ s.lent i = none

variable {s : State n α} {i : Fin n} {a : α}

theorem Inv.choose (h : Inv s) (hfree : s.marked.has i = false) (hnone : s.chosen = none) :
    Inv (s.choose i) where
  intact := h.intact
  marked := h.marked
  idle j hj := by
    obtain rfl : i = j := Option.some.inj hj
    constructor
    · by_contra hlent
      rw [h.marked i hlent] at hfree
      cases hfree
    · by_contra hdropped
      rw [(h.dropped i (by simpa [State.choose] using hdropped)).1] at hfree
      cases hfree
  accounted j hj := by
    rcases h.accounted j hj with hl | hd | hc
    · exact .inl hl
    · exact .inr (.inl hd)
    · rw [hnone] at hc
      cases hc
  dropped := h.dropped

theorem Inv.fill (h : Inv s) (hchosen : s.chosen = some i) : Inv (s.fill i a) where
  intact j b hj := by
    have hne : j ≠ i := by
      rintro rfl
      simp only [State.fill, (h.idle j hchosen).1] at hj
      cases hj
    simp only [State.fill, Function.update_of_ne hne]
    exact h.intact j b hj
  marked := h.marked
  idle := h.idle
  accounted := h.accounted
  dropped := h.dropped

theorem Inv.mark (h : Inv s) (hchosen : s.chosen = some i) : Inv (s.mark i) where
  intact := h.intact
  marked j hj := by
    rw [State.mark, has_or, h.marked j hj, Bool.true_or]
  idle := h.idle
  accounted j hj := by
    by_cases hji : j = i
    · subst hji
      exact .inr (.inr hchosen)
    · simp only [State.mark, has_or, has_single, hji, decide_false, Bool.or_false] at hj
      exact h.accounted j hj
  dropped j hj := by
    obtain ⟨hm, hl⟩ := h.dropped j hj
    exact ⟨by rw [State.mark, has_or, hm, Bool.true_or], hl⟩

theorem Inv.lend (h : Inv s) (hchosen : s.chosen = some i) (hmarked : s.marked.has i = true)
    (hcontent : s.content i = a) : Inv (s.lend i a) where
  intact j b hj := by
    by_cases hji : j = i
    · subst hji
      simp only [State.lend, Function.update_self, Option.some.injEq] at hj
      exact hcontent.trans hj
    · simp only [State.lend, Function.update_of_ne hji] at hj
      exact h.intact j b hj
  marked j hj := by
    by_cases hji : j = i
    · subst hji
      exact hmarked
    · simp only [State.lend, Function.update_of_ne hji] at hj
      exact h.marked j hj
  idle j hj := by cases hj
  accounted j hj := by
    by_cases hji : j = i
    · subst hji
      exact .inl (by simp [State.lend])
    · rcases h.accounted j hj with hl | hd | hc
      · exact .inl (by simpa [State.lend, hji] using hl)
      · exact .inr (.inl (by simpa [State.lend, hji] using hd))
      · rw [hchosen] at hc
        exact absurd (Option.some.inj hc).symm hji
  dropped j hj := by
    by_cases hji : j = i
    · subst hji
      simp [State.lend] at hj
    · simp only [State.lend, Function.update_of_ne hji] at hj ⊢
      exact h.dropped j hj

theorem Inv.withdraw (h : Inv s) (hchosen : s.chosen = some i) : Inv (s.withdraw i) where
  intact := h.intact
  marked j hj := by
    have hne : j ≠ i := by
      rintro rfl
      exact hj (h.idle j hchosen).1
    simp [State.withdraw, h.marked j hj, hne]
  idle j hj := by cases hj
  accounted j hj := by
    simp only [State.withdraw, has_and, has_not, has_single, Bool.and_eq_true,
      Bool.not_eq_true', decide_eq_false_iff_not] at hj
    rcases h.accounted j hj.1 with hl | hd | hc
    · exact .inl hl
    · exact .inr (.inl hd)
    · rw [hchosen] at hc
      exact absurd (Option.some.inj hc).symm hj.2
  dropped j hj := by
    obtain ⟨hm, hl⟩ := h.dropped j hj
    have hne : j ≠ i := by
      rintro rfl
      simp only [State.withdraw, (h.idle j hchosen).2] at hj
      cases hj
    exact ⟨by simp [State.withdraw, hm, hne], hl⟩

theorem Inv.giveBack (h : Inv s) (hlent : s.lent i ≠ none) : Inv (s.giveBack i) where
  intact j b hj := by
    by_cases hji : j = i
    · subst hji
      simp [State.giveBack] at hj
    · simp only [State.giveBack, Function.update_of_ne hji] at hj
      exact h.intact j b hj
  marked j hj := by
    by_cases hji : j = i
    · subst hji
      simp [State.giveBack] at hj
    · simp only [State.giveBack, Function.update_of_ne hji] at hj
      simp [State.giveBack, h.marked j hj, hji]
  idle j hj := by
    have hji : j ≠ i := by
      rintro rfl
      exact hlent (h.idle j hj).1
    simp only [State.giveBack, Function.update_of_ne hji]
    exact h.idle j hj
  accounted j hj := by
    simp only [State.giveBack, has_and, has_not, has_single, Bool.and_eq_true,
      Bool.not_eq_true', decide_eq_false_iff_not] at hj
    simp only [State.giveBack, Function.update_of_ne hj.2]
    exact h.accounted j hj.1
  dropped j hj := by
    obtain ⟨hm, hl⟩ := h.dropped j hj
    have hji : j ≠ i := by
      rintro rfl
      exact hlent hl
    exact ⟨by simp [State.giveBack, hm, hji], by simp [State.giveBack, hji, hl]⟩

theorem Inv.drop (h : Inv s) (hlent : s.lent i ≠ none) : Inv (s.drop i) where
  intact j b hj := by
    by_cases hji : j = i
    · subst hji
      simp [State.drop] at hj
    · simp only [State.drop, Function.update_of_ne hji] at hj
      exact h.intact j b hj
  marked j hj := by
    by_cases hji : j = i
    · subst hji
      simp [State.drop] at hj
    · simp only [State.drop, Function.update_of_ne hji] at hj
      exact h.marked j hj
  idle j hj := by
    have hji : j ≠ i := by
      rintro rfl
      exact hlent (h.idle j hj).1
    simp only [State.drop, Function.update_of_ne hji]
    exact h.idle j hj
  accounted j hj := by
    by_cases hji : j = i
    · subst hji
      exact .inr (.inl (by simp [State.drop]))
    · simp only [State.drop, Function.update_of_ne hji]
      exact h.accounted j hj
  dropped j hj := by
    by_cases hji : j = i
    · subst hji
      exact ⟨h.marked j hlent, by simp [State.drop]⟩
    · simp only [State.drop, Function.update_of_ne hji] at hj ⊢
      exact h.dropped j hj

theorem Inv.reclaim (h : Inv s) (hlent : ∀ i, s.lent i = none) : Inv s.reclaim where
  intact := h.intact
  marked j hj := absurd (hlent j) hj
  idle j _ := ⟨hlent j, rfl⟩
  accounted j hj := by
    rw [State.reclaim, has_zero] at hj
    cases hj
  dropped j hj := by cases hj

theorem Inv.marked_iff (h : Inv s) (hnone : s.chosen = none) (i : Fin n) :
    s.marked.has i = true ↔ s.lent i ≠ none ∨ s.dropped i = true := by
  constructor
  · intro hi
    rcases h.accounted i hi with hl | hd | hc
    · exact .inl hl
    · exact .inr hd
    · rw [hnone] at hc
      cases hc
  · rintro (hl | hd)
    · exact h.marked i hl
    · exact (h.dropped i hd).1

end State
end Lib.Lending
