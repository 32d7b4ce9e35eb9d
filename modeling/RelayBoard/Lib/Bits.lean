import Mathlib.Data.BitVec
import RelayBoard.Lib.Loops

/-!
# Bitmaps

A word read as a set of indices: one bit for each member. Masks are compared
bit by bit, and a loop that sets the bit of every index passing a test is
`BitVec.collect`.
-/

set_option autoImplicit false

namespace BitVec
open Lib.Loops

variable {n : ℕ}

def single (i : Fin n) : BitVec n := twoPow n i

def has (m : BitVec n) (i : Fin n) : Bool := m.getLsbD i

def collect (p : Fin n → Bool) : BitVec n :=
  forEach (fun i m => if p i then m ||| single i else m) 0#n

theorem ext_has {a b : BitVec n} (h : ∀ i, a.has i = b.has i) : a = b :=
  eq_of_getLsbD_eq (fun i hi => h ⟨i, hi⟩)

@[simp] theorem has_zero (i : Fin n) : (0#n).has i = false := by
  simp [has]

@[simp] theorem has_and (a b : BitVec n) (i : Fin n) : (a &&& b).has i = (a.has i && b.has i) := by
  simp [has]

@[simp] theorem has_or (a b : BitVec n) (i : Fin n) : (a ||| b).has i = (a.has i || b.has i) := by
  simp [has]

@[simp] theorem has_xor (a b : BitVec n) (i : Fin n) : (a ^^^ b).has i = (a.has i ^^ b.has i) := by
  simp [has]

@[simp] theorem has_not (a : BitVec n) (i : Fin n) : (~~~a).has i = !a.has i := by
  simp [has]

@[simp] theorem has_single (i j : Fin n) : (single i).has j = decide (j = i) := by
  simp only [has, single, getLsbD_twoPow, i.isLt, decide_true, Bool.true_and, Fin.ext_iff,
    eq_comm]

theorem ne_zero_iff (m : BitVec n) : m ≠ 0#n ↔ ∃ i, m.has i = true := by
  constructor
  · intro h
    by_contra hnone
    apply h
    apply ext_has
    intro i
    have hi : m.has i ≠ true := fun hi => hnone ⟨i, hi⟩
    simpa using hi
  · rintro ⟨i, hi⟩ rfl
    simp at hi

theorem eq_zero_iff (m : BitVec n) : m = 0#n ↔ ∀ i, m.has i = false := by
  constructor
  · rintro rfl i
    exact has_zero i
  · intro h
    exact ext_has (fun i => by rw [h i, has_zero])

@[simp] theorem has_collect (p : Fin n → Bool) (i : Fin n) : (collect p).has i = p i := by
  unfold collect
  rw [forEach_own (fun i m => if p i then m ||| single i else m) (fun m => m.has i) i]
  · by_cases hp : p i = true <;> simp [hp]
  · intro j hj s
    by_cases hp : p j = true <;> simp [hp, hj.symm]
  · intro s t h
    by_cases hp : p i = true <;> simp [hp, h]

/-- Some bit of `a` also set in `b`: the test `a & b` of the C language. -/
theorem and_ne_zero_iff (a b : BitVec n) :
    a &&& b ≠ 0#n ↔ ∃ i, a.has i = true ∧ b.has i = true := by
  simp [ne_zero_iff]

end BitVec
