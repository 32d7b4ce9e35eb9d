import Mathlib.Data.BitVec

/-!
# Deadlines on a clock that wraps

A counter of `w` bits shows true time modulo `2 ^ w`. Differences of two
readings are the true elapsed time modulo `2 ^ w`, so a deadline test on the
sign of the difference is right while the reading is less than half a turn
past the deadline.
-/

set_option autoImplicit false

namespace Lib.Clock

def reading (w t : ℕ) : BitVec w := BitVec.ofNat w t

/-- The signed comparison of the C idiom `(intw_t)(now - deadline) >= 0`. -/
def passed {w : ℕ} (now deadline : BitVec w) : Bool := decide (0 ≤ (now - deadline).toInt)

theorem reading_add (w t d : ℕ) : reading w (t + d) = reading w t + BitVec.ofNat w d :=
  BitVec.ofNat_add t d

theorem reading_sub (w t u : ℕ) (h : u ≤ t) :
    reading w t - reading w u = BitVec.ofNat w (t - u) := by
  obtain ⟨k, rfl⟩ := Nat.exists_eq_add_of_le h
  rw [reading_add, Nat.add_sub_cancel_left]
  exact add_sub_cancel_left (reading w u) (BitVec.ofNat w k)

theorem reading_sub_toNat (w t u : ℕ) (h : u ≤ t) :
    (reading w t - reading w u).toNat = (t - u) % 2 ^ w := by
  rw [reading_sub w t u h, BitVec.toNat_ofNat]

theorem passed_iff (w t u : ℕ) (h : u ≤ t) :
    passed (reading w t) (reading w u) = true ↔ 2 * ((t - u) % 2 ^ w) < 2 ^ w := by
  rw [passed, decide_eq_true_iff, reading_sub w t u h, BitVec.toInt_eq_toNat_cond,
    BitVec.toNat_ofNat]
  have hlt : (t - u) % 2 ^ w < 2 ^ w := Nat.mod_lt _ (Nat.two_pow_pos w)
  have hcast : ((2 ^ w : ℕ) : ℤ) = (2 : ℤ) ^ w := by push_cast; rfl
  split_ifs with hc
  · exact iff_of_true (Int.natCast_nonneg _) hc
  · constructor
    · intro hz
      omega
    · intro hn
      exact absurd hn hc

/-- A reading less than half a turn past a deadline finds it passed, whether
or not the counter has wrapped in between. -/
theorem passed_of_le (w t u : ℕ) (h : u ≤ t) (hhalf : 2 * (t - u) < 2 ^ w) :
    passed (reading w t) (reading w u) = true := by
  rw [passed_iff w t u h, Nat.mod_eq_of_lt (by omega)]
  exact hhalf

/-- A reading at most half a turn before a deadline does not find it passed. -/
theorem passed_early (w t u : ℕ) (h : t < u) (hhalf : 2 * (u - t) ≤ 2 ^ w) :
    passed (reading w t) (reading w u) = false := by
  have hsub : reading w t - reading w u = -BitVec.ofNat w (u - t) := by
    rw [← reading_sub w u t h.le]
    exact (neg_sub _ _).symm
  have hpos : 0 < 2 ^ w := Nat.two_pow_pos w
  have hmod : (u - t) % 2 ^ w = u - t := Nat.mod_eq_of_lt (by omega)
  have hneg : (2 ^ w - (u - t)) % 2 ^ w = 2 ^ w - (u - t) := Nat.mod_eq_of_lt (by omega)
  have hcast : ((2 ^ w : ℕ) : ℤ) = (2 : ℤ) ^ w := by push_cast; rfl
  rw [passed, decide_eq_false_iff_not, hsub, BitVec.toInt_eq_toNat_cond, BitVec.toNat_neg,
    BitVec.toNat_ofNat, hmod, hneg]
  split_ifs
  · omega
  · omega

end Lib.Clock
