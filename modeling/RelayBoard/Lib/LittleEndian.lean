import Mathlib.Data.BitVec
import Mathlib.Data.List.GetD

/-!
# Words as bytes

A word laid out with its low byte first, and read back. Bit `k` of the word is
bit `k % 8` of byte `k / 8`, which decides all questions about the two.
-/

set_option autoImplicit false

namespace Lib.LittleEndian

variable {w : ℕ}

def put (n : ℕ) (v : BitVec w) : List (BitVec 8) :=
  (List.range n).map fun i => (v >>> (8 * i)).setWidth 8

def get (w : ℕ) (p : List (BitVec 8)) : BitVec w :=
  p.foldr (fun b v => (v <<< 8) ||| b.setWidth w) 0#w

@[simp] theorem length_put (n : ℕ) (v : BitVec w) : (put n v).length = n := by
  simp [put]

theorem getLsbD_get (p : List (BitVec 8)) {k : ℕ} (hk : k < w) :
    (get w p).getLsbD k = (p.getD (k / 8) 0).getLsbD (k % 8) := by
  induction p generalizing k with
  | nil => simp [get]
  | cons b p ih =>
    rw [get, List.foldr_cons, BitVec.getLsbD_or, BitVec.getLsbD_shiftLeft]
    by_cases hlow : k < 8
    · have hdiv : k / 8 = 0 := by omega
      have hmod : k % 8 = k := by omega
      simp [hdiv, hmod, hlow, hk]
    · obtain ⟨j, rfl⟩ := Nat.exists_eq_add_of_le (Nat.not_lt.mp hlow)
      have hdiv : (8 + j) / 8 = j / 8 + 1 := by omega
      have hmod : (8 + j) % 8 = j % 8 := by omega
      have hhigh : b.getLsbD (8 + j) = false := BitVec.getLsbD_of_ge b _ (Nat.le_add_right 8 j)
      have hrest := ih (k := j) (by omega)
      rw [get] at hrest
      rw [hdiv, hmod, List.getD_cons_succ, ← hrest, BitVec.getLsbD_setWidth, hhigh]
      simp [hk, hlow]

theorem getD_put (n : ℕ) (v : BitVec w) (i : ℕ) :
    (put n v).getD i 0 = if i < n then (v >>> (8 * i)).setWidth 8 else 0 := by
  by_cases hi : i < n
  · simp [put, List.getD_eq_getElem?_getD, hi]
  · rw [if_neg hi, List.getD_eq_default]
    simpa using hi

theorem get_put (n : ℕ) (h : w ≤ 8 * n) (v : BitVec w) : get w (put n v) = v := by
  apply BitVec.eq_of_getLsbD_eq
  intro k hk
  rw [getLsbD_get _ hk, getD_put, if_pos (by omega), BitVec.getLsbD_setWidth,
    BitVec.getLsbD_ushiftRight]
  have hmod : k % 8 < 8 := Nat.mod_lt _ (by omega)
  rw [Nat.div_add_mod k 8]
  simp [hmod]

end Lib.LittleEndian
