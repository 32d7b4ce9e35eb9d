import Mathlib.Data.Set.Basic
import Mathlib.Tactic.Ring

/-!
# Windows that recur

Each period has a window of its own. It opens `on` units into the period and
shuts at `off`, in the same period or, when `off` comes before `on`, in the
next one. A moment of period `k` is `period * k` and the units since.
-/

set_option autoImplicit false

namespace Lib.Windows

variable {period on off m : ℤ}

def window (period on off k : ℤ) : Set ℤ :=
  {m | period * k + on ≤ m ∧ m < period * (if off < on then k + 1 else k) + off}

theorem mem_own (on k : ℤ) (hoff : 0 ≤ off) (hm : m < period) :
    period * k + m ∈ window period on off k ↔ on ≤ m ∧ (m < off ∨ off < on) := by
  rw [window, Set.mem_ofPred_eq]
  split_ifs with h
  · have hnext : period * (k + 1) = period * k + period := by ring
    omega
  · omega

theorem mem_next (k : ℤ) (hon : on < period) (hm : 0 ≤ m) (hoff : off ≤ period) :
    period * (k + 1) + m ∈ window period on off k ↔ off < on ∧ m < off := by
  have hnext : period * (k + 1) = period * k + period := by ring
  rw [window, Set.mem_ofPred_eq]
  split_ifs with h
  · omega
  · omega

end Lib.Windows
