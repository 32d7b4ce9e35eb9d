import Mathlib.Data.List.Basic
import Mathlib.Logic.Function.Basic

/-!
# Memory

Cells at consecutive addresses, written one after another. A run of writes is
the list of what it writes and the address it starts at.
-/

set_option autoImplicit false

namespace Lib.Memory

variable {α : Type}

def storeAll (mem : ℕ → α) (p : ℕ) : List α → ℕ → α
  | [] => mem
  | v :: vs => storeAll (Function.update mem p v) (p + 1) vs

def slice (mem : ℕ → α) (p n : ℕ) : List α := (List.range n).map fun i => mem (p + i)

variable {mem : ℕ → α} {p i : ℕ} {vs : List α}

theorem storeAll_append (ws : List α) :
    storeAll mem p (vs ++ ws) = storeAll (storeAll mem p vs) (p + vs.length) ws := by
  induction vs generalizing mem p with
  | nil => rfl
  | cons v vs ih =>
    rw [List.cons_append, storeAll, storeAll, ih, List.length_cons, Nat.add_right_comm,
      Nat.add_assoc]

theorem storeAll_storeAll {q : ℕ} (hq : q = p + vs.length) (ws : List α) :
    storeAll (storeAll mem p vs) q ws = storeAll mem p (vs ++ ws) := by
  rw [storeAll_append, hq]

theorem storeAll_before (h : i < p) : storeAll mem p vs i = mem i := by
  induction vs generalizing mem p with
  | nil => rfl
  | cons v vs ih =>
    rw [storeAll, ih (Nat.lt_succ_of_lt h), Function.update_of_ne (Nat.ne_of_lt h)]

theorem storeAll_past (h : p + vs.length ≤ i) : storeAll mem p vs i = mem i := by
  induction vs generalizing mem p with
  | nil => rfl
  | cons v vs ih =>
    rw [List.length_cons] at h
    rw [storeAll, ih (by omega), Function.update_of_ne (by omega)]

theorem storeAll_middle (v : α) (ws : List α) :
    storeAll mem p (vs ++ v :: ws) (p + vs.length) = v := by
  rw [storeAll_append, storeAll, storeAll_before (Nat.lt_succ_self _), Function.update_self]

theorem update_storeAll (h : i < p) (v : α) :
    Function.update (storeAll mem p vs) i v = storeAll (Function.update mem i v) p vs := by
  induction vs generalizing mem p with
  | nil => rfl
  | cons w vs ih =>
    rw [storeAll, storeAll, ih (Nat.lt_succ_of_lt h), Function.update_comm (Nat.ne_of_lt h)]

theorem slice_storeAll : slice (storeAll mem p vs) p vs.length = vs := by
  induction vs generalizing mem p with
  | nil => rfl
  | cons v vs ih =>
    have hfirst : storeAll (Function.update mem p v) (p + 1) vs (p + 0) = v := by
      have hbefore : p + 0 < p + 1 := by omega
      rw [storeAll_before hbefore]
      exact Function.update_self p v mem
    have hrest : slice (storeAll (Function.update mem p v) (p + 1) vs) (p + 1) vs.length = vs := ih
    rw [slice, List.length_cons, List.range_succ_eq_map, List.map_cons, List.map_map, storeAll,
      hfirst]
    congr 1
    refine Eq.trans (List.map_congr_left fun j _ => ?_) hrest
    rw [Function.comp_apply, Nat.succ_eq_add_one, Nat.add_right_comm, Nat.add_assoc]

theorem slice_append (mem : ℕ → α) (p m n : ℕ) :
    slice mem p (m + n) = slice mem p m ++ slice mem (p + m) n := by
  rw [slice, List.range_add, List.map_append, List.map_map]
  congr 1
  refine List.map_congr_left fun i _ => ?_
  rw [Function.comp_apply, Nat.add_assoc]

end Lib.Memory
