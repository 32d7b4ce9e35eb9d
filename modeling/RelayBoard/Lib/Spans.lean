import Mathlib.Algebra.BigOperators.Group.List.Basic
import Mathlib.Algebra.GroupWithZero.Nat
import Mathlib.Tactic.Common

/-!
# Spans laid end to end

Each item of a list takes up as much as its length says, from where the one
before it ends. A point below the total lies in the span of exactly one item,
which is found by taking the lengths away one after another; an item without
length is never found.
-/

set_option autoImplicit false

namespace Lib.Spans

variable {α : Type*} (len : α → ℕ)

def total (xs : List α) : ℕ := (xs.map len).sum

def start (xs : List α) (i : ℕ) : ℕ := total len (xs.take i)

def Covers (xs : List α) (i t : ℕ) : Prop :=
  ∃ x, xs[i]? = some x ∧ start len xs i ≤ t ∧ t < start len xs i + len x

def find : List α → ℕ → Option α
  | [], _ => none
  | x :: xs, t => if t < len x then some x else find xs (t - len x)

variable {len} {xs : List α} {x : α} {i j t : ℕ}

@[simp] theorem total_cons (x : α) (xs : List α) : total len (x :: xs) = len x + total len xs :=
  List.sum_cons

@[simp] theorem start_zero (xs : List α) : start len xs 0 = 0 := rfl

@[simp] theorem start_succ (x : α) (xs : List α) (i : ℕ) :
    start len (x :: xs) (i + 1) = len x + start len xs i := total_cons x (xs.take i)

theorem covers_zero : Covers len (x :: xs) 0 t ↔ t < len x := by
  constructor
  · rintro ⟨y, hy, -, hlt⟩
    obtain rfl := Option.some.inj hy
    rwa [start_zero, Nat.zero_add] at hlt
  · intro hlt
    exact ⟨x, rfl, Nat.zero_le t, by rwa [start_zero, Nat.zero_add]⟩

theorem covers_succ :
    Covers len (x :: xs) (i + 1) t ↔ len x ≤ t ∧ Covers len xs i (t - len x) := by
  constructor
  · rintro ⟨y, hy, hle, hlt⟩
    rw [start_succ] at hle hlt
    exact ⟨by omega, y, hy, by omega, by omega⟩
  · rintro ⟨hx, y, hy, hle, hlt⟩
    exact ⟨y, hy, by rw [start_succ]; omega, by rw [start_succ]; omega⟩

theorem covers_unique (hi : Covers len xs i t) (hj : Covers len xs j t) : i = j := by
  induction xs generalizing i j t with
  | nil =>
    obtain ⟨x, hx, -⟩ := hi
    cases hx
  | cons x xs ih =>
    cases i with
    | zero =>
      cases j with
      | zero => rfl
      | succ j =>
        have hbefore := covers_zero.mp hi
        have hafter := (covers_succ.mp hj).1
        omega
    | succ i =>
      cases j with
      | zero =>
        have hbefore := covers_zero.mp hj
        have hafter := (covers_succ.mp hi).1
        omega
      | succ j => rw [ih (covers_succ.mp hi).2 (covers_succ.mp hj).2]

theorem not_covers_of_len_eq_zero (hx : xs[i]? = some x) (hzero : len x = 0) (t : ℕ) :
    ¬Covers len xs i t := by
  rintro ⟨y, hy, hle, hlt⟩
  rw [hx] at hy
  obtain rfl := Option.some.inj hy
  omega

theorem find_of_covers (hx : xs[i]? = some x) (h : Covers len xs i t) :
    find len xs t = some x := by
  induction xs generalizing i t with
  | nil => cases hx
  | cons y xs ih =>
    cases i with
    | zero =>
      obtain rfl := Option.some.inj hx
      rw [find, if_pos (covers_zero.mp h)]
    | succ i =>
      obtain ⟨hle, hrest⟩ := covers_succ.mp h
      rw [find, if_neg (Nat.not_lt.mpr hle)]
      exact ih hx hrest

theorem exists_covers (h : t < total len xs) : ∃ i, Covers len xs i t := by
  induction xs generalizing t with
  | nil => exact absurd h (Nat.not_lt_zero t)
  | cons x xs ih =>
    rw [total_cons] at h
    by_cases hx : t < len x
    · exact ⟨0, covers_zero.mpr hx⟩
    · obtain ⟨i, hi⟩ := ih (t := t - len x) (by omega)
      exact ⟨i + 1, covers_succ.mpr ⟨Nat.not_lt.mp hx, hi⟩⟩

theorem existsUnique_covers (h : t < total len xs) : ∃! i, Covers len xs i t := by
  obtain ⟨i, hi⟩ := exists_covers h
  exact ⟨i, hi, fun j hj => covers_unique hj hi⟩

theorem find_eq_none (h : total len xs ≤ t) : find len xs t = none := by
  induction xs generalizing t with
  | nil => rfl
  | cons x xs ih =>
    rw [total_cons] at h
    rw [find, if_neg (by omega), ih (by omega)]

theorem len_le_total (hx : x ∈ xs) : len x ≤ total len xs := by
  induction xs with
  | nil => cases hx
  | cons y xs ih =>
    rw [total_cons]
    rcases List.mem_cons.mp hx with rfl | hx
    · omega
    · have hrest := ih hx
      omega

theorem find_eq_some_iff : find len xs t = some x ↔ ∃ i, xs[i]? = some x ∧ Covers len xs i t := by
  constructor
  · intro h
    have hlt : t < total len xs := by
      by_contra hle
      rw [find_eq_none (Nat.not_lt.mp hle)] at h
      cases h
    obtain ⟨i, hi⟩ := exists_covers hlt
    obtain ⟨y, hy, -⟩ := id hi
    rw [find_of_covers hy hi] at h
    exact ⟨i, h ▸ hy, hi⟩
  · rintro ⟨i, hx, hi⟩
    exact find_of_covers hx hi

end Lib.Spans
