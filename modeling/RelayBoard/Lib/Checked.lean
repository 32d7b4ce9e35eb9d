import Mathlib.Data.BitVec

/-!
# Unsigned arithmetic without wrapping

Sums, differences and products of a fixed width that have no value where they
would wrap. Where they have one it is that of the operation that wraps.
-/

set_option autoImplicit false

namespace Lib.Checked

variable {w : ℕ}

def add (a b : BitVec w) : Option (BitVec w) := if a.uaddOverflow b then none else some (a + b)

def sub (a b : BitVec w) : Option (BitVec w) := if a.usubOverflow b then none else some (a - b)

def mul (a b : BitVec w) : Option (BitVec w) := if a.umulOverflow b then none else some (a * b)

def ofInt (w : ℕ) (x : ℤ) : Option (BitVec w) :=
  if 0 ≤ x ∧ x < 2 ^ w then some (BitVec.ofInt w x) else none

section Wrapping

/-- Where `x` has a value, `y` has the same. -/
def Sound {α : Type} (x y : Option α) : Prop := ∀ v, x = some v → y = some v

variable {α β : Type} {y : Option β}

theorem Sound.refl (y : Option β) : Sound y y := fun _ h => h

theorem Sound.of_none (y : Option β) : Sound none y := by
  intro v hv
  cases hv

theorem Sound.bind {x : Option α} {f g : α → Option β} (h : ∀ a, Sound (f a) (g a)) :
    Sound (x >>= f) (x >>= g) := by
  intro v hv
  obtain ⟨a, rfl, ha⟩ := Option.bind_eq_some_iff.mp hv
  exact h a v ha

variable {a b : BitVec w} {f : BitVec w → Option β}

theorem Sound.add (h : Sound (f (a + b)) y) : Sound (Checked.add a b >>= f) y := by
  rw [Checked.add]
  split_ifs
  · exact .of_none y
  · exact h

theorem Sound.sub (h : Sound (f (a - b)) y) : Sound (Checked.sub a b >>= f) y := by
  rw [Checked.sub]
  split_ifs
  · exact .of_none y
  · exact h

theorem Sound.mul (h : Sound (f (a * b)) y) : Sound (Checked.mul a b >>= f) y := by
  rw [Checked.mul]
  split_ifs
  · exact .of_none y
  · exact h

theorem Sound.ofInt {x : ℤ} (h : Sound (f (BitVec.ofInt w x)) y) :
    Sound (Checked.ofInt w x >>= f) y := by
  rw [Checked.ofInt]
  split_ifs
  · exact h
  · exact .of_none y

end Wrapping

section Numbers

variable {m n : ℕ}

theorem add_ofNat (h : m + n < 2 ^ w) :
    add (BitVec.ofNat w m) (BitVec.ofNat w n) = some (BitVec.ofNat w (m + n)) := by
  have hm : m % 2 ^ w = m := Nat.mod_eq_of_lt (by omega)
  have hn : n % 2 ^ w = n := Nat.mod_eq_of_lt (by omega)
  rw [add, if_neg, ← BitVec.ofNat_add]
  rw [BitVec.uaddOverflow, BitVec.toNat_ofNat, BitVec.toNat_ofNat, hm, hn, decide_eq_true_iff]
  exact Nat.not_le.mpr h

theorem sub_ofNat (hle : n ≤ m) (hm : m < 2 ^ w) :
    sub (BitVec.ofNat w m) (BitVec.ofNat w n) = some (BitVec.ofNat w (m - n)) := by
  have hn : n < 2 ^ w := hle.trans_lt hm
  rw [sub, if_neg, BitVec.ofNat_sub_ofNat_of_le m n hn hle]
  rw [BitVec.usubOverflow, BitVec.toNat_ofNat, BitVec.toNat_ofNat, Nat.mod_eq_of_lt hm,
    Nat.mod_eq_of_lt hn, decide_eq_true_iff]
  exact Nat.not_lt.mpr hle

theorem mul_ofNat (h : m * n < 2 ^ w) :
    mul (BitVec.ofNat w m) (BitVec.ofNat w n) = some (BitVec.ofNat w (m * n)) := by
  rw [mul, if_neg, ← BitVec.ofNat_mul]
  rw [BitVec.umulOverflow, BitVec.toNat_ofNat, BitVec.toNat_ofNat, decide_eq_true_iff]
  exact Nat.not_le.mpr ((Nat.mul_le_mul (Nat.mod_le m _) (Nat.mod_le n _)).trans_lt h)

theorem div_ofNat (hm : m < 2 ^ w) (hn : n < 2 ^ w) :
    BitVec.ofNat w m / BitVec.ofNat w n = BitVec.ofNat w (m / n) := by
  apply BitVec.eq_of_toNat_eq
  rw [BitVec.toNat_udiv, BitVec.toNat_ofNat, BitVec.toNat_ofNat, BitVec.toNat_ofNat,
    Nat.mod_eq_of_lt hm, Nat.mod_eq_of_lt hn,
    Nat.mod_eq_of_lt ((Nat.div_le_self m n).trans_lt hm)]

theorem ofInt_natCast (h : n < 2 ^ w) : ofInt w n = some (BitVec.ofNat w n) := by
  rw [ofInt, if_pos ⟨Int.natCast_nonneg n, mod_cast h⟩, BitVec.ofInt_natCast]

end Numbers

end Lib.Checked
