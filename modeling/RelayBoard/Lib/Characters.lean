import Mathlib.Data.BitVec
import Mathlib.Data.List.Basic

/-!
# Characters as bytes

The UTF-8 of a text, and the longest part of a text that fits a bound.
-/

set_option autoImplicit false

namespace Lib.Characters

def utf8Char (c : Char) : List (BitVec 8) := (String.utf8EncodeChar c).map UInt8.toBitVec

def utf8 (text : List Char) : List (BitVec 8) := text.flatMap utf8Char

/-- The longest part from the start that fits. -/
structure LongestPrefix {α : Type} (fits : List α → Prop) (text front : List α) : Prop where
  start : List.IsPrefix front text
  fit : fits front
  longest : ∀ other, List.IsPrefix other text → fits other → List.IsPrefix other front

theorem utf8_cons (c : Char) (text : List Char) : utf8 (c :: text) = utf8Char c ++ utf8 text :=
  List.flatMap_cons ..

theorem utf8Char_ne_nil (c : Char) : utf8Char c ≠ [] := by
  rw [utf8Char, Ne, List.map_eq_nil_iff]
  exact String.utf8EncodeChar_ne_nil

variable {c : Char}

theorem utf8Char_one (h : c.toNat < 0x80) : utf8Char c = [BitVec.ofNat 8 c.toNat] := by
  have hle : c.val.toNat ≤ 0x7f := Nat.le_of_lt_succ h
  simp only [utf8Char, String.utf8EncodeChar, if_pos hle]
  rfl

theorem utf8Char_two (hlow : 0x80 ≤ c.toNat) (hhigh : c.toNat < 0x800) :
    utf8Char c = [BitVec.ofNat 8 (c.toNat / 64 + 0xc0), BitVec.ofNat 8 (c.toNat % 64 + 0x80)] := by
  have h1 : ¬c.val.toNat ≤ 0x7f := Nat.not_le_of_lt hlow
  have h2 : c.val.toNat ≤ 0x7ff := Nat.le_of_lt_succ hhigh
  have hmod : c.val.toNat / 64 % 0x20 = c.toNat / 64 := Nat.mod_eq_of_lt (by omega)
  simp only [utf8Char, String.utf8EncodeChar, if_neg h1, if_pos h2, hmod]
  rfl

theorem utf8Char_three (hlow : 0x800 ≤ c.toNat) (hhigh : c.toNat ≤ 0xffff) :
    utf8Char c = [BitVec.ofNat 8 (c.toNat / 4096 + 0xe0),
      BitVec.ofNat 8 (c.toNat / 64 % 64 + 0x80), BitVec.ofNat 8 (c.toNat % 64 + 0x80)] := by
  have hval : c.val.toNat = c.toNat := rfl
  have h1 : ¬c.val.toNat ≤ 0x7f := by omega
  have h2 : ¬c.val.toNat ≤ 0x7ff := by omega
  have h3 : c.val.toNat ≤ 0xffff := hhigh
  have hmod : c.val.toNat / 4096 % 0x10 = c.toNat / 4096 := Nat.mod_eq_of_lt (by omega)
  simp only [utf8Char, String.utf8EncodeChar, if_neg h1, if_neg h2, if_pos h3, hmod]
  rfl

theorem toNat_valid (c : Char) : c.toNat < 0xd800 ∨ 0xdfff < c.toNat ∧ c.toNat < 0x110000 := c.valid

theorem toNat_ofNat {n : ℕ} (h : n.isValidChar) : (Char.ofNat n).toNat = n := by
  rw [Char.ofNat, dif_pos h]
  exact UInt32.toNat_ofNatLT

theorem utf8Char_four (hlow : 0x10000 ≤ c.toNat) :
    utf8Char c = [BitVec.ofNat 8 (c.toNat / 262144 + 0xf0),
      BitVec.ofNat 8 (c.toNat / 4096 % 64 + 0x80), BitVec.ofNat 8 (c.toNat / 64 % 64 + 0x80),
      BitVec.ofNat 8 (c.toNat % 64 + 0x80)] := by
  have hval : c.val.toNat = c.toNat := rfl
  have hvalid := toNat_valid c
  have h1 : ¬c.val.toNat ≤ 0x7f := by omega
  have h2 : ¬c.val.toNat ≤ 0x7ff := by omega
  have h3 : ¬c.val.toNat ≤ 0xffff := by omega
  have hmod : c.val.toNat / 262144 % 0x08 = c.toNat / 262144 := Nat.mod_eq_of_lt (by omega)
  simp only [utf8Char, String.utf8EncodeChar, if_neg h1, if_neg h2, if_neg h3, hmod]
  rfl

def mark : ℕ → ℕ
  | 1 => 0xc0
  | 2 => 0xe0
  | _ => 0xf0

def leadByte (more a : ℕ) : BitVec 8 := BitVec.ofNat 8 (a + mark more)

def trailByte (k : ℕ) : BitVec 8 := BitVec.ofNat 8 (k + 0x80)

def least : ℕ → ℕ
  | 1 => 0x80
  | 2 => 0x800
  | _ => 0x10000

def joinBits (a : ℕ) (ks : List ℕ) : ℕ := ks.foldl (fun v k => v * 64 + k) a

/-- Bytes that are marked as a sequence, and the number that their other bits
make, be it a character's or not. -/
inductive Spells : ℕ → ℕ → List (BitVec 8) → Prop
  | lead {more a : ℕ} {ks : List ℕ} (hmore : 1 ≤ more ∧ more ≤ 3) (ha : a < 2 ^ (6 - more))
      (hlen : ks.length = more) (hks : ∀ k ∈ ks, k < 64) :
      Spells more (joinBits a ks) (leadByte more a :: ks.map trailByte)

/-- The characters after the first 128 are spelled with no more bytes than they
need. -/
theorem spells_utf8Char (h : 0x80 ≤ c.toNat) :
    ∃ more, Spells more c.toNat (utf8Char c) ∧ least more ≤ c.toNat := by
  have hvalid := toNat_valid c
  by_cases htwo : c.toNat < 0x800
  · have hspells := @Spells.lead 1 (c.toNat / 64) [c.toNat % 64] (by omega) (by omega) rfl
      (by simp [Nat.mod_lt])
    have hjoin : joinBits (c.toNat / 64) [c.toNat % 64] = c.toNat := by
      simp only [joinBits, List.foldl]
      omega
    rw [hjoin] at hspells
    refine ⟨1, ?_, h⟩
    rw [utf8Char_two h htwo]
    exact hspells
  by_cases hthree : c.toNat ≤ 0xffff
  · have hspells := @Spells.lead 2 (c.toNat / 4096) [c.toNat / 64 % 64, c.toNat % 64] (by omega)
      (by omega) rfl (by simp [Nat.mod_lt])
    have hjoin : joinBits (c.toNat / 4096) [c.toNat / 64 % 64, c.toNat % 64] = c.toNat := by
      simp only [joinBits, List.foldl]
      omega
    rw [hjoin] at hspells
    refine ⟨2, ?_, Nat.not_lt.mp htwo⟩
    rw [utf8Char_three (Nat.not_lt.mp htwo) hthree]
    exact hspells
  · have hspells := @Spells.lead 3 (c.toNat / 262144)
      [c.toNat / 4096 % 64, c.toNat / 64 % 64, c.toNat % 64] (by omega) (by omega) rfl
      (by simp [Nat.mod_lt])
    have hjoin : joinBits (c.toNat / 262144)
        [c.toNat / 4096 % 64, c.toNat / 64 % 64, c.toNat % 64] = c.toNat := by
      simp only [joinBits, List.foldl]
      omega
    rw [hjoin] at hspells
    refine ⟨3, ?_, Nat.not_le.mp hthree⟩
    rw [utf8Char_four (Nat.not_le.mp hthree)]
    exact hspells

/-- The character with a number that is one's, spelled no longer than it need
be. -/
theorem utf8Char_of_spells {more v : ℕ} {bytes : List (BitVec 8)} (h : Spells more v bytes)
    (hleast : least more ≤ v) (hc : c.toNat = v) : bytes = utf8Char c := by
  cases h with
  | @lead a ks hmore ha hlen hks =>
    obtain rfl | rfl | rfl : more = 1 ∨ more = 2 ∨ more = 3 := by omega
    · obtain ⟨k, rfl⟩ := List.length_eq_one_iff.mp hlen
      have hk : k < 64 := hks k (by simp)
      have hv : c.toNat = a * 64 + k := hc
      have hlow : 0x80 ≤ a * 64 + k := hleast
      have htop : c.toNat / 64 = a := by omega
      have hbottom : c.toNat % 64 = k := by omega
      rw [utf8Char_two (by omega) (by omega), htop, hbottom]
      rfl
    · obtain ⟨j, k, rfl⟩ := List.length_eq_two.mp hlen
      have hj : j < 64 := hks j (by simp)
      have hk : k < 64 := hks k (by simp)
      have hv : c.toNat = (a * 64 + j) * 64 + k := hc
      have hlow : 0x800 ≤ (a * 64 + j) * 64 + k := hleast
      have htop : c.toNat / 4096 = a := by omega
      have hmiddle : c.toNat / 64 % 64 = j := by omega
      have hbottom : c.toNat % 64 = k := by omega
      rw [utf8Char_three (by omega) (by omega), htop, hmiddle, hbottom]
      rfl
    · obtain ⟨i, j, k, rfl⟩ := List.length_eq_three.mp hlen
      have hi : i < 64 := hks i (by simp)
      have hj : j < 64 := hks j (by simp)
      have hk : k < 64 := hks k (by simp)
      have hv : c.toNat = ((a * 64 + i) * 64 + j) * 64 + k := hc
      have hlow : 0x10000 ≤ ((a * 64 + i) * 64 + j) * 64 + k := hleast
      have htop : c.toNat / 262144 = a := by omega
      have hsecond : c.toNat / 4096 % 64 = i := by omega
      have hthird : c.toNat / 64 % 64 = j := by omega
      have hbottom : c.toNat % 64 = k := by omega
      rw [utf8Char_four (by omega), htop, hsecond, hthird, hbottom]
      rfl

theorem toNat_leadByte {more a : ℕ} (hmore : 1 ≤ more ∧ more ≤ 3) (ha : a < 2 ^ (6 - more)) :
    (leadByte more a).toNat = a + mark more ∧ a + mark more < 0x100 := by
  obtain rfl | rfl | rfl : more = 1 ∨ more = 2 ∨ more = 3 := by omega
  all_goals
    simp only [leadByte, mark, BitVec.toNat_ofNat] at ha ⊢
    omega

theorem toNat_trailByte {k : ℕ} (hk : k < 64) : (trailByte k).toNat = k + 0x80 := by
  rw [trailByte, BitVec.toNat_ofNat, Nat.mod_eq_of_lt (by omega)]

theorem map_trailByte_inj {ks js : List ℕ} (hks : ∀ k ∈ ks, k < 64) (hjs : ∀ k ∈ js, k < 64)
    (h : ks.map trailByte = js.map trailByte) : ks = js := by
  have hback : ∀ ls : List ℕ, (∀ k ∈ ls, k < 64) →
      (ls.map trailByte).map (fun b => b.toNat - 0x80) = ls := by
    intro ls hls
    rw [List.map_map]
    refine (List.map_congr_left fun k hk => ?_).trans (List.map_id ls)
    rw [Function.comp_apply, toNat_trailByte (hls k hk), Nat.add_sub_cancel, id]
  rw [← hback ks hks, h, hback js hjs]

/-- What bytes spell is decided by how they begin. -/
theorem Spells.unique {more more' v v' : ℕ} {bytes bytes' rest rest' : List (BitVec 8)}
    (h : Spells more v bytes) (h' : Spells more' v' bytes')
    (heq : bytes ++ rest = bytes' ++ rest') : more = more' ∧ v = v' := by
  cases h with
  | @lead a ks hmore ha hlen hks =>
    cases h' with
    | @lead a' ks' hmore' ha' hlen' hks' =>
      obtain ⟨hlead, htail⟩ := List.cons.inj heq
      have hnum := congrArg BitVec.toNat hlead
      rw [(toNat_leadByte hmore ha).1, (toNat_leadByte hmore' ha').1] at hnum
      have hmores : more = more' ∧ a = a' := by
        obtain rfl | rfl | rfl : more = 1 ∨ more = 2 ∨ more = 3 := by omega
        all_goals
          obtain rfl | rfl | rfl : more' = 1 ∨ more' = 2 ∨ more' = 3 := by omega
          all_goals
            simp only [mark] at hnum ha ha'
            omega
      obtain ⟨rfl, rfl⟩ := hmores
      have hmap := (List.append_inj htail (by simp [hlen, hlen'])).1
      rw [map_trailByte_inj hks hks' hmap]
      exact ⟨rfl, rfl⟩

theorem longestPrefix_take {α : Type} {fits : List α → Prop} {k : ℕ} (text : List α)
    (h : ∀ front, fits front ↔ front.length ≤ k) : LongestPrefix fits text (text.take k) where
  start := List.take_prefix k text
  fit := (h _).mpr (List.length_take_le k text)
  longest := by
    intro other hother hfits
    exact List.prefix_take_iff.mpr ⟨hother, (h other).mp hfits⟩

end Lib.Characters
