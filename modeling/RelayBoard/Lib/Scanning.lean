import Mathlib.Data.BitVec
import Mathlib.Data.List.Basic

/-!
# Scanning text in memory

A pointer into a text is the list of the bytes that may be read from it on, the
terminating zero last. A scan that reads further has no result, so a result for
every text is the proof that a scan stays within it.
-/

set_option autoImplicit false

namespace Lib.Scanning

/-- A text without zero bytes and the zero that ends it. -/
def terminated (text : List (BitVec 8)) : List (BitVec 8) := text ++ [0#8]

def isDigit (c : BitVec 8) : Bool := decide (0x30#8 ≤ c) && decide (c ≤ 0x39#8)

def digit (c : BitVec 8) : ℕ := c.toNat - 0x30

def digitChar (d : ℕ) : BitVec 8 := BitVec.ofNat 8 (0x30 + d)

def valueFrom (v : ℕ) (ds : List (BitVec 8)) : ℕ := ds.foldl (fun v c => v * 10 + digit c) v

def value (ds : List (BitVec 8)) : ℕ := valueFrom 0 ds

/-- Takes digits while there are fewer than `cap`, and returns how many were
taken, their value and where it stopped. -/
def scanDigits (cap digits v : ℕ) : List (BitVec 8) → Option (ℕ × ℕ × List (BitVec 8))
  | [] => none
  | c :: s =>
    if isDigit c && decide (digits < cap) then scanDigits cap (digits + 1) (v * 10 + digit c) s
    else some (digits, v, c :: s)

/-- Compares with a literal and stops at the first difference. -/
def startsWith : List (BitVec 8) → List (BitVec 8) → Option Bool
  | [], _ => some true
  | _ :: _, [] => none
  | l :: literal, c :: s => if c = l then startsWith literal s else some false

/-- Goes on while the byte read is such. -/
def scanWhile (go : BitVec 8 → Bool) : List (BitVec 8) → Option (List (BitVec 8))
  | [] => none
  | c :: s => if go c then scanWhile go s else some (c :: s)

/-- Goes on while the byte read is such, as far as the pointer `stop`. -/
def scanBefore (stop : List (BitVec 8)) (go : BitVec 8 → Bool) : List (BitVec 8) → List (BitVec 8)
  | [] => []
  | c :: s => if stop.length < (c :: s).length && go c then scanBefore stop go s else c :: s

theorem isDigit_iff (c : BitVec 8) : isDigit c = true ↔ 0x30 ≤ c.toNat ∧ c.toNat ≤ 0x39 := by
  rw [isDigit, Bool.and_eq_true, decide_eq_true_iff, decide_eq_true_iff, BitVec.le_def,
    BitVec.le_def]
  rfl

theorem isDigit_zero : isDigit 0#8 = false := by decide

theorem toNat_digitChar {d : ℕ} (h : d ≤ 9) : (digitChar d).toNat = 0x30 + d := by
  rw [digitChar, BitVec.toNat_ofNat, Nat.mod_eq_of_lt (by omega)]

theorem isDigit_digitChar {d : ℕ} (h : d ≤ 9) : isDigit (digitChar d) = true := by
  rw [isDigit_iff, toNat_digitChar h]
  omega

theorem digit_digitChar {d : ℕ} (h : d ≤ 9) : digit (digitChar d) = d := by
  rw [digit, toNat_digitChar h]
  omega

@[simp] theorem terminated_cons (c : BitVec 8) (text : List (BitVec 8)) :
    terminated (c :: text) = c :: terminated text := rfl

theorem terminated_append (front rest : List (BitVec 8)) :
    terminated (front ++ rest) = front ++ terminated rest := List.append_assoc _ _ _

theorem terminated_inj {text other : List (BitVec 8)} (h : terminated text = terminated other) :
    text = other := List.append_cancel_right h

theorem terminated_head (text : List (BitVec 8)) (h : 0#8 ∉ text) :
    ∃ c, (terminated text)[0]? = some c ∧ (c = 0#8 ↔ text = []) := by
  cases text with
  | nil => exact ⟨0#8, rfl, by simp⟩
  | cons c text => exact ⟨c, rfl, by simpa using fun hc => h (by simp [hc])⟩

variable {cap digits v : ℕ}

theorem scanDigits_terminated (text : List (BitVec 8)) (hcap : digits ≤ cap) :
    ∃ ds rest, text = ds ++ rest ∧
      scanDigits cap digits v (terminated text) =
        some (digits + ds.length, valueFrom v ds, terminated rest) ∧
      (∀ c ∈ ds, isDigit c = true) ∧ digits + ds.length ≤ cap := by
  induction text generalizing digits v with
  | nil => exact ⟨[], [], rfl, by simp [terminated, scanDigits, isDigit_zero, valueFrom], by simp,
      hcap⟩
  | cons c text ih =>
    rw [terminated_cons, scanDigits]
    by_cases hc : (isDigit c && decide (digits < cap)) = true
    · rw [if_pos hc]
      rw [Bool.and_eq_true, decide_eq_true_iff] at hc
      obtain ⟨ds, rest, rfl, hscan, hds, hlen⟩ := ih (v := v * 10 + digit c) hc.2
      refine ⟨c :: ds, rest, rfl, ?_, ?_, ?_⟩
      · rw [hscan, List.length_cons, Nat.succ_add_eq_add_succ]
        rfl
      · intro d hd
        rcases List.mem_cons.mp hd with rfl | hd
        · exact hc.1
        · exact hds d hd
      · rw [List.length_cons]
        omega
    · rw [if_neg hc]
      exact ⟨[], c :: text, rfl, rfl, by simp, hcap⟩

theorem scanDigits_append (ds : List (BitVec 8)) (hds : ∀ c ∈ ds, isDigit c = true)
    (hcap : digits + ds.length ≤ cap) (c : BitVec 8) (s : List (BitVec 8))
    (hc : isDigit c = false) :
    scanDigits cap digits v (ds ++ c :: s) =
      some (digits + ds.length, valueFrom v ds, c :: s) := by
  induction ds generalizing digits v with
  | nil =>
    rw [List.nil_append, scanDigits, hc]
    rfl
  | cons d ds ih =>
    rw [List.length_cons] at hcap
    have hd : (isDigit d && decide (digits < cap)) = true := by
      rw [hds d (List.mem_cons_self ..), Bool.true_and, decide_eq_true_iff]
      omega
    rw [List.cons_append, scanDigits, if_pos hd,
      ih (fun e he => hds e (List.mem_cons_of_mem d he)) (by omega), List.length_cons]
    congr 2
    omega

theorem scanWhile_append {go : BitVec 8 → Bool} {c : BitVec 8} (hc : go c = false)
    (text s : List (BitVec 8)) :
    scanWhile go (text ++ c :: s) = some (text.dropWhile go ++ c :: s) := by
  induction text with
  | nil => simp [scanWhile, hc]
  | cons d text ih =>
    rw [List.cons_append, scanWhile, List.dropWhile_cons]
    cases hd : go d
    · rfl
    · exact ih

/-- A scan which the terminating zero stops. -/
theorem scanWhile_terminated {go : BitVec 8 → Bool} (hzero : go 0#8 = false)
    (text : List (BitVec 8)) :
    scanWhile go (terminated text) = some (terminated (text.dropWhile go)) :=
  scanWhile_append hzero text []

theorem dropWhile_stop {go : BitVec 8 → Bool} {text rest : List (BitVec 8)} {c : BitVec 8}
    (h : text.dropWhile go = c :: rest) : go c = false := by
  have hne : text.dropWhile go ≠ [] := by simp [h]
  have hhead := List.head_dropWhile_not go hne
  simpa only [h, List.head_cons] using hhead

theorem dropWhile_nonzero {go : BitVec 8 → Bool} {text : List (BitVec 8)} (h : 0#8 ∉ text) :
    text.dropWhile (fun c => c != 0#8 && go c) = text.dropWhile go := by
  induction text with
  | nil => rfl
  | cons c text ih =>
    have hc : (c != 0#8) = true := bne_iff_ne.mpr fun hc => h (by simp [hc])
    rw [List.dropWhile_cons, List.dropWhile_cons, hc, Bool.true_and,
      ih fun hmem => h (List.mem_cons_of_mem c hmem)]

theorem scanBefore_append (stop : List (BitVec 8)) (go : BitVec 8 → Bool)
    (text : List (BitVec 8)) :
    scanBefore stop go (text ++ stop) = text.dropWhile go ++ stop := by
  induction text with
  | nil =>
    cases stop with
    | nil => rfl
    | cons c s =>
      rw [List.nil_append, scanBefore, decide_eq_false (Nat.lt_irrefl _)]
      rfl
  | cons d text ih =>
    have hbefore : stop.length < (d :: (text ++ stop)).length := by
      rw [List.length_cons, List.length_append]
      omega
    rw [List.cons_append, scanBefore, decide_eq_true hbefore, Bool.true_and, List.dropWhile_cons]
    cases hd : go d
    · rfl
    · exact ih

theorem startsWith_terminated (literal text : List (BitVec 8)) (h : 0#8 ∉ literal) :
    ∃ b, startsWith literal (terminated text) = some b ∧
      (b = true ↔ ∃ rest, text = literal ++ rest) := by
  induction literal generalizing text with
  | nil => exact ⟨true, rfl, by simp⟩
  | cons l literal ih =>
    have hl : ¬0#8 = l := fun hl => h (by simp [hl])
    cases text with
    | nil => exact ⟨false, if_neg hl, by simp⟩
    | cons c text =>
      rw [terminated_cons, startsWith]
      by_cases hc : c = l
      · obtain ⟨b, hb, hiff⟩ := ih text (fun hmem => h (List.mem_cons_of_mem l hmem))
        refine ⟨b, by rw [if_pos hc, hb], ?_⟩
        rw [hiff, hc]
        simp
      · refine ⟨false, if_neg hc, ?_⟩
        simp [hc]

end Lib.Scanning
