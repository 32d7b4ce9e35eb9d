import Mathlib.Data.List.TakeWhile
import RelayBoard.Lib.Scanning

/-!
# Numbers in text

`strtol` and its relatives of the C library: white space, a sign, for base 16
an optional `0x`, and digits as far as they go. Where there are none, the end
pointer is the beginning.
-/

set_option autoImplicit false

namespace Lib.Numerals
open Lib.Scanning

def isSpace (c : BitVec 8) : Bool := c = 0x20#8 || decide (0x09#8 ≤ c) && decide (c ≤ 0x0d#8)

/-- The value of a digit, letters in either case being those from ten on. -/
def digitValue (c : BitVec 8) : Option ℕ :=
  if 0x30#8 ≤ c ∧ c ≤ 0x39#8 then some (c.toNat - 0x30)
  else if 0x61#8 ≤ c ∧ c ≤ 0x7a#8 then some (c.toNat - 0x61 + 10)
  else if 0x41#8 ≤ c ∧ c ≤ 0x5a#8 then some (c.toNat - 0x41 + 10)
  else none

def digitOf (base : ℕ) (c : BitVec 8) : Option ℕ := (digitValue c).filter (· < base)

def isNumeral (c : BitVec 8) : Bool := (digitValue c).isSome || c = 0x2d#8 || c = 0x2b#8

def numberFrom (base v : ℕ) (ds : List (BitVec 8)) : ℕ :=
  ds.foldl (fun v c => v * base + (digitOf base c).getD 0) v

def readNumber (base v : ℕ) : List (BitVec 8) → Option (ℕ × List (BitVec 8))
  | [] => none
  | c :: s =>
    match digitOf base c with
    | some d => readNumber base (v * base + d) s
    | none => some (v, c :: s)

def readSign : List (BitVec 8) → Option (Bool × List (BitVec 8))
  | [] => none
  | c :: s =>
    if c = 0x2d#8 then some (true, s) else if c = 0x2b#8 then some (false, s)
    else some (false, c :: s)

def isX (c : BitVec 8) : Bool := c = 0x78#8 || c = 0x58#8

def skipPrefix (p : List (BitVec 8)) : Option (List (BitVec 8)) := do
  let c ← p[0]?
  if c = 0x30#8 then
    let x ← p[1]?
    if isX x then
      let d ← p[2]?
      return if (digitOf 16 d).isSome then p.drop 2 else p
    else return p
  else return p

def readPrefix (base : ℕ) (p : List (BitVec 8)) : Option (List (BitVec 8)) :=
  if base = 16 then skipPrefix p else some p

/-- Whether there is a minus sign, the number after it, and where it ends. -/
def strto (base : ℕ) (p : List (BitVec 8)) : Option (Bool × ℕ × List (BitVec 8)) := do
  let s ← scanWhile isSpace p
  let (negative, s) ← readSign s
  let s ← readPrefix base s
  let (v, stop) ← readNumber base 0 s
  return if stop.length = s.length then (false, 0, p) else (negative, v, stop)

/-- `strtol` where `long` has this many bits. -/
def strtol (bits base : ℕ) (p : List (BitVec 8)) : Option (ℤ × List (BitVec 8)) := do
  let (negative, v, stop) ← strto base p
  return (if negative then max (-(v : ℤ)) (-2 ^ (bits - 1)) else min (v : ℤ) (2 ^ (bits - 1) - 1),
    stop)

/-- `strtoul` where `long` has this many bits. -/
def strtoul (bits base : ℕ) (p : List (BitVec 8)) : Option (BitVec bits × List (BitVec 8)) := do
  let (negative, v, stop) ← strto base p
  return (if 2 ^ bits ≤ v then BitVec.allOnes bits
    else if negative then -BitVec.ofNat bits v else BitVec.ofNat bits v, stop)

section Terminated

variable {base v : ℕ} {text : List (BitVec 8)}

theorem readNumber_append (ds : List (BitVec 8)) (hds : ∀ d ∈ ds, (digitOf base d).isSome)
    {c : BitVec 8} (hc : digitOf base c = none) (s : List (BitVec 8)) :
    readNumber base v (ds ++ c :: s) = some (numberFrom base v ds, c :: s) := by
  induction ds generalizing v with
  | nil => rw [List.nil_append, readNumber, hc]; rfl
  | cons d ds ih =>
    obtain ⟨n, hn⟩ := Option.isSome_iff_exists.mp (hds d (List.mem_cons_self ..))
    rw [List.cons_append, readNumber, hn]
    dsimp only
    rw [ih fun e he => hds e (List.mem_cons_of_mem d he), numberFrom, numberFrom, List.foldl_cons,
      hn]
    rfl

theorem isNumeral_of_digitOf {d : BitVec 8} (h : (digitOf base d).isSome) :
    isNumeral d = true := by
  obtain ⟨n, hn⟩ := Option.isSome_iff_exists.mp h
  rw [digitOf, Option.filter_eq_some_iff] at hn
  rw [isNumeral, hn.1]
  rfl

theorem readNumber_terminated (base v : ℕ) (text : List (BitVec 8)) :
    ∃ n ds rest, readNumber base v (terminated text) = some (n, terminated rest) ∧
      text = ds ++ rest ∧ ∀ c ∈ ds, isNumeral c = true := by
  induction text generalizing v with
  | nil =>
    refine ⟨v, [], [], ?_, rfl, by simp⟩
    show (match digitOf base 0#8 with
      | some d => readNumber base (v * base + d) []
      | none => some (v, [0#8])) = _
    rw [show digitOf base 0#8 = none from rfl]
    rfl
  | cons c text ih =>
    rw [terminated_cons, readNumber]
    cases hc : digitOf base c with
    | some d =>
      obtain ⟨n, ds, rest, hread, rfl, hds⟩ := ih (v * base + d)
      refine ⟨n, c :: ds, rest, hread, rfl, fun e he => ?_⟩
      rcases List.mem_cons.mp he with rfl | he
      · exact isNumeral_of_digitOf (by rw [hc]; rfl)
      · exact hds e he
    | none => exact ⟨v, [], c :: text, rfl, rfl, by simp⟩

theorem readSign_terminated (text : List (BitVec 8)) :
    ∃ negative sign rest, readSign (terminated text) = some (negative, terminated rest) ∧
      text = sign ++ rest ∧ ∀ c ∈ sign, isNumeral c = true := by
  cases text with
  | nil => exact ⟨false, [], [], by decide, rfl, by simp⟩
  | cons c text =>
    rw [terminated_cons, readSign]
    split_ifs with hminus hplus
    · exact ⟨true, [c], text, rfl, rfl, by simp [hminus, isNumeral]⟩
    · exact ⟨false, [c], text, rfl, rfl, by simp [hplus, isNumeral]⟩
    · exact ⟨false, [], c :: text, rfl, rfl, by simp⟩

theorem isNumeral_of_isX : ∀ x : BitVec 8, isX x = true → isNumeral x = true := by
  decide +kernel

theorem skipPrefix_terminated (text : List (BitVec 8)) :
    ∃ zerox rest, skipPrefix (terminated text) = some (terminated rest) ∧
      text = zerox ++ rest ∧ ∀ c ∈ zerox, isNumeral c = true := by
  have hkeep : ∃ zerox rest, some (terminated text) = some (terminated rest) ∧
      text = zerox ++ rest ∧ ∀ c ∈ zerox, isNumeral c = true :=
    ⟨[], text, rfl, rfl, by simp⟩
  cases text with
  | nil => exact ⟨[], [], by decide, rfl, by simp⟩
  | cons c text =>
    by_cases hzero : c = 0x30#8
    · cases text with
      | nil =>
        subst hzero
        exact ⟨[], [0x30#8], by decide, rfl, by simp⟩
      | cons x text =>
        cases hx : isX x with
        | false => simpa [skipPrefix, terminated, hzero, hx] using hkeep
        | true =>
          cases text with
          | nil => simpa [skipPrefix, terminated, hzero, hx, digitOf, digitValue] using hkeep
          | cons d text =>
            cases hd : (digitOf 16 d).isSome with
            | false => simpa [skipPrefix, terminated, hzero, hx, hd] using hkeep
            | true =>
              refine ⟨[c, x], d :: text, by simp [skipPrefix, terminated, hzero, hx, hd], rfl,
                fun e he => ?_⟩
              rcases List.mem_pair.mp he with rfl | rfl
              · subst hzero
                decide
              · exact isNumeral_of_isX _ hx
    · simpa [skipPrefix, terminated, hzero] using hkeep

/-- A number is read from any text, and the read stays within it: it goes over
white space and over what a number is written with. -/
theorem strto_split (base : ℕ) (text : List (BitVec 8)) :
    ∃ negative n spaces word rest,
      strto base (terminated text) = some (negative, n, terminated rest) ∧
      text = spaces ++ (word ++ rest) ∧ (∀ c ∈ spaces, isSpace c = true) ∧
      ∀ c ∈ word, isNumeral c = true := by
  obtain ⟨negative, sign, signed, hsign, hsigned, hsignall⟩ :=
    readSign_terminated (text.dropWhile isSpace)
  have hskip : ∃ zerox start, readPrefix base (terminated signed) = some (terminated start) ∧
      signed = zerox ++ start ∧ ∀ c ∈ zerox, isNumeral c = true := by
    unfold readPrefix
    split_ifs
    · exact skipPrefix_terminated signed
    · exact ⟨[], signed, rfl, rfl, by simp⟩
  obtain ⟨zerox, start, hstart, hzerox, hzeroxall⟩ := hskip
  obtain ⟨n, ds, rest, hread, hds, hdsall⟩ := readNumber_terminated base 0 start
  have hstrto : strto base (terminated text) = some (if (terminated rest).length =
      (terminated start).length then (false, 0, terminated text)
        else (negative, n, terminated rest)) := by
    rw [strto, scanWhile_terminated (by decide)]
    simp only [Option.bind_eq_bind, Option.bind_some, hsign, hstart, hread]
    rfl
  rw [hstrto]
  split_ifs
  · exact ⟨false, 0, [], [], text, rfl, rfl, by simp, by simp⟩
  · refine ⟨negative, n, text.takeWhile isSpace, sign ++ (zerox ++ ds), rest, rfl, ?_,
      fun c hc => List.mem_takeWhile_imp hc, fun c hc => ?_⟩
    · have hafter : text.dropWhile isSpace = sign ++ (zerox ++ ds) ++ rest := by
        rw [hsigned, hzerox, hds]
        simp only [List.append_assoc]
      rw [← hafter, List.takeWhile_append_dropWhile]
    · rcases List.mem_append.mp hc with hc | hc
      · exact hsignall c hc
      · exact (List.mem_append.mp hc).elim (hzeroxall c) (hdsall c)

theorem strtol_split (bits base : ℕ) (text : List (BitVec 8)) :
    ∃ n spaces word rest, strtol bits base (terminated text) = some (n, terminated rest) ∧
      text = spaces ++ (word ++ rest) ∧ (∀ c ∈ spaces, isSpace c = true) ∧
      ∀ c ∈ word, isNumeral c = true := by
  obtain ⟨negative, n, spaces, word, rest, hstrto, h⟩ := strto_split base text
  rw [strtol, hstrto]
  exact ⟨_, spaces, word, rest, rfl, h⟩

theorem strtoul_split (bits base : ℕ) (text : List (BitVec 8)) :
    ∃ n spaces word rest, strtoul bits base (terminated text) = some (n, terminated rest) ∧
      text = spaces ++ (word ++ rest) ∧ (∀ c ∈ spaces, isSpace c = true) ∧
      ∀ c ∈ word, isNumeral c = true := by
  obtain ⟨negative, n, spaces, word, rest, hstrto, h⟩ := strto_split base text
  rw [strtoul, hstrto]
  exact ⟨_, spaces, word, rest, rfl, h⟩

end Terminated

section Digits

variable {base : ℕ} {ds : List (BitVec 8)} {c : BitVec 8}

/-- A digit is neither white space nor a sign nor an `x` before others. -/
theorem digitOf_start {d : BitVec 8} (h : (digitOf 16 d).isSome) :
    isSpace d = false ∧ d ≠ 0x2d#8 ∧ d ≠ 0x2b#8 ∧ isX d = false := by
  revert d
  decide +kernel

theorem digitOf_hex {d : BitVec 8} (hbase : base ≤ 16) (h : (digitOf base d).isSome) :
    (digitOf 16 d).isSome := by
  obtain ⟨n, hn⟩ := Option.isSome_iff_exists.mp h
  rw [digitOf, Option.filter_eq_some_iff, decide_eq_true_iff] at hn
  have hn' : digitOf 16 d = some n := by
    rw [digitOf, Option.filter_eq_some_iff, decide_eq_true_iff]
    exact ⟨hn.1, hn.2.trans_le hbase⟩
  rw [hn']
  rfl

/-- Digits that something else follows are read as their number, with the sign
that stands before them. -/
theorem strto_signed (negative : Bool) (hbase : base ≤ 16) (hne : ds ≠ [])
    (hds : ∀ d ∈ ds, (digitOf base d).isSome) (hc : digitOf base c = none) (hx : isX c = false)
    (s : List (BitVec 8)) :
    strto base ((if negative then [0x2d#8] else []) ++ (ds ++ c :: s)) =
      some (negative, numberFrom base 0 ds, c :: s) := by
  have hhex : ∀ d ∈ ds, (digitOf 16 d).isSome := fun d hd => digitOf_hex hbase (hds d hd)
  have hprefix : readPrefix base (ds ++ c :: s) = some (ds ++ c :: s) := by
    unfold readPrefix skipPrefix
    match ds, hhex with
    | [], _ => exact absurd rfl hne
    | [d], _ => simp [hx]
    | d :: e :: rest, hhex =>
      have he := (digitOf_start (hhex e (by simp))).2.2.2
      simp [he]
  have hspaces : scanWhile isSpace ((if negative then [0x2d#8] else []) ++ (ds ++ c :: s)) =
      some ((if negative then [0x2d#8] else []) ++ (ds ++ c :: s)) ∧
        readSign ((if negative then [0x2d#8] else []) ++ (ds ++ c :: s)) =
          some (negative, ds ++ c :: s) := by
    cases negative with
    | true => exact ⟨by rw [if_pos rfl, List.singleton_append, scanWhile]; rfl, rfl⟩
    | false =>
      obtain ⟨d, rest, rfl⟩ := List.exists_cons_of_ne_nil hne
      obtain ⟨hspace, hminus, hplus, -⟩ := digitOf_start (hhex d (by simp))
      rw [if_neg Bool.false_ne_true, List.nil_append, List.cons_append]
      exact ⟨by rw [scanWhile, hspace]; rfl, by rw [readSign, if_neg hminus, if_neg hplus]⟩
  have hshort : ¬(c :: s).length = (ds ++ c :: s).length := by
    rw [List.length_append]
    have hpos := List.length_pos_of_ne_nil hne
    omega
  rw [strto, hspaces.1]
  simp only [Option.bind_eq_bind, Option.bind_some, hspaces.2, hprefix,
    readNumber_append ds hds hc s, hshort, if_false]
  rfl

theorem strto_digits (hbase : base ≤ 16) (hne : ds ≠ [])
    (hds : ∀ d ∈ ds, (digitOf base d).isSome) (hc : digitOf base c = none) (hx : isX c = false)
    (s : List (BitVec 8)) :
    strto base (ds ++ c :: s) = some (false, numberFrom base 0 ds, c :: s) :=
  strto_signed false hbase hne hds hc hx s

theorem digitOf_ten : ∀ d : BitVec 8, isDigit d = true → digitOf 10 d = some (digit d) := by
  decide +kernel

theorem numberFrom_ten (v : ℕ) (hds : ∀ d ∈ ds, isDigit d = true) :
    numberFrom 10 v ds = valueFrom v ds := by
  induction ds generalizing v with
  | nil => rfl
  | cons d ds ih =>
    have hd := digitOf_ten d (hds d (List.mem_cons_self ..))
    rw [numberFrom, List.foldl_cons, hd]
    exact ih _ fun e he => hds e (List.mem_cons_of_mem d he)

theorem strto_decimal (negative : Bool) (hne : ds ≠ []) (hds : ∀ d ∈ ds, isDigit d = true)
    (hc : digitOf 10 c = none) (hx : isX c = false) (s : List (BitVec 8)) :
    strto 10 ((if negative then [0x2d#8] else []) ++ (ds ++ c :: s)) =
      some (negative, value ds, c :: s) := by
  rw [strto_signed negative (by decide) hne (fun d hd => by rw [digitOf_ten d (hds d hd)]; rfl) hc
    hx, numberFrom_ten 0 hds]
  rfl

end Digits

end Lib.Numerals
