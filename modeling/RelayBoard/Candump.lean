import RelayBoard.CanReceive
import RelayBoard.Lib.Numerals
import RelayBoard.ScheduleText

/-!
# Frames as lines of text

`candump_encode` and `candump_decode` of `candump_format.cpp`: a frame as the
line `(seconds.microseconds) interface ID#DATA` and back. What is decoded comes
from the network and may be any text.
-/

set_option autoImplicit false

namespace RelayBoard
open Lib.Scanning Lib.Numerals

/-- `hex_nibble`, none for -1. -/
def hexNibble (c : Byte) : Option Byte :=
  if 0x30#8 ≤ c ∧ c ≤ 0x39#8 then some (c - 0x30#8)
  else if 0x61#8 ≤ c ∧ c ≤ 0x66#8 then some (c - 0x61#8 + 10#8)
  else if 0x41#8 ≤ c ∧ c ≤ 0x46#8 then some (c - 0x41#8 + 10#8)
  else none

def hexUpper (v : BitVec 4) : Byte :=
  if v < 10#4 then 0x30#8 + v.setWidth 8 else 0x37#8 + v.setWidth 8

def hexByte (b : Byte) : List Byte := [hexUpper (b.extractLsb' 4 4), hexUpper (b.extractLsb' 0 4)]

def hexWord (id : BitVec 32) : List Byte :=
  [28, 24, 20, 16, 12, 8, 4, 0].map fun k => hexUpper (id.extractLsb' k 4)

def signedDecimal (n : ℤ) : List Byte :=
  if n < 0 then 0x2d#8 :: decimal n.natAbs else decimal n.natAbs

def paddedDecimal (n : ℤ) : List Byte :=
  let digits := decimal n.natAbs
  if n < 0 then 0x2d#8 :: (List.replicate (5 - digits.length) 0x30#8 ++ digits)
  else List.replicate (6 - digits.length) 0x30#8 ++ digits

/-- `struct timeval`. -/
structure Timeval where
  sec : ℤ
  usec : ℤ

def candumpTime (now : Timeval) (m : CanMessage) : ℤ × ℤ :=
  if 1577836800 < now.sec then (now.sec, now.usec)
  else (m.timestampUs.toInt.tdiv 1000000, m.timestampUs.toInt.tmod 1000000)

def CanFrame.payload (f : CanFrame) : List Byte := (List.ofFn f.data).take f.dlc.toNat

def candumpData (m : CanMessage) : List Byte := m.frame.payload.flatMap hexByte

def candumpFront (now : Timeval) (m : CanMessage) (iface : List Byte) : List Byte :=
  let time := candumpTime now m
  0x28#8 :: (signedDecimal time.1 ++ 0x2e#8 :: (paddedDecimal time.2 ++ 0x29#8 :: 0x20#8 :: iface))

def candumpLine (now : Timeval) (m : CanMessage) (iface : List Byte) : List Byte :=
  candumpFront now m iface ++ 0x20#8 :: (hexWord m.frame.id ++ 0x23#8 :: candumpData m)

/-- `candump_encode`, none for -1. -/
def candumpEncode (now : Timeval) (m : CanMessage) (iface : List Byte) (bufLen : ℕ) :
    Option (List Byte) :=
  let text := candumpLine now m iface ++ [0x0a#8]
  if bufLen ≤ text.length then none else some text

def readFraction (line : List Byte) : Option (ℤ × List Byte) := do
  if (← line.head?) = 0x2e#8 then strtol 64 10 (line.drop 1) else return (0, line)

def skipParen (line : List Byte) : Option (List Byte) := do
  return if (← line.head?) = 0x29#8 then line.drop 1 else line

def readStamp (line : List Byte) : Option (ℤ × ℤ × List Byte) := do
  if (← line.head?) ≠ 0x28#8 then return (0, 0, line)
  let (sec, line) ← strtol 64 10 (line.drop 1)
  let (usec, line) ← readFraction line
  return (sec, usec, ← skipParen line)

def kMaxSec : ℤ := 4000000000

def stampUs (sec usec : ℤ) : ℤ := min (max sec 0) kMaxSec * 1000000 + min (max usec 0) 999999

def isBlank (c : Byte) : Bool := c = 0x20#8

def inIface (c : Byte) : Bool := c ≠ 0x00#8 && c ≠ 0x20#8

def skipIface (line : List Byte) : Option (List Byte) := do
  scanWhile isBlank (← scanWhile inIface (← scanWhile isBlank line))

def readData : ℕ → List Byte → Option (List Byte)
  | 0, _ => some []
  | n + 1, s => do
    match hexNibble (← s[0]?) with
    | none => return []
    | some hi =>
      match hexNibble (← s[1]?) with
      | none => return []
      | some lo => return (hi <<< 4 ||| lo) :: (← readData n (s.drop 2))

def readFrame (line : List Byte) : Option (Option (BitVec 32 × List Byte)) := do
  let (canId, stop) ← strtoul 32 16 line
  if (← stop[0]?) ≠ 0x23#8 then return none
  return some (canId, ← readData 8 (stop.drop 1))

def CanFrame.filled (canId : BitVec 32) (bytes : List Byte) (out : CanFrame) : CanFrame where
  id := canId
  extended := true
  remote := false
  dlc := BitVec.ofNat 8 bytes.length
  data := fun k => bytes.getD k.val (out.data k)

def CanMessage.decoded (out : CanMessage) (stamp : BitVec 64) :
    Option (BitVec 32 × List Byte) → Bool × CanMessage
  | none => (false, ⟨out.frame, stamp⟩)
  | some (canId, bytes) => (decide (0 < bytes.length), ⟨out.frame.filled canId bytes, stamp⟩)

/-- `candump_decode`: its result, and `*out` after it. -/
def candumpDecode (line : List Byte) (out : CanMessage) : Option (Bool × CanMessage) := do
  let line ← scanWhile (fun c => c = 0x20#8 || c = 0x09#8) line
  let (sec, usec, line) ← readStamp line
  return out.decoded (BitVec.ofInt 64 (stampUs sec usec)) (← readFrame (← skipIface line))

theorem hexNibble_zero : hexNibble 0#8 = none := by decide

theorem hexNibble_hexUpper : ∀ v : BitVec 4, hexNibble (hexUpper v) = some (v.setWidth 8) := by
  decide +kernel

theorem hexByte_joined : ∀ b : Byte, ((b.extractLsb' 4 4).setWidth 8 <<< 4 |||
    (b.extractLsb' 0 4).setWidth 8 : Byte) = b := by
  decide +kernel

theorem inIface_stop : ∀ c : Byte, inIface c = false → c = 0x00#8 ∨ c = 0x20#8 := by
  decide +kernel

section Reads

theorem readData_terminated (n : ℕ) (text : List Byte) :
    ∃ bytes, readData n (terminated text) = some bytes ∧ bytes.length ≤ n := by
  induction n generalizing text with
  | zero => exact ⟨[], by unfold readData; rfl, le_rfl⟩
  | succ n ih =>
    have hnone : ∀ {s : List Byte} {c : Byte}, s[0]? = some c → hexNibble c = none →
        readData (n + 1) s = some [] := by
      intro s c hs hc
      simp [readData, hs, hc]
    cases text with
    | nil => exact ⟨[], hnone rfl hexNibble_zero, Nat.zero_le _⟩
    | cons c text =>
      cases hc : hexNibble c with
      | none => exact ⟨[], hnone rfl hc, Nat.zero_le _⟩
      | some hi =>
        cases text with
        | nil => exact ⟨[], by simp [readData, terminated, hc, hexNibble_zero], Nat.zero_le _⟩
        | cons d text =>
          cases hd : hexNibble d with
          | none => exact ⟨[], by simp [readData, hc, hd], Nat.zero_le _⟩
          | some lo =>
            obtain ⟨bytes, hbytes, hlen⟩ := ih text
            exact ⟨(hi <<< 4 ||| lo) :: bytes, by simp [readData, hc, hd, hbytes],
              Nat.succ_le_succ hlen⟩

theorem readFraction_terminated (text : List Byte) :
    ∃ usec front rest, readFraction (terminated text) = some (usec, terminated rest) ∧
      text = front ++ rest := by
  cases text with
  | nil => exact ⟨0, [], [], by decide, rfl⟩
  | cons c text =>
    by_cases hc : c = 0x2e#8
    · obtain ⟨usec, spaces, word, rest, husec, htext, -⟩ := strtol_split 64 10 text
      exact ⟨usec, c :: (spaces ++ word), rest, by simp [readFraction, hc, husec], by simp [htext]⟩
    · exact ⟨0, [], c :: text, by simp [readFraction, hc], rfl⟩

theorem skipParen_terminated (text : List Byte) :
    ∃ front rest, skipParen (terminated text) = some (terminated rest) ∧ text = front ++ rest := by
  cases text with
  | nil => exact ⟨[], [], by decide, rfl⟩
  | cons c text =>
    by_cases hc : c = 0x29#8
    · exact ⟨[c], text, by simp [skipParen, hc], rfl⟩
    · exact ⟨[], c :: text, by simp [skipParen, hc], rfl⟩

theorem readStamp_terminated (text : List Byte) :
    ∃ sec usec front rest, readStamp (terminated text) = some (sec, usec, terminated rest) ∧
      text = front ++ rest := by
  cases text with
  | nil => exact ⟨0, 0, [], [], by decide, rfl⟩
  | cons c text =>
    by_cases hc : c = 0x28#8
    · obtain ⟨sec, spaces, word, fraction, hsec, rfl, -⟩ := strtol_split 64 10 text
      obtain ⟨usec, digits, closing, husec, rfl⟩ := readFraction_terminated fraction
      obtain ⟨paren, rest, hrest, rfl⟩ := skipParen_terminated closing
      refine ⟨sec, usec, c :: (spaces ++ (word ++ (digits ++ paren))), rest, ?_, by simp⟩
      simp [readStamp, hc, hsec, husec, hrest]
    · exact ⟨0, 0, [], c :: text, by simp [readStamp, hc], rfl⟩

/-- The name ends at a space, or the text ends, or a zero byte stands there. -/
theorem skipIface_terminated (text : List Byte) :
    ∃ front rest, skipIface (terminated text) = some (terminated rest) ∧ text = front ++ rest ∧
      rest.head? ≠ some 0x20#8 ∧
      (rest = [] ∨ rest.head? = some 0x00#8 ∨ ∃ before, front = before ++ [0x20#8]) := by
  let named := text.dropWhile isBlank
  let after := named.dropWhile inIface
  let rest := after.dropWhile isBlank
  have hscan : skipIface (terminated text) = some (terminated rest) := by
    have hblank : isBlank 0#8 = false := by decide
    have hname : inIface 0#8 = false := by decide
    unfold skipIface
    simp only [scanWhile_terminated hblank, scanWhile_terminated hname, Option.bind_eq_bind,
      Option.bind_some]
    rfl
  have htext : text = text.takeWhile isBlank ++ (named.takeWhile inIface ++
      (after.takeWhile isBlank ++ rest)) := by
    simp only [named, after, rest, List.takeWhile_append_dropWhile]
  refine ⟨text.takeWhile isBlank ++ (named.takeWhile inIface ++ after.takeWhile isBlank), rest,
    hscan, by simpa only [List.append_assoc] using htext, fun hhead => ?_, ?_⟩
  · obtain ⟨s, hs⟩ : ∃ s, rest = 0x20#8 :: s := by
      cases hr : rest with
      | nil => simp [hr] at hhead
      | cons c s => exact ⟨s, by rw [show c = 0x20#8 by simpa [hr] using hhead]⟩
    exact absurd (dropWhile_stop hs) (by decide)
  · cases hafter : after with
    | nil => exact .inl (by rw [show rest = after.dropWhile isBlank from rfl, hafter]; rfl)
    | cons c s =>
      have hc : inIface c = false := dropWhile_stop hafter
      rcases inIface_stop c hc with rfl | rfl
      · exact .inr (.inl (by rw [show rest = after.dropWhile isBlank from rfl, hafter]; rfl))
      · refine .inr (.inr ?_)
        rcases List.eq_nil_or_concat (after.takeWhile isBlank) with hnil | ⟨init, last, hlast⟩
        · rw [hafter] at hnil
          exact absurd hnil (by simp [isBlank])
        · have hblank : isBlank last = true :=
            List.mem_takeWhile_imp (by rw [hlast]; simp)
          obtain rfl : last = 0x20#8 := by simpa [isBlank] using hblank
          rw [← hafter, hlast]
          exact ⟨text.takeWhile isBlank ++ (named.takeWhile inIface ++ init), by simp⟩

theorem readFrame_terminated (text : List Byte) :
    ∃ result, readFrame (terminated text) = some result ∧
      ∀ canId bytes, result = some (canId, bytes) → bytes.length ≤ 8 ∧
        ∃ spaces word rest, text = spaces ++ (word ++ 0x23#8 :: rest) ∧
          (∀ c ∈ spaces, isSpace c = true) ∧ (∀ c ∈ word, isNumeral c = true) ∧
          strtoul 32 16 (terminated text) = some (canId, terminated (0x23#8 :: rest)) ∧
          readData 8 (terminated rest) = some bytes := by
  obtain ⟨canId, spaces, word, stop, hstrtoul, htext, hspaces, hword⟩ := strtoul_split 32 16 text
  cases stop with
  | nil =>
    refine ⟨none, ?_, fun _ _ h => by cases h⟩
    rw [readFrame, hstrtoul]
    rfl
  | cons c rest =>
    by_cases hc : c = 0x23#8
    · subst hc
      obtain ⟨bytes, hbytes, hlen⟩ := readData_terminated 8 rest
      refine ⟨some (canId, bytes), by simp [readFrame, hstrtoul, hbytes], fun id ds h => ?_⟩
      obtain ⟨rfl, rfl⟩ := Prod.mk.inj (Option.some.inj h)
      exact ⟨hlen, spaces, word, rest, htext, hspaces, hword, hstrtoul, hbytes⟩
    · refine ⟨none, ?_, fun _ _ h => by cases h⟩
      simp [readFrame, hstrtoul, hc]

/-- Whatever the text, decoding stays within it: a stamp, a name and what may be
an identifier and data. -/
theorem candumpDecode_terminated (text : List Byte) (out : CanMessage) :
    ∃ sec usec front rest result,
      candumpDecode (terminated text) out =
        some (out.decoded (BitVec.ofInt 64 (stampUs sec usec)) result) ∧
      readFrame (terminated rest) = some result ∧ text = front ++ rest ∧
      rest.head? ≠ some 0x20#8 ∧
      (rest = [] ∨ rest.head? = some 0x00#8 ∨ ∃ before, front = before ++ [0x20#8]) := by
  let go : Byte → Bool := fun c => c = 0x20#8 || c = 0x09#8
  obtain ⟨sec, usec, stamp, named, hstamp, hdrop⟩ := readStamp_terminated (text.dropWhile go)
  obtain ⟨name, rest, hname, hnamed, hhead, hend⟩ := skipIface_terminated named
  obtain ⟨result, hresult, -⟩ := readFrame_terminated rest
  refine ⟨sec, usec, text.takeWhile go ++ (stamp ++ name), rest, result, ?_, hresult, ?_, hhead,
    ?_⟩
  · have hgo : go 0#8 = false := by decide
    rw [candumpDecode, scanWhile_terminated hgo]
    simp [hstamp, hname, hresult]
  · have htext : text = text.takeWhile go ++ text.dropWhile go :=
      List.takeWhile_append_dropWhile.symm
    rw [hdrop, hnamed] at htext
    simpa only [List.append_assoc] using htext
  · refine hend.imp_right (Or.imp_right fun ⟨before, hbefore⟩ => ?_)
    exact ⟨text.takeWhile go ++ (stamp ++ before), by simp [hbefore]⟩

/-- Where a frame with data is found in a text whose white space is blanks: after
a blank and a word stands the mark, and the data behind it. -/
theorem candumpDecode_found {text : List Byte} {out m : CanMessage}
    (hblank : ∀ c ∈ text, c ≠ 0x00#8 ∧ (isSpace c = true → c = 0x20#8))
    (h : candumpDecode (terminated text) out = some (true, m)) :
    ∃ front word rest canId bytes, text = front ++ 0x20#8 :: (word ++ 0x23#8 :: rest) ∧
      0x20#8 ∉ word ∧ strtoul 32 16 (word ++ 0x23#8 :: terminated rest) =
        some (canId, 0x23#8 :: terminated rest) ∧
      readData 8 (terminated rest) = some bytes ∧ bytes ≠ [] ∧ bytes.length ≤ 8 ∧
      m.frame = out.frame.filled canId bytes := by
  obtain ⟨sec, usec, front, tail, result, hdecode, hframe, htext, hhead, hend⟩ :=
    candumpDecode_terminated text out
  rw [hdecode] at h
  cases result with
  | none => simp [CanMessage.decoded] at h
  | some found =>
    obtain ⟨canId, bytes⟩ := found
    obtain ⟨hpos, rfl⟩ : 0 < bytes.length ∧ m = ⟨out.frame.filled canId bytes,
        BitVec.ofInt 64 (stampUs sec usec)⟩ := by
      simpa [CanMessage.decoded, eq_comm] using h
    obtain ⟨other, hother, hsplit⟩ := readFrame_terminated tail
    rw [hframe] at hother
    obtain ⟨hlen, spaces, word, rest, rfl, hspaces, hword, hstrtoul, hbytes⟩ :=
      hsplit canId bytes (Option.some.inj hother).symm
    -- The name was left at something else than a blank.
    obtain rfl : spaces = [] := by
      cases spaces with
      | nil => rfl
      | cons c spaces =>
        have hc : c = 0x20#8 := (hblank c (by simp [htext])).2 (hspaces c (List.mem_cons_self ..))
        exact absurd (by simp [hc]) hhead
    have hnumeral : ∀ c, isNumeral c = true → c ≠ 0x20#8 := by decide +kernel
    have hbefore : ∃ before, front = before ++ [0x20#8] := by
      rcases hend with hnil | hzero | hbefore
      · simp at hnil
      · have hmem : (0x00#8 : Byte) ∈ text := by
          rw [htext]
          exact List.mem_append_right _ (List.mem_of_mem_head? hzero)
        exact absurd rfl (hblank _ hmem).1
      · exact hbefore
    obtain ⟨before, rfl⟩ := hbefore
    refine ⟨before, word, rest, canId, bytes, by simpa using htext,
      fun hmem => hnumeral _ (hword _ hmem) rfl, ?_, hbytes, List.ne_nil_of_length_pos hpos,
      hlen, rfl⟩
    simpa [terminated] using hstrtoul

end Reads

section RoundTrip

variable {n : ℕ} {ds s : List Byte} {c : Byte}

theorem readData_hex (n : ℕ) (bytes : List Byte) (hc : hexNibble c = none) (s : List Byte) :
    readData n (bytes.flatMap hexByte ++ c :: s) = some (bytes.take n) := by
  induction n generalizing bytes with
  | zero => rw [List.take_zero, readData]
  | succ n ih =>
    cases bytes with
    | nil => simp [readData, hc]
    | cons b bytes =>
      have hjoin := hexByte_joined b
      simp [readData, hexByte, hexNibble_hexUpper, ih bytes, hjoin]

theorem readData_cut (n : ℕ) {bytes p : List Byte} (hp : p <+: bytes.flatMap hexByte)
    (hc : hexNibble c = none) (s : List Byte) :
    ∃ ds, readData n (p ++ c :: s) = some ds ∧ ds <+: bytes := by
  induction n generalizing bytes p with
  | zero => exact ⟨[], by rw [readData], List.nil_prefix⟩
  | succ n ih =>
    have hstop : readData (n + 1) (c :: s) = some [] := by simp [readData, hc]
    cases bytes with
    | nil =>
      rw [List.flatMap_nil, List.prefix_nil] at hp
      exact ⟨[], by rw [hp]; exact hstop, List.nil_prefix⟩
    | cons b bytes =>
      rw [List.flatMap_cons, hexByte] at hp
      rcases p with - | ⟨hi, - | ⟨lo, p⟩⟩
      · exact ⟨[], hstop, List.nil_prefix⟩
      · obtain ⟨rfl, -⟩ := List.cons_prefix_cons.mp hp
        exact ⟨[], by simp [readData, hexNibble_hexUpper, hc], List.nil_prefix⟩
      · obtain ⟨hfirst, hlo⟩ := List.cons_prefix_cons.mp hp
        obtain ⟨hsecond, hrest⟩ := List.cons_prefix_cons.mp hlo
        subst hfirst hsecond
        obtain ⟨ds, hds, hprefix⟩ := ih hrest
        have hjoin := hexByte_joined b
        exact ⟨b :: ds, by simp [readData, hexNibble_hexUpper, hds, hjoin],
          List.cons_prefix_cons.mpr ⟨rfl, hprefix⟩⟩

theorem digitOf_hexUpper : ∀ v : BitVec 4, digitOf 16 (hexUpper v) = some v.toNat := by
  decide +kernel

theorem numberFrom_hexUpper (v : ℕ) (x : BitVec 4) (ds : List Byte) :
    numberFrom 16 v (hexUpper x :: ds) = numberFrom 16 (v * 16 + x.toNat) ds := by
  rw [numberFrom, List.foldl_cons, digitOf_hexUpper]
  rfl

theorem numberFrom_hexWord (id : BitVec 32) : numberFrom 16 0 (hexWord id) = id.toNat := by
  have hlt := id.isLt
  unfold hexWord
  simp only [List.map_cons, List.map_nil, numberFrom_hexUpper, BitVec.extractLsb'_toNat,
    Nat.shiftRight_eq_div_pow]
  show _ = _
  unfold numberFrom
  rw [List.foldl_nil]
  omega

theorem strtoul_hexWord (id : BitVec 32) (s : List Byte) :
    strtoul 32 16 (hexWord id ++ 0x23#8 :: s) = some (id, 0x23#8 :: s) := by
  have hdigits : ∀ d ∈ hexWord id, (digitOf 16 d).isSome := by
    intro d hd
    obtain ⟨k, -, rfl⟩ := List.mem_map.mp hd
    rw [digitOf_hexUpper]
    rfl
  rw [strtoul, strto_digits (by decide) (by simp [hexWord]) hdigits (by decide) (by decide),
    numberFrom_hexWord]
  simp [id.isLt]

theorem valueFrom_zeros (k : ℕ) (ds : List Byte) :
    value (List.replicate k 0x30#8 ++ ds) = value ds := by
  induction k with
  | zero => rfl
  | succ k ih => exact ih

theorem decimal_ne_nil (n : ℕ) : decimal n ≠ [] := by
  rw [decimal_eq]
  split_ifs <;> simp

/-- A number as far as it fits 64 bits. -/
def saturated (n : ℤ) : ℤ := max (min n (2 ^ 63 - 1)) (-2 ^ 63)

theorem strtol_saturated (n : ℤ) (hne : ds ≠ []) (hds : ∀ d ∈ ds, isDigit d = true)
    (hvalue : value ds = n.natAbs) (hc : digitOf 10 c = none) (hx : isX c = false)
    (s : List Byte) :
    strtol 64 10 ((if n < 0 then [0x2d#8] else []) ++ (ds ++ c :: s)) =
      some (saturated n, c :: s) := by
  have hread := strto_decimal (decide (n < 0)) hne hds hc hx s
  simp only [decide_eq_true_eq] at hread
  rw [strtol, hread, hvalue]
  simp only [Option.bind_eq_bind, Option.bind_some, decide_eq_true_eq]
  show some (_, c :: s) = _
  congr 2
  unfold saturated
  split_ifs with hneg
  · omega
  · omega

theorem strtol_signedDecimal (n : ℤ) (s : List Byte) :
    strtol 64 10 (signedDecimal n ++ 0x2e#8 :: s) = some (saturated n, 0x2e#8 :: s) := by
  obtain ⟨hdigits, hvalue⟩ := decimal_digits n.natAbs
  rw [← strtol_saturated n (decimal_ne_nil _) hdigits hvalue (by decide) (by decide) s]
  unfold signedDecimal
  split_ifs <;> rfl

theorem zeros_digits (k n : ℕ) : (∀ d ∈ List.replicate k 0x30#8 ++ decimal n, isDigit d = true) ∧
    value (List.replicate k 0x30#8 ++ decimal n) = n ∧
    List.replicate k 0x30#8 ++ decimal n ≠ [] := by
  obtain ⟨hdigits, hvalue⟩ := decimal_digits n
  refine ⟨List.forall_mem_append.mpr ⟨fun d hd => ?_, hdigits⟩,
    (valueFrom_zeros k _).trans hvalue,
    List.append_ne_nil_of_right_ne_nil _ (decimal_ne_nil _)⟩
  rw [List.eq_of_mem_replicate hd]
  decide

theorem strtol_paddedDecimal (n : ℤ) (s : List Byte) :
    strtol 64 10 (paddedDecimal n ++ 0x29#8 :: s) = some (saturated n, 0x29#8 :: s) := by
  obtain ⟨hlong, hlong', hne⟩ := zeros_digits (5 - (decimal n.natAbs).length) n.natAbs
  obtain ⟨hshort, hshort', hne'⟩ := zeros_digits (6 - (decimal n.natAbs).length) n.natAbs
  have hneg := strtol_saturated n hne hlong hlong' (by decide) (by decide) (c := 0x29#8) s
  have hpos := strtol_saturated n hne' hshort hshort' (by decide) (by decide) (c := 0x29#8) s
  unfold paddedDecimal
  split_ifs with h
  · rw [if_pos h] at hneg
    exact hneg
  · rw [if_neg h] at hpos
    exact hpos

theorem readStamp_line (sec usec : ℤ) (s : List Byte) :
    readStamp (0x28#8 :: (signedDecimal sec ++ 0x2e#8 :: (paddedDecimal usec ++ 0x29#8 :: s))) =
      some (saturated sec, saturated usec, s) := by
  simp [readStamp, strtol_signedDecimal, readFraction, strtol_paddedDecimal, skipParen]

theorem stampUs_saturated (sec usec : ℤ) :
    stampUs (saturated sec) (saturated usec) = stampUs sec usec := by
  unfold stampUs saturated kMaxSec
  omega

/-- What an interface may be called. -/
structure IfaceName (iface : List Byte) : Prop where
  nonempty : iface ≠ []
  plain : ∀ c ∈ iface, c ≠ 0x00#8 ∧ c ≠ 0x23#8 ∧ isSpace c = false

theorem inIface_plain : ∀ c : Byte, c ≠ 0x00#8 → isSpace c = false → inIface c = true := by
  decide +kernel

theorem hexUpper_plain : ∀ v : BitVec 4, hexUpper v ≠ 0x00#8 ∧ hexUpper v ≠ 0x23#8 ∧
    isSpace (hexUpper v) = false ∧ isBlank (hexUpper v) = false := by
  decide +kernel

theorem skipIface_line {iface : List Byte} (h : IfaceName iface) (hc : isBlank c = false)
    (s : List Byte) : skipIface (0x20#8 :: (iface ++ 0x20#8 :: c :: s)) = some (c :: s) := by
  have hname : ∀ d ∈ iface, inIface d = true := fun d hd =>
    inIface_plain d (h.plain d hd).1 (h.plain d hd).2.2
  have hfirst : scanWhile isBlank (0x20#8 :: (iface ++ 0x20#8 :: c :: s)) =
      some (iface ++ 0x20#8 :: c :: s) := by
    obtain ⟨d, rest, rfl⟩ := List.exists_cons_of_ne_nil h.nonempty
    have hd : isBlank d = false := by
      have hspace := (h.plain d (List.mem_cons_self ..)).2.2
      unfold isBlank
      rw [decide_eq_false_iff_not]
      rintro rfl
      exact absurd hspace (by decide)
    rw [scanWhile, if_pos (by decide), List.cons_append, scanWhile, hd]
    rfl
  have hsecond : scanWhile inIface (iface ++ 0x20#8 :: c :: s) = some (0x20#8 :: c :: s) := by
    rw [scanWhile_append (by decide), List.dropWhile_eq_nil_iff.mpr hname]
    rfl
  have hthird : scanWhile isBlank (0x20#8 :: c :: s) = some (c :: s) := by
    rw [scanWhile, if_pos (by decide), scanWhile, hc]
    rfl
  simp [skipIface, hfirst, hsecond, hthird]

theorem CanFrame.length_payload (f : CanFrame) : f.payload.length = min f.dlc.toNat 8 := by
  rw [CanFrame.payload, List.length_take, List.length_ofFn]

theorem CanFrame.payload_pos (f : CanFrame) : 0 < f.payload.length ↔ f.dlc ≠ 0#8 := by
  rw [CanFrame.length_payload, ne_eq, ← BitVec.toNat_inj]
  show 0 < min f.dlc.toNat 8 ↔ ¬f.dlc.toNat = 0
  omega

theorem readFrame_line (m : CanMessage) : readFrame (hexWord m.frame.id ++
    0x23#8 :: (candumpData m ++ [0x00#8])) = some (some (m.frame.id, m.frame.payload)) := by
  have hshort : m.frame.payload.length ≤ 8 := by
    rw [CanFrame.length_payload]
    exact min_le_right _ _
  have hdata : readData 8 (candumpData m ++ [0x00#8]) = some m.frame.payload := by
    rw [candumpData, readData_hex 8 _ hexNibble_zero, List.take_of_length_le hshort]
  simp [readFrame, strtoul_hexWord, hdata]

theorem candumpDecode_line (now : Timeval) (m : CanMessage) {iface : List Byte}
    (h : IfaceName iface) (out : CanMessage) :
    candumpDecode (terminated (candumpLine now m iface)) out =
      some (decide (m.frame.dlc ≠ 0#8), ⟨out.frame.filled m.frame.id m.frame.payload,
        BitVec.ofInt 64 (stampUs (candumpTime now m).1 (candumpTime now m).2)⟩) := by
  obtain ⟨c, s, hword, hc⟩ : ∃ c s, hexWord m.frame.id = c :: s ∧ isBlank c = false :=
    ⟨_, _, rfl, (hexUpper_plain _).2.2.2⟩
  have hline : terminated (candumpLine now m iface) =
      0x28#8 :: (signedDecimal (candumpTime now m).1 ++ 0x2e#8 ::
        (paddedDecimal (candumpTime now m).2 ++ 0x29#8 :: 0x20#8 :: (iface ++
          0x20#8 :: c :: (s ++ 0x23#8 :: (candumpData m ++ [0x00#8]))))) := by
    simp [terminated, candumpLine, candumpFront, hword]
  have hfirst : scanWhile (fun c => c = 0x20#8 || c = 0x09#8)
      (terminated (candumpLine now m iface)) = some (terminated (candumpLine now m iface)) := by
    rw [hline, scanWhile]
    rfl
  have hframe : readFrame (c :: (s ++ 0x23#8 :: (candumpData m ++ [0x00#8]))) =
      some (some (m.frame.id, m.frame.payload)) := by
    rw [← List.cons_append, ← hword]
    exact readFrame_line m
  rw [candumpDecode, hfirst]
  simp only [Option.bind_eq_bind, Option.bind_some]
  rw [hline, readStamp_line]
  simp only [Option.bind_some]
  rw [skipIface_line h hc]
  simp only [Option.bind_some, hframe, CanMessage.decoded, CanFrame.payload_pos, stampUs_saturated]
  rfl

end RoundTrip

section Lines

variable {now : Timeval} {m : CanMessage} {iface : List Byte}

/-- No end of the text, no mark before the data and no white space but blanks. -/
def Plain (c : Byte) : Prop := c ≠ 0x00#8 ∧ c ≠ 0x23#8 ∧ (isSpace c = true → c = 0x20#8)

instance (c : Byte) : Decidable (Plain c) := inferInstanceAs (Decidable (_ ∧ _))

theorem plain_of_isDigit : ∀ c : Byte, isDigit c = true → Plain c := by decide +kernel

theorem decimal_plain (n : ℕ) : ∀ c ∈ decimal n, Plain c := fun c hc =>
  plain_of_isDigit c ((decimal_digits n).1 c hc)

theorem signedDecimal_plain (n : ℤ) : ∀ c ∈ signedDecimal n, Plain c := by
  unfold signedDecimal
  split_ifs
  · exact List.forall_mem_cons.mpr ⟨by decide, decimal_plain _⟩
  · exact decimal_plain _

theorem paddedDecimal_plain (n : ℤ) : ∀ c ∈ paddedDecimal n, Plain c := by
  have hzeros : ∀ k, ∀ c ∈ List.replicate k 0x30#8 ++ decimal n.natAbs, Plain c := fun k =>
    List.forall_mem_append.mpr ⟨fun c hc => by rw [List.eq_of_mem_replicate hc]; decide,
      decimal_plain _⟩
  unfold paddedDecimal
  split_ifs
  · exact List.forall_mem_cons.mpr ⟨by decide, hzeros _⟩
  · exact hzeros _

theorem candumpFront_plain (h : IfaceName iface) : ∀ c ∈ candumpFront now m iface, Plain c := by
  have hname : ∀ c ∈ iface, Plain c := fun c hc =>
    ⟨(h.plain c hc).1, (h.plain c hc).2.1, fun hspace => by simp [(h.plain c hc).2.2] at hspace⟩
  unfold candumpFront
  simp only [List.forall_mem_cons, List.forall_mem_append]
  exact ⟨by decide, signedDecimal_plain _, by decide, paddedDecimal_plain _, by decide, by decide,
    hname⟩

theorem hexWord_plain (id : BitVec 32) :
    ∀ c ∈ hexWord id, Plain c ∧ isBlank c = false := by
  intro c hc
  obtain ⟨k, -, rfl⟩ := List.mem_map.mp hc
  obtain ⟨hzero, hmark, hspace, hblank⟩ := hexUpper_plain (id.extractLsb' k 4)
  exact ⟨⟨hzero, hmark, fun h => by simp [hspace] at h⟩, hblank⟩

theorem flatMap_hexByte_plain (bytes : List Byte) : ∀ c ∈ bytes.flatMap hexByte, Plain c := by
  intro c hc
  obtain ⟨b, -, hb⟩ := List.mem_flatMap.mp hc
  have hdigit : ∀ v : BitVec 4, Plain (hexUpper v) := fun v =>
    ⟨(hexUpper_plain v).1, (hexUpper_plain v).2.1,
      fun h => by simp [(hexUpper_plain v).2.2.1] at h⟩
  rcases List.mem_pair.mp hb with rfl | rfl
  · exact hdigit _
  · exact hdigit _

theorem candumpLine_unbroken (h : IfaceName iface) :
    ∀ c ∈ candumpLine now m iface, c ≠ 0x00#8 ∧ c ≠ 0x0a#8 := by
  have hplain : ∀ c : Byte, Plain c → c ≠ 0x00#8 ∧ c ≠ 0x0a#8 := by
    rintro c ⟨hzero, -, hspace⟩
    exact ⟨hzero, by rintro rfl; exact absurd (hspace (by decide)) (by decide)⟩
  unfold candumpLine
  simp only [List.forall_mem_cons, List.forall_mem_append]
  exact ⟨fun c hc => hplain c (candumpFront_plain h c hc), by decide,
    fun c hc => hplain c (hexWord_plain _ c hc).1, by decide,
    fun c hc => hplain c (flatMap_hexByte_plain _ c hc)⟩

theorem wire_filled (out : CanFrame) (canId : BitVec 32) {bytes : List Byte}
    (h : bytes.length ≤ 8) : (out.filled canId bytes).wire =
      ⟨canId, true, false, BitVec.ofNat 8 bytes.length, bytes⟩ := by
  have hlen : (BitVec.ofNat 8 bytes.length).toNat = bytes.length := by
    rw [BitVec.toNat_ofNat, Nat.mod_eq_of_lt (by omega)]
  have hdata : (List.ofFn fun k : Fin 8 => bytes.getD k.val (out.data k)).take bytes.length =
      bytes := by
    apply List.ext_getElem
    · rw [List.length_take, List.length_ofFn, min_eq_left h]
    · intro k _ hk
      rw [List.getElem_take, List.getElem_ofFn]
      rw [List.getD, List.getElem?_eq_getElem hk, Option.getD_some]
  rw [CanFrame.wire]
  dsimp only [CanFrame.filled]
  rw [hlen, hdata]

/-- What `gettimeofday` returns. -/
structure Timeval.Valid (now : Timeval) : Prop where
  sec : now.sec < 2 ^ 63
  usec : 0 ≤ now.usec ∧ now.usec ≤ 999999

theorem candumpTime_range (hnow : now.Valid) (hm : 0 ≤ m.timestampUs.toInt) :
    (0 ≤ (candumpTime now m).1 ∧ (candumpTime now m).1 < 2 ^ 63) ∧
      0 ≤ (candumpTime now m).2 ∧ (candumpTime now m).2 ≤ 999999 := by
  unfold candumpTime
  split_ifs with hset
  · exact ⟨⟨by omega, hnow.sec⟩, hnow.usec⟩
  · have hlt := m.timestampUs.toInt_lt
    rw [Int.tdiv_eq_ediv_of_nonneg hm, Int.tmod_eq_emod_of_nonneg hm]
    dsimp only
    omega

theorem length_decimal {n k : ℕ} (hk : k ≠ 0) (hn : n < 10 ^ k) : (decimal n).length ≤ k := by
  rw [decimal, List.length_map, Nat.length_toDigits_le_iff (by decide) (by omega)]
  exact hn

theorem length_candumpLine (hnow : now.Valid) (hm : 0 ≤ m.timestampUs.toInt) :
    (candumpLine now m iface).length ≤ iface.length + 55 := by
  obtain ⟨⟨hsec, hsec'⟩, husec, husec'⟩ := candumpTime_range hnow hm
  have hdigits : (signedDecimal (candumpTime now m).1).length ≤ 19 := by
    rw [signedDecimal, if_neg (not_lt.mpr hsec)]
    exact length_decimal (by decide) (by omega)
  have hfraction : (paddedDecimal (candumpTime now m).2).length = 6 := by
    have hshort : (decimal (candumpTime now m).2.natAbs).length ≤ 6 :=
      length_decimal (by decide) (by omega)
    rw [paddedDecimal, if_neg (not_lt.mpr husec), List.length_append, List.length_replicate]
    omega
  have hdata : (candumpData m).length ≤ 16 := by
    have hbytes : (candumpData m).length = m.frame.payload.length * 2 := by
      rw [candumpData, List.length_flatMap]
      simp [hexByte]
    rw [hbytes, CanFrame.length_payload]
    omega
  have hword : (hexWord m.frame.id).length = 8 := rfl
  unfold candumpLine candumpFront
  simp only [List.length_append, List.length_cons, hfraction, hword]
  omega

end Lines

theorem candumpEncode_eq_none_iff (now : Timeval) (m : CanMessage) (iface : List Byte)
    (bufLen : ℕ) : candumpEncode now m iface bufLen = none ↔
      bufLen ≤ (candumpLine now m iface).length + 1 := by
  unfold candumpEncode
  dsimp only
  rw [List.length_append, List.length_singleton]
  split_ifs with hle
  · exact iff_of_true rfl hle
  · exact iff_of_false (by simp) hle

/-- Nothing is written exactly if the line does not fit with its end and a zero;
with times that are valid it has 55 bytes beside the name at most. What is
written is one line, and decoding it gives the identifier, the data and the time
that were encoded, whatever was there before. Only a frame without data is
refused. -/
theorem candump_round_trip (now : Timeval) (m : CanMessage) (iface : List Byte)
    (hiface : IfaceName iface) (bufLen : ℕ) (out : CanMessage) :
    (candumpEncode now m iface bufLen = none ↔ bufLen ≤ (candumpLine now m iface).length + 1) ∧
    (now.Valid → 0 ≤ m.timestampUs.toInt →
      (candumpLine now m iface).length ≤ iface.length + 55) ∧
    ∀ text, candumpEncode now m iface bufLen = some text → text.length < bufLen ∧
      ∃ out', text = candumpLine now m iface ++ [0x0a#8] ∧
        0x0a#8 ∉ candumpLine now m iface ∧ 0x00#8 ∉ candumpLine now m iface ∧
        candumpDecode (terminated (candumpLine now m iface)) out =
          some (decide (m.frame.dlc ≠ 0#8), out') ∧
        out'.frame.wire = ⟨m.frame.id, true, false, BitVec.ofNat 8 (min m.frame.dlc.toNat 8),
          m.frame.payload⟩ ∧
        out'.timestampUs.toInt = stampUs (candumpTime now m).1 (candumpTime now m).2 := by
  refine ⟨candumpEncode_eq_none_iff now m iface bufLen,
    fun hnow hm => length_candumpLine hnow hm, fun text htext => ?_⟩
  have hfits : ¬bufLen ≤ (candumpLine now m iface ++ [0x0a#8]).length := fun hle => by
    rw [candumpEncode, if_pos hle] at htext
    cases htext
  rw [candumpEncode, if_neg hfits] at htext
  obtain rfl := Option.some.inj htext
  have hplain : ∀ c ∈ candumpLine now m iface, c ≠ 0x00#8 ∧ c ≠ 0x0a#8 :=
    candumpLine_unbroken hiface
  refine ⟨not_le.mp hfits, _, rfl, fun h => (hplain _ h).2 rfl,
    fun h => (hplain _ h).1 rfl, candumpDecode_line now m hiface out, ?_, ?_⟩
  · have hshort := m.frame.length_payload
    rw [wire_filled _ _ (by omega), hshort]
  · dsimp only
    rw [BitVec.toInt_ofInt_eq_self (by decide)] <;>
    · unfold stampUs kMaxSec
      omega

def positionFrame : CanMessage :=
  ⟨⟨0x09f80123#32, true, false, 8#8, fun k => BitVec.ofNat 8 (k.val + 250)⟩, 5000000#64⟩

theorem ifaceName_can0 : IfaceName (ascii "can0") where
  nonempty := by decide
  plain := by decide

theorem candump_round_trip_position : ∃ text line out',
    candumpEncode ⟨1700000000, 42⟩ positionFrame (ascii "can0") 128 = some text ∧
    text = line ++ [0x0a#8] ∧
    candumpDecode (terminated line) ⟨⟨0#32, false, true, 0#8, fun _ => 0#8⟩, 0#64⟩ =
      some (true, out') ∧ out'.timestampUs.toInt = 1700000000000042 := by
  obtain ⟨hnone, hshort, hsome⟩ := candump_round_trip ⟨1700000000, 42⟩ positionFrame
    (ascii "can0") ifaceName_can0 128 ⟨⟨0#32, false, true, 0#8, fun _ => 0#8⟩, 0#64⟩
  have hlen : (candumpLine ⟨1700000000, 42⟩ positionFrame (ascii "can0")).length ≤ 4 + 55 :=
    hshort ⟨by decide, by decide⟩ (by decide)
  cases htext : candumpEncode ⟨1700000000, 42⟩ positionFrame (ascii "can0") 128 with
  | none =>
    have hlong := hnone.mp htext
    omega
  | some text =>
    obtain ⟨-, out', hline, -, -, hdecode, -, htime⟩ := hsome text htext
    exact ⟨text, _, out', rfl, hline, hdecode, htime⟩

end RelayBoard
