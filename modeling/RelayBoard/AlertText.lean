import RelayBoard.Lib.Characters
import RelayBoard.Lib.Memory
import RelayBoard.Lib.Scanning
import RelayBoard.N2kAlertPgn

/-!
# Alert texts

The text PGN of `n2k_alert_pgn.c`. A pointer into a text is the list of the
bytes that may be read from it on, so a read past the zero has no result.
-/

set_option autoImplicit false

namespace RelayBoard
open Lib.Characters Lib.LittleEndian Lib.Memory Lib.Scanning

/-- The continuation bytes of a sequence; a byte which is none of them is left
for the next code point. -/
def continueCodePoint : ℕ → BitVec 32 → List Byte → Option (BitVec 16 × List Byte)
  | 0, cp, s => some (if 0xffff#32 < cp then 0x3f#16 else cp.setWidth 16, s)
  | _ + 1, _, [] => none
  | extra + 1, cp, cc :: s =>
    if cc &&& 0xc0#8 ≠ 0x80#8 then some (0x3f#16, cc :: s)
    else continueCodePoint extra ((cp <<< 6) ||| (cc &&& 0x3f#8).setWidth 32) s

def nextCodePoint : List Byte → Option (BitVec 16 × List Byte)
  | [] => none
  | c :: s =>
    if c < 0x80#8 then some (c.setWidth 16, s)
    else if c &&& 0xe0#8 = 0xc0#8 then continueCodePoint 1 ((c &&& 0x1f#8).setWidth 32) s
    else if c &&& 0xf0#8 = 0xe0#8 then continueCodePoint 2 ((c &&& 0x0f#8).setWidth 32) s
    else if c &&& 0xf8#8 = 0xf0#8 then continueCodePoint 3 ((c &&& 0x07#8).setWidth 32) s
    else some (0x3f#16, s)

theorem continueCodePoint_length {extra : ℕ} {cp : BitVec 32} {s rest : List Byte}
    {u : BitVec 16} (h : continueCodePoint extra cp s = some (u, rest)) :
    rest.length ≤ s.length := by
  induction extra generalizing cp s with
  | zero =>
    obtain ⟨-, rfl⟩ := Prod.mk.inj (Option.some.inj h)
    exact le_rfl
  | succ extra ih =>
    cases s with
    | nil => nomatch h
    | cons cc s =>
      rw [continueCodePoint] at h
      split_ifs at h
      · obtain ⟨-, rfl⟩ := Prod.mk.inj (Option.some.inj h)
        exact le_rfl
      · exact (ih h).trans (Nat.le_succ _)

theorem nextCodePoint_length {s rest : List Byte} {u : BitVec 16}
    (h : nextCodePoint s = some (u, rest)) : rest.length < s.length := by
  cases s with
  | nil => nomatch h
  | cons c s =>
    rw [nextCodePoint] at h
    rw [List.length_cons, Nat.lt_succ_iff]
    split_ifs at h
    · obtain ⟨-, rfl⟩ := Prod.mk.inj (Option.some.inj h)
      exact le_rfl
    · exact continueCodePoint_length h
    · exact continueCodePoint_length h
    · exact continueCodePoint_length h
    · obtain ⟨-, rfl⟩ := Prod.mk.inj (Option.some.inj h)
      exact le_rfl

/-- A difference of sizes; one that would wrap has no value. -/
def sizeSub (a b : ℕ) : Option ℕ := if b ≤ a then some (a - b) else none

def allAscii : List Byte → Option Bool
  | [] => none
  | c :: s => if c = 0#8 then some true else if 0x80#8 ≤ c then some false else allAscii s

def strlen : List Byte → Option ℕ
  | [] => none
  | c :: s => if c = 0#8 then some 0 else (strlen s).map (· + 1)

/-- The characters of a text that is sent as it is, and the bytes used so far. -/
def putAscii (s : List Byte) (mem : ℕ → Byte) (out room : ℕ) : Option (ℕ × (ℕ → Byte)) := do
  let len ← strlen s
  let space ← sizeSub room 2
  let fit := if len < space then len else space
  some (2 + fit, storeAll mem (out + 2) (s.take fit))

/-- The characters of any other text. -/
def putUcs2 (out room : ℕ) (s : List Byte) (n : ℕ) (mem : ℕ → Byte) :
    Option (ℕ × (ℕ → Byte)) :=
  match s with
  | [] => none
  | c :: rest =>
    if c ≠ 0#8 ∧ n + 2 ≤ room then
      match _hnext : nextCodePoint (c :: rest) with
      | none => none
      | some (cp, s) =>
        putUcs2 out room s (n + 2) (Function.update (Function.update mem (out + n)
          (cp.setWidth 8)) (out + n + 1) ((cp >>> 8).setWidth 8))
    else some (n, mem)
termination_by s.length
decreasing_by exact nextCodePoint_length _hnext

/-- `put_string`: a length byte counting itself and the control byte, the
control byte and the characters, in at most `room` bytes from `out` on. -/
def putString (s : List Byte) (mem : ℕ → Byte) (out room : ℕ) : Option (ℕ × (ℕ → Byte)) := do
  let room := if 255 < room then 255 else room
  let ascii ← allAscii s
  let (n, mem) ← (if ascii then putAscii s mem out room else putUcs2 out room s 2 mem)
  some (n, Function.update (Function.update mem out (BitVec.ofNat 8 n)) (out + 1)
    (if ascii then 1#8 else 0#8))

def orEmpty (s : Option (List Byte)) : List Byte := s.getD [0#8]

def n2kAlertEncodeText (id : AlertId) (description location : Option (List Byte))
    (mem : ℕ → Byte) (size : ℕ) : Option (ℕ × (ℕ → Byte)) :=
  let size := if 223 < size then 223 else size
  if size < 21 then some (0, mem)
  else do
    let mem := Function.update (storeAll mem 0 (encodeHeader id)) 16 0#8
    let n := 17
    let (k, mem) ← putString (orEmpty description) mem n (← sizeSub (← sizeSub size n) 2)
    let n := n + k
    let (k, mem) ← putString (orEmpty location) mem n (← sizeSub size n)
    some (n + k, mem)

/-- A text as the code points which are taken from it one by one. -/
def codePoints (s : List Byte) : List (BitVec 16) :=
  match s with
  | [] => []
  | c :: rest =>
    if c = 0#8 then []
    else
      match _hnext : nextCodePoint (c :: rest) with
      | none => []
      | some (cp, s) => cp :: codePoints s
termination_by s.length
decreasing_by exact nextCodePoint_length _hnext

structure StringLau where
  control : Byte
  chars : List Byte
  fits : chars.length ≤ 253
  deriving DecidableEq

def StringLau.bytes (f : StringLau) : List Byte :=
  BitVec.ofNat 8 (f.chars.length + 2) :: f.control :: f.chars

def StringLau.width (f : StringLau) : ℕ := if f.control = 1#8 then 1 else 2

/-- Bytes read as UCS-2, the low byte of each character first. -/
def readUcs2 : List Byte → Option (List (BitVec 16))
  | [] => some []
  | [_] => none
  | low :: high :: rest => (readUcs2 rest).map (get 16 [low, high] :: ·)

def StringLau.decode (f : StringLau) : Option (List (BitVec 16)) :=
  if f.control = 1#8 then some (f.chars.map fun c => c.setWidth 16)
  else if f.control = 0#8 then readUcs2 f.chars
  else none

theorem put_two (u : BitVec 16) : put 2 u = [u.setWidth 8, (u >>> 8).setWidth 8] := rfl

theorem readUcs2_put (us : List (BitVec 16)) : readUcs2 (us.flatMap (put 2)) = some us := by
  induction us with
  | nil => rfl
  | cons u us ih =>
    have hword : get 16 [u.setWidth 8, (u >>> 8).setWidth 8] = u := get_put 2 (by decide) u
    rw [List.flatMap_cons, put_two, List.cons_append, List.cons_append, List.nil_append, readUcs2,
      ih, Option.map_some, hword]

theorem length_flatMap_put (us : List (BitVec 16)) :
    (us.flatMap (put 2)).length = 2 * us.length := by
  induction us with
  | nil => rfl
  | cons u us ih =>
    rw [List.flatMap_cons, List.length_append, ih, length_put, List.length_cons]
    omega

theorem codePoints_cons {c : Byte} {s rest : List Byte} {u : BitVec 16} (hc : c ≠ 0#8)
    (hnext : nextCodePoint (c :: s) = some (u, rest)) :
    codePoints (c :: s) = u :: codePoints rest := by
  rw [codePoints, if_neg hc]
  split
  · rename_i hnone
    rw [hnext] at hnone
    cases hnone
  · rename_i cp s' hsome
    rw [hnext] at hsome
    obtain ⟨rfl, rfl⟩ := Prod.mk.inj (Option.some.inj hsome)
    rfl

theorem putUcs2_cons {out room n : ℕ} {mem : ℕ → Byte} {c : Byte} {s rest : List Byte}
    {u : BitVec 16} (hc : c ≠ 0#8) (hroom : n + 2 ≤ room)
    (hnext : nextCodePoint (c :: s) = some (u, rest)) :
    putUcs2 out room (c :: s) n mem =
      putUcs2 out room rest (n + 2) (storeAll mem (out + n) (put 2 u)) := by
  rw [putUcs2, if_pos ⟨hc, hroom⟩]
  split
  · rename_i hnone
    rw [hnext] at hnone
    cases hnone
  · rename_i cp s' hsome
    rw [hnext] at hsome
    obtain ⟨rfl, rfl⟩ := Prod.mk.inj (Option.some.inj hsome)
    rfl

theorem continueCodePoint_terminated (extra : ℕ) (cp : BitVec 32) (text : List Byte) :
    ∃ u rest, continueCodePoint extra cp (terminated text) = some (u, terminated rest) ∧
      List.IsSuffix rest text := by
  induction extra generalizing cp text with
  | zero => exact ⟨_, text, rfl, List.suffix_refl text⟩
  | succ extra ih =>
    cases text with
    | nil => exact ⟨0x3f#16, [], rfl, List.suffix_refl []⟩
    | cons cc text =>
      rw [terminated_cons, continueCodePoint]
      split_ifs
      · exact ⟨0x3f#16, cc :: text, rfl, List.suffix_refl _⟩
      · obtain ⟨u, rest, hnext, hrest⟩ := ih ((cp <<< 6) ||| (cc &&& 0x3f#8).setWidth 32) text
        exact ⟨u, rest, hnext, hrest.trans (List.suffix_cons cc text)⟩

theorem nextCodePoint_terminated (c : Byte) (text : List Byte) :
    ∃ u rest, nextCodePoint (terminated (c :: text)) = some (u, terminated rest) ∧
      List.IsSuffix rest text := by
  rw [terminated_cons, nextCodePoint]
  split_ifs
  · exact ⟨_, text, rfl, List.suffix_refl text⟩
  · exact continueCodePoint_terminated 1 _ text
  · exact continueCodePoint_terminated 2 _ text
  · exact continueCodePoint_terminated 3 _ text
  · exact ⟨_, text, rfl, List.suffix_refl text⟩

theorem putUcs2_terminated {out room : ℕ} (text : List Byte) (h : 0#8 ∉ text) (n : ℕ)
    (mem : ℕ → Byte) (us : List (BitVec 16))
    (hus : us = (codePoints (terminated text)).take ((room - n) / 2)) :
    putUcs2 out room (terminated text) n mem =
      some (n + 2 * us.length, storeAll mem (out + n) (us.flatMap (put 2))) := by
  induction hlen : text.length using Nat.strong_induction_on generalizing text n mem us with
  | _ len ih =>
    cases text with
    | nil =>
      have hnone : codePoints (terminated []) = [] := by
        rw [terminated, List.nil_append, codePoints, if_pos rfl]
      rw [hus, hnone, List.take_nil, terminated, List.nil_append, putUcs2, if_neg (by simp)]
      rfl
    | cons c text =>
      have hc : c ≠ 0#8 := fun hc => h (by simp [hc])
      by_cases hroom : n + 2 ≤ room
      · obtain ⟨u, rest, hnext, hrest⟩ := nextCodePoint_terminated c text
        have hmem : 0#8 ∉ rest := fun hz => h (List.mem_cons_of_mem c (hrest.subset hz))
        have hshort : rest.length < len := by
          rw [← hlen, List.length_cons]
          exact Nat.lt_succ_of_le hrest.length_le
        have hslots : (room - n) / 2 = (room - (n + 2)) / 2 + 1 := by omega
        rw [terminated_cons] at hnext hus
        rw [hus, codePoints_cons hc hnext, hslots, List.take_succ_cons, terminated_cons,
          putUcs2_cons hc hroom hnext, ih rest.length hshort rest hmem (n + 2) _ _ rfl rfl,
          List.length_cons, List.flatMap_cons, storeAll_append, length_put]
        congr 2
        omega
      · have hslots : (room - n) / 2 = 0 := by omega
        rw [hus, hslots, List.take_zero, terminated_cons, putUcs2, if_neg (by simp [hroom])]
        rfl

theorem allAscii_terminated (text : List Byte) (h : 0#8 ∉ text) :
    allAscii (terminated text) = some (decide (∀ c ∈ text, c < 0x80#8)) := by
  induction text with
  | nil => simp [terminated, allAscii]
  | cons c text ih =>
    have hc : c ≠ 0#8 := fun hc => h (by simp [hc])
    rw [terminated_cons, allAscii, if_neg hc]
    by_cases hlow : c < 0x80#8
    · rw [if_neg (BitVec.not_le.mpr hlow), ih fun hz => h (List.mem_cons_of_mem c hz)]
      simp [hlow]
    · rw [if_pos (BitVec.not_lt.mp hlow)]
      simp [hlow]

theorem strlen_terminated (text : List Byte) (h : 0#8 ∉ text) :
    strlen (terminated text) = some text.length := by
  induction text with
  | nil => rfl
  | cons c text ih =>
    have hc : c ≠ 0#8 := fun hc => h (by simp [hc])
    rw [terminated_cons, strlen, if_neg hc, ih fun hz => h (List.mem_cons_of_mem c hz)]
    rfl

theorem codePoints_ascii (text : List Byte) (h : 0#8 ∉ text) (hascii : ∀ c ∈ text, c < 0x80#8) :
    codePoints (terminated text) = text.map fun c => c.setWidth 16 := by
  induction text with
  | nil => rw [terminated, List.nil_append, codePoints, if_pos rfl, List.map_nil]
  | cons c text ih =>
    have hc : c ≠ 0#8 := fun hc => h (by simp [hc])
    have hnext : nextCodePoint (c :: terminated text) = some (c.setWidth 16, terminated text) :=
      if_pos (hascii c (List.mem_cons_self ..))
    rw [terminated_cons, codePoints_cons hc hnext, List.map_cons,
      ih (fun hz => h (List.mem_cons_of_mem c hz)) fun d hd => hascii d (List.mem_cons_of_mem c hd)]

theorem putAscii_terminated (text : List Byte) (h : 0#8 ∉ text) (mem : ℕ → Byte) (out : ℕ)
    {room : ℕ} (hroom : 2 ≤ room) : putAscii (terminated text) mem out room =
      some (2 + (text.take (room - 2)).length, storeAll mem (out + 2) (text.take (room - 2))) := by
  have hfit : (if text.length < room - 2 then text.length else room - 2) =
      min (room - 2) text.length := by
    split_ifs <;> omega
  have htake : (terminated text).take (min (room - 2) text.length) = text.take (room - 2) := by
    rw [terminated, List.take_append_of_le_length (Nat.min_le_right _ _), ← List.take_take,
      List.take_length]
  simp only [putAscii, strlen_terminated text h, sizeSub, if_pos hroom, Option.bind_eq_bind,
    Option.bind_some, hfit, htake, List.length_take]

theorem putString_terminated (text : List Byte) (h : 0#8 ∉ text) (mem : ℕ → Byte) (out : ℕ)
    {room : ℕ} (hroom : 2 ≤ room) :
    ∃ f : StringLau, putString (terminated text) mem out room =
        some (f.bytes.length, storeAll mem out f.bytes) ∧ f.bytes.length ≤ room ∧
      (f.control = 1#8 ↔ ∀ c ∈ text, c < 0x80#8) ∧
      f.decode = some ((codePoints (terminated text)).take ((min room 255 - 2) / f.width)) := by
  have hmin : (if 255 < room then 255 else room) = min room 255 := by
    split_ifs <;> omega
  have hframe : ∀ (control : Byte) (chars : List Byte),
      Function.update (Function.update (storeAll mem (out + 2) chars) out
          (BitVec.ofNat 8 (2 + chars.length))) (out + 1) control =
        storeAll mem out (BitVec.ofNat 8 (chars.length + 2) :: control :: chars) := by
    intro control chars
    rw [update_storeAll (by omega), update_storeAll (by omega), Nat.add_comm 2]
    rfl
  by_cases hascii : ∀ c ∈ text, c < 0x80#8
  · have hlen : (text.take (min room 255 - 2)).length ≤ min room 255 - 2 :=
      List.length_take_le _ _
    refine ⟨⟨1#8, text.take (min room 255 - 2), by omega⟩, ?_, ?_,
      ⟨fun _ => hascii, fun _ => rfl⟩, ?_⟩
    · simp only [putString, allAscii_terminated text h, decide_eq_true hascii, hmin,
        Option.bind_eq_bind, Option.bind_some, if_true,
        putAscii_terminated text h mem out (show 2 ≤ min room 255 by omega), hframe]
      rw [StringLau.bytes, List.length_cons, List.length_cons, Nat.add_comm 2]
    · simp only [StringLau.bytes, List.length_cons]
      omega
    · simp only [StringLau.decode, StringLau.width, if_true, codePoints_ascii text h hascii,
        Nat.div_one, List.map_take]
  · generalize hus : (codePoints (terminated text)).take ((min room 255 - 2) / 2) = us
    have hlen : us.length ≤ (min room 255 - 2) / 2 := hus ▸ List.length_take_le _ _
    have hchars := length_flatMap_put us
    refine ⟨⟨0#8, us.flatMap (put 2), by omega⟩, ?_, ?_, by simp [hascii], ?_⟩
    · simp only [putString, allAscii_terminated text h, decide_eq_false hascii, hmin,
        Option.bind_eq_bind, Option.bind_some, Bool.false_eq_true, if_false,
        putUcs2_terminated text h 2 mem us hus.symm, ← hchars, hframe]
      rw [StringLau.bytes, List.length_cons, List.length_cons, Nat.add_comm 2]
    · simp only [StringLau.bytes, List.length_cons]
      omega
    · simp [StringLau.decode, StringLau.width, readUcs2_put, hus]

theorem ofNat_ascii {n : ℕ} (h : n < 0x80) : BitVec.ofNat 8 n < 0x80#8 := by
  rw [BitVec.lt_def, BitVec.toNat_ofNat, Nat.mod_eq_of_lt (by omega)]
  exact h

/-- The bytes that begin and continue the sequences of two and three bytes. -/
theorem lead_two : ∀ k < 32, ¬BitVec.ofNat 8 (k + 0xc0) < 0x80#8 ∧
    BitVec.ofNat 8 (k + 0xc0) &&& 0xe0#8 = 0xc0#8 ∧
    (BitVec.ofNat 8 (k + 0xc0) &&& 0x1f#8).setWidth 32 = BitVec.ofNat 32 k := by
  decide +kernel

theorem lead_three : ∀ k < 16, ¬BitVec.ofNat 8 (k + 0xe0) < 0x80#8 ∧
    ¬BitVec.ofNat 8 (k + 0xe0) &&& 0xe0#8 = 0xc0#8 ∧
    BitVec.ofNat 8 (k + 0xe0) &&& 0xf0#8 = 0xe0#8 ∧
    (BitVec.ofNat 8 (k + 0xe0) &&& 0x0f#8).setWidth 32 = BitVec.ofNat 32 k := by
  decide +kernel

theorem trail : ∀ k < 64, BitVec.ofNat 8 (k + 0x80) &&& 0xc0#8 = 0x80#8 ∧
    (BitVec.ofNat 8 (k + 0x80) &&& 0x3f#8).setWidth 32 = BitVec.ofNat 32 k := by
  decide +kernel

theorem continueCodePoint_trail (extra : ℕ) {v k : ℕ} (hv : v < 2 ^ 26) (hk : k < 64)
    (s : List Byte) :
    continueCodePoint (extra + 1) (BitVec.ofNat 32 v) (BitVec.ofNat 8 (k + 0x80) :: s) =
      continueCodePoint extra (BitVec.ofNat 32 (v * 64 + k)) s := by
  obtain ⟨hmark, hvalue⟩ := trail k hk
  have hsix : (BitVec.ofNat 32 v <<< 6) ||| BitVec.ofNat 32 k = BitVec.ofNat 32 (v * 64 + k) := by
    apply BitVec.eq_of_toNat_eq
    have hor := Nat.two_pow_add_eq_or_of_lt (i := 6) hk v
    rw [BitVec.toNat_or, BitVec.toNat_shiftLeft, BitVec.toNat_ofNat, BitVec.toNat_ofNat,
      BitVec.toNat_ofNat, Nat.shiftLeft_eq, Nat.mod_eq_of_lt (show v < 2 ^ 32 by omega),
      Nat.mod_eq_of_lt (show k < 2 ^ 32 by omega),
      Nat.mod_eq_of_lt (show v * 2 ^ 6 < 2 ^ 32 by omega),
      Nat.mod_eq_of_lt (show v * 64 + k < 2 ^ 32 by omega), Nat.mul_comm v (2 ^ 6), ← hor]
    omega
  rw [continueCodePoint, if_neg (by simp [hmark]), hvalue, hsix]

theorem continueCodePoint_done {v : ℕ} (hv : v ≤ 0xffff) (s : List Byte) :
    continueCodePoint 0 (BitVec.ofNat 32 v) s = some (BitVec.ofNat 16 v, s) := by
  have hle : ¬0xffff#32 < BitVec.ofNat 32 v := by
    rw [BitVec.lt_def, BitVec.toNat_ofNat, BitVec.toNat_ofNat,
      Nat.mod_eq_of_lt (show v < 2 ^ 32 by omega)]
    omega
  rw [continueCodePoint, if_neg hle, BitVec.setWidth_ofNat_of_le (by decide)]

theorem nextCodePoint_utf8Char {c : Char} (hc : c.toNat ≤ 0xffff) (s : List Byte) :
    nextCodePoint (utf8Char c ++ s) = some (BitVec.ofNat 16 c.toNat, s) := by
  by_cases hone : c.toNat < 0x80
  · rw [utf8Char_one hone, List.singleton_append, nextCodePoint, if_pos (ofNat_ascii hone),
      BitVec.setWidth_ofNat_of_le_of_lt (by decide) (by omega)]
  by_cases htwo : c.toNat < 0x800
  · obtain ⟨hhigh, hmark, hvalue⟩ := lead_two (c.toNat / 64) (by omega)
    have hsum : c.toNat / 64 * 64 + c.toNat % 64 = c.toNat := by omega
    rw [utf8Char_two (by omega) htwo, List.cons_append, List.singleton_append, nextCodePoint,
      if_neg hhigh, if_pos hmark, hvalue, continueCodePoint_trail 0 (by omega) (by omega), hsum,
      continueCodePoint_done hc]
  · obtain ⟨hhigh, hother, hmark, hvalue⟩ := lead_three (c.toNat / 4096) (by omega)
    have hsum : (c.toNat / 4096 * 64 + c.toNat / 64 % 64) * 64 + c.toNat % 64 = c.toNat := by
      omega
    rw [utf8Char_three (by omega) hc, List.cons_append, List.cons_append, List.singleton_append,
      nextCodePoint, if_neg hhigh, if_neg hother, if_pos hmark, hvalue,
      continueCodePoint_trail 1 (by omega) (by omega),
      continueCodePoint_trail 0 (by omega) (by omega), hsum, continueCodePoint_done hc]

/-- The code points of well-formed UTF-8 are its characters. -/
theorem codePoints_utf8 (text : List Char) (htext : ∀ c ∈ text, c.toNat ≤ 0xffff)
    (h : 0#8 ∉ utf8 text) :
    codePoints (terminated (utf8 text)) = text.map fun c => BitVec.ofNat 16 c.toNat := by
  induction text with
  | nil => exact codePoints_ascii [] (by simp) (by simp)
  | cons c text ih =>
    have hnext := nextCodePoint_utf8Char (htext c (List.mem_cons_self ..)) (terminated (utf8 text))
    rw [utf8_cons] at h
    rw [utf8_cons, terminated_append, List.map_cons,
      ← ih (fun d hd => htext d (List.mem_cons_of_mem c hd))
        fun hz => h (List.mem_append_right _ hz)]
    cases hchar : utf8Char c with
    | nil => exact absurd hchar (utf8Char_ne_nil c)
    | cons b bs =>
      rw [hchar] at h hnext
      exact codePoints_cons (fun hb => h (by simp [hb])) hnext

example : codePoints (terminated [0xc3#8, 0x61#8]) = [0x3f#16, 0x61#16] := by decide +kernel

theorem utf8Char_ascii {c : Char} (hc : c.toNat ≤ 0xffff) :
    (∀ b ∈ utf8Char c, b < 0x80#8) ↔ c.toNat < 0x80 := by
  by_cases hone : c.toNat < 0x80
  · simp [utf8Char_one hone, ofNat_ascii hone, hone]
  by_cases htwo : c.toNat < 0x800
  · have hhigh := (lead_two (c.toNat / 64) (by omega)).1
    rw [utf8Char_two (by omega) htwo]
    exact ⟨fun h => absurd (h _ (List.mem_cons_self ..)) hhigh, fun h => absurd h hone⟩
  · have hhigh := (lead_three (c.toNat / 4096) (by omega)).1
    rw [utf8Char_three (by omega) hc]
    exact ⟨fun h => absurd (h _ (List.mem_cons_self ..)) hhigh, fun h => absurd h hone⟩

theorem utf8_ascii (text : List Char) (htext : ∀ c ∈ text, c.toNat ≤ 0xffff) :
    (∀ b ∈ utf8 text, b < 0x80#8) ↔ ∀ c ∈ text, c.toNat < 0x80 := by
  induction text with
  | nil => simp [utf8]
  | cons c text ih =>
    rw [utf8_cons, List.forall_mem_append, List.forall_mem_cons,
      utf8Char_ascii (htext c (List.mem_cons_self ..)),
      ih fun d hd => htext d (List.mem_cons_of_mem c hd)]

/-- The string is the text cut to whole characters, as many as the room holds. -/
structure Cut (text : List Char) (room : ℕ) (f : StringLau) : Prop where
  ascii : f.control = 1#8 ↔ ∀ c ∈ text, c.toNat < 0x80
  longest : ∃ front, f.decode = some (front.map fun c => BitVec.ofNat 16 c.toNat) ∧
    LongestPrefix (fun part => 2 + f.width * part.length ≤ room) text front
  whole : 2 + f.width * text.length ≤ room →
    f.decode = some (text.map fun c => BitVec.ofNat 16 c.toNat)

theorem StringLau.width_pos (f : StringLau) : 0 < f.width := by
  unfold width
  split_ifs <;> decide

theorem cut_of_decode {text : List Char} {room : ℕ} {f : StringLau}
    (htext : ∀ c ∈ text, c.toNat ≤ 0xffff) (h : 0#8 ∉ utf8 text) (hroom : 2 ≤ room)
    (hascii : f.control = 1#8 ↔ ∀ b ∈ utf8 text, b < 0x80#8)
    (hdecode : f.decode =
      some ((codePoints (terminated (utf8 text))).take ((room - 2) / f.width))) :
    Cut text room f := by
  have hpos := f.width_pos
  have hfits : ∀ part : List Char,
      2 + f.width * part.length ≤ room ↔ part.length ≤ (room - 2) / f.width := by
    intro part
    rw [Nat.le_div_iff_mul_le hpos, Nat.mul_comm]
    omega
  rw [codePoints_utf8 text htext h, ← List.map_take] at hdecode
  refine ⟨hascii.trans (utf8_ascii text htext), ⟨_, hdecode, longestPrefix_take text hfits⟩, ?_⟩
  intro hwhole
  rw [hdecode, List.take_of_length_le ((hfits text).mp hwhole)]

def skipString (mem : ℕ → Byte) (p : ℕ) : ℕ := p + (mem p).toNat

theorem skipString_storeAll (mem : ℕ → Byte) (front rest : List Byte) (f : StringLau) :
    skipString (storeAll mem 0 (front ++ f.bytes ++ rest)) front.length =
      (front ++ f.bytes).length := by
  have hfits := f.fits
  have hhead : storeAll mem 0 (front ++ f.bytes ++ rest) front.length =
      BitVec.ofNat 8 (f.chars.length + 2) := by
    have hmiddle : storeAll mem 0
        (front ++ BitVec.ofNat 8 (f.chars.length + 2) :: (f.control :: f.chars ++ rest))
        (0 + front.length) = BitVec.ofNat 8 (f.chars.length + 2) := storeAll_middle _ _
    rw [Nat.zero_add] at hmiddle
    rw [List.append_assoc]
    exact hmiddle
  rw [skipString, hhead, BitVec.toNat_ofNat, Nat.mod_eq_of_lt (by omega), List.length_append]
  rfl

theorem orEmpty_map (s : Option (List Byte)) :
    orEmpty (s.map terminated) = terminated (s.getD []) := by
  cases s <;> rfl

theorem length_start (id : AlertId) : (encodeHeader id ++ [0#8]).length = 17 := by
  rw [List.length_append, length_encodeHeader]
  rfl

theorem length_payload (id : AlertId) (d l : StringLau) :
    (encodeHeader id ++ [0#8] ++ d.bytes ++ l.bytes).length =
      17 + d.bytes.length + l.bytes.length := by
  rw [List.length_append, List.length_append, length_start]

theorem encodeText_payload (id : AlertId) {description location : Option (List Byte)}
    (hdescription : 0#8 ∉ description.getD []) (hlocation : 0#8 ∉ location.getD [])
    (mem : ℕ → Byte) {size : ℕ} (hsize : 21 ≤ size) :
    ∃ d l : StringLau,
      n2kAlertEncodeText id (description.map terminated) (location.map terminated) mem size =
        some ((encodeHeader id ++ [0#8] ++ d.bytes ++ l.bytes).length,
          storeAll mem 0 (encodeHeader id ++ [0#8] ++ d.bytes ++ l.bytes)) ∧
      (encodeHeader id ++ [0#8] ++ d.bytes ++ l.bytes).length ≤ min size 223 ∧
      d.bytes.length ≤ min size 223 - 19 ∧
      (d.control = 1#8 ↔ ∀ c ∈ description.getD [], c < 0x80#8) ∧
      d.decode = some ((codePoints (terminated (description.getD []))).take
        ((min size 223 - 19 - 2) / d.width)) ∧
      (l.control = 1#8 ↔ ∀ c ∈ location.getD [], c < 0x80#8) ∧
      l.decode = some ((codePoints (terminated (location.getD []))).take
        ((min size 223 - 17 - d.bytes.length - 2) / l.width)) := by
  have hmin : (if 223 < size then 223 else size) = min size 223 := by
    split_ifs <;> omega
  have hheader := length_encodeHeader id
  have hstart : Function.update (storeAll mem 0 (encodeHeader id)) 16 0#8 =
      storeAll mem 0 (encodeHeader id ++ [0#8]) :=
    storeAll_storeAll (by omega) [0#8]
  have hlen := length_start id
  obtain ⟨d, hput, hroom, hascii, hdecode⟩ := putString_terminated (description.getD [])
    hdescription (storeAll mem 0 (encodeHeader id ++ [0#8])) 17
    (show 2 ≤ min size 223 - 17 - 2 by omega)
  have hspace : 2 ≤ min size 223 - (17 + d.bytes.length) := by omega
  obtain ⟨l, hput', hroom', hascii', hdecode'⟩ := putString_terminated (location.getD [])
    hlocation (storeAll mem 0 (encodeHeader id ++ [0#8] ++ d.bytes)) (17 + d.bytes.length) hspace
  have hwritten : storeAll (storeAll mem 0 (encodeHeader id ++ [0#8])) 17 d.bytes =
      storeAll mem 0 (encodeHeader id ++ [0#8] ++ d.bytes) :=
    storeAll_storeAll (by omega) d.bytes
  have htotal := length_payload id d l
  have hwritten' : storeAll (storeAll mem 0 (encodeHeader id ++ [0#8] ++ d.bytes))
      (17 + d.bytes.length) l.bytes =
        storeAll mem 0 (encodeHeader id ++ [0#8] ++ d.bytes ++ l.bytes) :=
    storeAll_storeAll (by rw [List.length_append, hlen, Nat.zero_add]) l.bytes
  refine ⟨d, l, ?_, by omega, by omega, hascii, ?_, hascii', ?_⟩
  · have h17 : 17 ≤ min size 223 := by omega
    have h2 : 2 ≤ min size 223 - 17 := by omega
    have hend : 17 + d.bytes.length ≤ min size 223 := by omega
    have hsmall : ¬min size 223 < 21 := by omega
    simp only [n2kAlertEncodeText, hmin, if_neg hsmall, sizeSub, if_pos h17, if_pos h2,
      if_pos hend, Option.bind_eq_bind, Option.bind_some, orEmpty_map, hstart, hput, hwritten,
      hput', hwritten', htotal]
  · have hcap : min (min size 223 - 17 - 2) 255 = min size 223 - 19 := by omega
    rw [hdecode, hcap]
  · have hcap : min (min size 223 - (17 + d.bytes.length)) 255 =
        min size 223 - 17 - d.bytes.length := by omega
    rw [hdecode', hcap]

/-- The payload of an alert text: what is written for any texts, and what the
texts become when they are characters. -/
theorem encodeText_framed (id : AlertId) (description location : Option (List Byte))
    (hdescription : 0#8 ∉ description.getD []) (hlocation : 0#8 ∉ location.getD [])
    (mem : ℕ → Byte) (size : ℕ) :
    (size < 21 → n2kAlertEncodeText id (description.map terminated) (location.map terminated) mem
      size = some (0, mem)) ∧
    (21 ≤ size → ∃ (d l : StringLau) (n : ℕ) (mem' : ℕ → Byte),
      n2kAlertEncodeText id (description.map terminated) (location.map terminated) mem size =
        some (n, mem') ∧
      n ≤ min size 223 ∧ (∀ i, n ≤ i → mem' i = mem i) ∧
      slice mem' 0 n = encodeHeader id ++ [0#8] ++ d.bytes ++ l.bytes ∧
      skipString mem' (skipString mem' 17) = n ∧
      (∀ text : List Char, (∀ c ∈ text, c.toNat ≤ 0xffff) → description.getD [] = utf8 text →
        Cut text (min size 223 - 19) d) ∧
      ∀ text : List Char, (∀ c ∈ text, c.toNat ≤ 0xffff) → location.getD [] = utf8 text →
        Cut text (min size 223 - 17 - d.bytes.length) l) := by
  constructor
  · intro hsize
    have hbig : ¬223 < size := by omega
    simp only [n2kAlertEncodeText, if_neg hbig, if_pos hsize]
  · intro hsize
    obtain ⟨d, l, hencode, hlen, hd, hascii, hdecode, hascii', hdecode'⟩ :=
      encodeText_payload id hdescription hlocation mem hsize
    have htotal := length_payload id d l
    have hl : 2 ≤ l.bytes.length := Nat.le_add_left 2 _
    refine ⟨d, l, _, _, hencode, hlen, ?_, slice_storeAll, ?_, ?_, ?_⟩
    · intro i hi
      exact storeAll_past ((Nat.zero_add _).trans_le hi)
    · have hskip := skipString_storeAll mem (encodeHeader id ++ [0#8]) l.bytes d
      have hskip' := skipString_storeAll mem (encodeHeader id ++ [0#8] ++ d.bytes) [] l
      rw [length_start] at hskip
      rw [List.append_nil] at hskip'
      rw [hskip, hskip']
    · intro text htext hutf8
      rw [hutf8] at hascii hdecode hdescription
      exact cut_of_decode htext hdescription (by omega) hascii hdecode
    · intro text htext hutf8
      rw [hutf8] at hascii' hdecode' hlocation
      exact cut_of_decode htext hlocation (by omega) hascii' hdecode'

/-- Five letters of which two fit, for an alert without a location. -/
theorem umlaut_cut : ∃ (d l : StringLau) (n : ℕ) (mem' : ℕ → Byte),
    n2kAlertEncodeText ⟨alertTypeWarning, 0, 0, 0, 2, 0, 0, 0, 0⟩
      (some (terminated [0x6c#8, 0xc3#8, 0xa4#8, 0x75#8, 0x66#8, 0x74#8])) none
      (fun _ => 0xff#8) 26 = some (n, mem') ∧
    n ≤ 26 ∧ skipString mem' (skipString mem' 17) = n ∧
    Cut ['l', Char.ofNat 0xe4, 'u', 'f', 't'] 7 d ∧ Cut [] (9 - d.bytes.length) l := by
  have hmin : min 26 223 = 26 := by decide
  obtain ⟨d, l, n, mem', hencode, hlen, -, -, hskip, hd, hl⟩ :=
    (encodeText_framed ⟨alertTypeWarning, 0, 0, 0, 2, 0, 0, 0, 0⟩
      (some [0x6c#8, 0xc3#8, 0xa4#8, 0x75#8, 0x66#8, 0x74#8]) none (by decide) (by decide)
      (fun _ => 0xff#8) 26).2 (by decide)
  rw [hmin] at hlen hd hl
  have hbytes : [0x6c#8, 0xc3#8, 0xa4#8, 0x75#8, 0x66#8, 0x74#8] =
      utf8 ['l', Char.ofNat 0xe4, 'u', 'f', 't'] := by decide +kernel
  exact ⟨d, l, n, mem', hencode, hlen, hskip, hd _ (by simp) hbytes, hl [] (by simp) rfl⟩

end RelayBoard
