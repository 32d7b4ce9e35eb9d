import RelayBoard.N2kBridge

/-!
# Switch bank payloads

`switch_bank_pgn.c`: 127501 as it is sent and 127502 as it is read, both with
28 fields of two bits.
-/

set_option autoImplicit false

namespace RelayBoard
open BitVec Lib.Loops

def switchBankPayloadLen : ℕ := 8

/-- `FIELDS` -/
def switchBankFields : ℕ := 28

structure SwitchBankCommand where
  on : BitVec 32
  off : BitVec 32
  deriving DecidableEq

def controlField (data : List Byte) (i : ℕ) : Byte :=
  (data.getD (1 + i / 4) 0 >>> (2 * (i % 4))) &&& 3

def controlPass (data : List Byte) (cmd : SwitchBankCommand) (i : ℕ) : SwitchBankCommand :=
  if controlField data i = 1 then { cmd with on := cmd.on ||| 1#32 <<< i }
  else if controlField data i = 0 then { cmd with off := cmd.off ||| 1#32 <<< i }
  else cmd

/-- What is returned, and `*out` after that. -/
def switchBankDecodeControl (data : List Byte) (inst : Byte) (channels : ℕ)
    (out : SwitchBankCommand) : Bool × SwitchBankCommand :=
  if data.length < switchBankPayloadLen ∨ data.getD 0 0 ≠ inst then (false, out)
  else (true, (List.range (min channels switchBankFields)).foldl (controlPass data) ⟨0, 0⟩)

def channelBits (channels : ℕ) : BitVec 32 := BitVec.ofNat 32 (2 ^ channels - 1)

variable {data : List Byte} {inst : Byte} {channels : ℕ} {mask : BitVec 32}

theorem getLsbD_channelBits (channels i : ℕ) :
    (channelBits channels).getLsbD i = (decide (i < 32) && decide (i < channels)) := by
  rw [channelBits, getLsbD_ofNat, Nat.testBit_two_pow_sub_one]

theorem getLsbD_bit (i j : ℕ) :
    (1#32 <<< i).getLsbD j = (decide (i < 32) && decide (i = j)) := getLsbD_twoPow i j

theorem controlPass_bits (data : List Byte) (cmd : SwitchBankCommand) {n : ℕ} (hn : n < 32)
    (i : ℕ) :
    (controlPass data cmd n).on.getLsbD i =
      (cmd.on.getLsbD i || decide (n = i) && decide (controlField data n = 1)) ∧
    (controlPass data cmd n).off.getLsbD i =
      (cmd.off.getLsbD i || decide (n = i) && decide (controlField data n = 0)) := by
  have hset : ∀ m : BitVec 32, (m ||| 1#32 <<< n).getLsbD i =
      (m.getLsbD i || decide (n = i) && true) := by
    intro m
    rw [getLsbD_or, getLsbD_bit, decide_eq_true hn, Bool.true_and, Bool.and_true]
  rw [controlPass]
  split_ifs with hone hzero
  · have hnot : ¬controlField data n = 0 := by rw [hone]; decide
    rw [hset, decide_eq_true hone, decide_eq_false hnot, Bool.and_false, Bool.or_false]
    exact ⟨rfl, rfl⟩
  · rw [hset, decide_eq_false hone, decide_eq_true hzero, Bool.and_false, Bool.or_false]
    exact ⟨rfl, rfl⟩
  · rw [decide_eq_false hone, decide_eq_false hzero, Bool.and_false, Bool.or_false, Bool.or_false]
    exact ⟨rfl, rfl⟩

theorem control_passes (data : List Byte) {n : ℕ} (hn : n ≤ 28) (i : ℕ) :
    ((List.range n).foldl (controlPass data) ⟨0, 0⟩).on.getLsbD i =
      (decide (i < n) && decide (controlField data i = 1)) ∧
    ((List.range n).foldl (controlPass data) ⟨0, 0⟩).off.getLsbD i =
      (decide (i < n) && decide (controlField data i = 0)) := by
  induction n with
  | zero => simp
  | succ n ih =>
    obtain ⟨hon, hoff⟩ := ih (by omega)
    obtain ⟨hon', hoff'⟩ := controlPass_bits data
      ((List.range n).foldl (controlPass data) ⟨0, 0⟩) (n := n) (by omega) i
    rw [List.range_succ, List.foldl_append, List.foldl_cons, List.foldl_nil, hon', hoff', hon, hoff]
    by_cases hlast : n = i
    · subst hlast
      simp
    · have hlt : i < n + 1 ↔ i < n := by omega
      simp [hlast, hlt]

theorem byte_of_fields : ∀ a b c d : BitVec 2, ∀ j : Fin 4,
    ((0 ||| a.setWidth 8 <<< 0 ||| b.setWidth 8 <<< 2 ||| c.setWidth 8 <<< 4 |||
      d.setWidth 8 <<< 6 : Byte) >>> (2 * j.val)) &&& 3 = ([a, b, c, d].getD j 0).setWidth 8 := by
  decide +kernel

theorem switchBankField_width (mask : BitVec 32) (channels i : ℕ) :
    ((switchBankField mask channels i).setWidth 2).setWidth 8 =
      switchBankField mask channels i := by
  rw [switchBankField]
  split_ifs <;> decide

theorem controlField_encoded (inst : Byte) (mask : BitVec 32) (channels : ℕ) {i : ℕ}
    (hi : i < 28) :
    controlField (switchBankEncodeStatus inst mask channels) i =
      switchBankField mask channels i := by
  have hbyte : (switchBankEncodeStatus inst mask channels).getD (1 + i / 4) 0 =
      (List.range 4).foldl (fun byte j =>
        byte ||| (switchBankField mask channels (4 * (i / 4) + j) <<< (2 * j))) 0 := by
    have hk : i / 4 < 7 := by omega
    rw [switchBankEncodeStatus, Nat.add_comm, List.getD_cons_succ, List.getD_eq_getElem?_getD,
      List.getElem?_map, List.getElem?_range hk]
    rfl
  have hfields := byte_of_fields ((switchBankField mask channels (4 * (i / 4))).setWidth 2)
    ((switchBankField mask channels (4 * (i / 4) + 1)).setWidth 2)
    ((switchBankField mask channels (4 * (i / 4) + 2)).setWidth 2)
    ((switchBankField mask channels (4 * (i / 4) + 3)).setWidth 2) ⟨i % 4, Nat.mod_lt i (by omega)⟩
  simp only [switchBankField_width] at hfields
  rw [controlField, hbyte]
  refine hfields.trans ?_
  have hsplit : 4 * (i / 4) + i % 4 = i := Nat.div_add_mod i 4
  have hcases : i % 4 = 0 ∨ i % 4 = 1 ∨ i % 4 = 2 ∨ i % 4 = 3 := by omega
  rcases hcases with h | h | h | h
  all_goals
    rw [h] at hsplit
    simp only [h]
    exact (switchBankField_width ..).trans (congrArg _ hsplit)

theorem decode_refuses (h : data.length < 8 ∨ data.getD 0 0 ≠ inst) (channels : ℕ)
    (out : SwitchBankCommand) :
    switchBankDecodeControl data inst channels out = (false, out) := if_pos h

/-- What a payload for the instance asks for. -/
theorem decode_accepts (hlen : 8 ≤ data.length) (hinst : data.getD 0 0 = inst) (channels : ℕ)
    (out : SwitchBankCommand) :
    ∃ cmd, switchBankDecodeControl data inst channels out = (true, cmd) ∧ ∀ i,
      cmd.on.getLsbD i = (decide (i < channels ∧ i < 28) && decide (controlField data i = 1)) ∧
      cmd.off.getLsbD i = (decide (i < channels ∧ i < 28) && decide (controlField data i = 0)) := by
  have haccept : ¬(data.length < switchBankPayloadLen ∨ data.getD 0 0 ≠ inst) := by
    rintro (hshort | hother)
    · exact absurd hshort (Nat.not_lt.mpr hlen)
    · exact hother hinst
  refine ⟨_, if_neg haccept, fun i => ?_⟩
  have hbelow : decide (i < min channels switchBankFields) = decide (i < channels ∧ i < 28) :=
    decide_eq_decide.mpr lt_min_iff
  obtain ⟨hon, hoff⟩ := control_passes data (min_le_right channels switchBankFields) i
  rw [hon, hoff, hbelow]
  exact ⟨rfl, rfl⟩

theorem length_encoded (inst : Byte) (mask : BitVec 32) (channels : ℕ) :
    (switchBankEncodeStatus inst mask channels).length = 8 := rfl

/-- A status read as a control, with the channels it was sent for or more. -/
theorem decode_encoded (inst : Byte) (mask : BitVec 32) (hchannels : channels ≤ 28) {more : ℕ}
    (hmore : channels ≤ more) (out : SwitchBankCommand) :
    switchBankDecodeControl (switchBankEncodeStatus inst mask channels) inst more out =
      (true, ⟨mask &&& channelBits channels, ~~~mask &&& channelBits channels⟩) := by
  have hinst : (switchBankEncodeStatus inst mask channels).getD 0 0 = inst := rfl
  obtain ⟨cmd, hcmd, hbits⟩ := decode_accepts
    (length_encoded inst mask channels).ge hinst more out
  have hsame : ∀ i < 32, cmd.on.getLsbD i = (mask.getLsbD i && decide (i < channels)) ∧
      cmd.off.getLsbD i = (!mask.getLsbD i && decide (i < channels)) := by
    intro i hi
    obtain ⟨hon, hoff⟩ := hbits i
    rw [hon, hoff]
    by_cases hrange : i < more ∧ i < 28
    · rw [decide_eq_true hrange, Bool.true_and, Bool.true_and,
        controlField_encoded inst mask channels hrange.2, switchBankField]
      by_cases hlow : i < channels
      · rw [if_neg (Nat.not_le.mpr hlow), decide_eq_true hlow]
        cases mask.getLsbD i <;> decide
      · rw [if_pos (Nat.not_lt.mp hlow), decide_eq_false hlow, Bool.and_false, Bool.and_false]
        decide
    · have hlow : ¬i < channels := fun hlow => hrange ⟨by omega, by omega⟩
      rw [decide_eq_false hrange, decide_eq_false hlow]
      simp
  have hon : cmd.on = mask &&& channelBits channels := by
    refine eq_of_getLsbD_eq fun i hi => ?_
    rw [(hsame i hi).1, getLsbD_and, getLsbD_channelBits, decide_eq_true hi, Bool.true_and]
  have hoff : cmd.off = ~~~mask &&& channelBits channels := by
    refine eq_of_getLsbD_eq fun i hi => ?_
    rw [(hsame i hi).2, getLsbD_and, getLsbD_not, getLsbD_channelBits, decide_eq_true hi,
      Bool.true_and, Bool.true_and]
  rw [hcmd, ← hon, ← hoff]

/-- What is sent is read back, and of any payload each field switches its own
channel or none. -/
theorem switch_bank_codec :
    (∀ inst mask channels more out, channels ≤ 28 → channels ≤ more →
      switchBankDecodeControl (switchBankEncodeStatus inst mask channels) inst more out =
        (true, ⟨mask &&& channelBits channels, ~~~mask &&& channelBits channels⟩)) ∧
    ∀ data inst channels out,
      (data.length < 8 ∨ data.getD 0 0 ≠ inst →
        switchBankDecodeControl data inst channels out = (false, out)) ∧
      (8 ≤ data.length → data.getD 0 0 = inst →
        ∃ cmd, switchBankDecodeControl data inst channels out = (true, cmd) ∧
          cmd.on &&& cmd.off = 0 ∧
          (∀ i, (cmd.on ||| cmd.off).getLsbD i = true → i < channels ∧ i < 28) ∧
          ∀ i, i < channels → i < 28 →
            (cmd.on.getLsbD i = true ↔ controlField data i = 1) ∧
            (cmd.off.getLsbD i = true ↔ controlField data i = 0)) := by
  refine ⟨fun inst mask channels more out hchannels hmore =>
    decode_encoded inst mask hchannels hmore out, fun data inst channels out =>
    ⟨fun h => decode_refuses h channels out, fun hlen hinst => ?_⟩⟩
  obtain ⟨cmd, hcmd, hbits⟩ := decode_accepts hlen hinst channels out
  refine ⟨cmd, hcmd, ?_, fun i hi => ?_, fun i hlow hi => ?_⟩
  · refine eq_of_getLsbD_eq fun i _ => ?_
    rw [getLsbD_and, (hbits i).1, (hbits i).2]
    by_cases hone : controlField data i = 1
    · have hzero : ¬controlField data i = 0 := by rw [hone]; decide
      rw [decide_eq_false hzero, Bool.and_false, Bool.and_false]
      exact (getLsbD_zero).symm
    · rw [decide_eq_false hone, Bool.and_false, Bool.false_and]
      exact (getLsbD_zero).symm
  · rw [getLsbD_or, (hbits i).1, (hbits i).2, ← Bool.and_or_distrib_left, Bool.and_eq_true,
      decide_eq_true_iff] at hi
    exact hi.1
  · have hrange : i < channels ∧ i < 28 := ⟨hlow, hi⟩
    rw [(hbits i).1, (hbits i).2, decide_eq_true hrange]
    simp

end RelayBoard
