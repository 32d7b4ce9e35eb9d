import RelayBoard.Lib.Numerals
import RelayBoard.Lib.Spans
import RelayBoard.Morse
import RelayBoard.ScheduleText

/-!
# Alarm messages on the buzzer

`indicator_alarm_text`, `indicator_input_alarm_text` and `morse_tone_at`: what
the buzzer says during an alarm, and when its tone is on.
-/

set_option autoImplicit false

namespace RelayBoard
open Lib.Numerals Lib.Scanning Lib.Spans

/-- `INDICATOR_INPUT_ALARM_TEXT_MAX` -/
def indicatorInputAlarmTextMax : ℕ := 24

/-- `MAX_SEGS` -/
def maxSegs : ℕ := 128

/-- `MORSE_UNIT_MS` -/
def morseUnitMs : BitVec 32 := 80#32

/-- `MORSE_PAUSE_MS` -/
def morsePauseMs : BitVec 32 := 5000#32

def inputAlarmPass (mask : Byte) (size : ℕ) (s : ℕ × List Byte) (i : ℕ) : ℕ × List Byte :=
  if s.1 < size ∧ mask.getLsbD i then
    (s.1 + (ascii " " ++ decimal (i + 1)).length,
      s.2 ++ snprintf (size - s.1) (ascii " " ++ decimal (i + 1)))
  else s

/-- `indicator_input_alarm_text` for a buffer that is not empty. -/
def indicatorInputAlarmText (mask : Byte) (size : ℕ) : List Byte :=
  if mask = 0 then []
  else ((List.range 8).foldl (inputAlarmPass mask size) (2, snprintf size (ascii "IN"))).2

def afterLastDot : List Byte → Option (List Byte)
  | [] => none
  | c :: s => (afterLastDot s).orElse fun _ => if c = dot then some s else none

/-- The last octet of an address, none without a usable one. -/
def lastOctet (ip : Option (List Byte)) : Option (Option ℤ) :=
  match (ip.filter (· ≠ ascii "0.0.0.0")).bind afterLastDot with
  | none => some none
  | some rest => do
    let (octet, stop) ← strtol 32 10 (terminated rest)
    return if stop.length ≠ (terminated rest).length ∧ stop.head? = some 0#8 ∧ 0 ≤ octet ∧
      octet ≤ 255 then some octet else none

def indicatorAlarmText (ip : Option (List Byte)) (size : ℕ) : Option (List Byte) := do
  let octet ← lastOctet ip
  return snprintf size
    (match octet with
    | some octet => ascii "ESP " ++ decimal octet.toNat
    | none => ascii "ESP AP")

def segMs (unitMs : BitVec 32) (seg : MorseSeg) : BitVec 32 := BitVec.ofNat 32 seg.units * unitMs

def morseDurationMs (segs : List MorseSeg) (unitMs : BitVec 32) : BitVec 32 :=
  segs.foldl (fun total seg => total + segMs unitMs seg) 0

/-- The walk along the segments; past the last one is the pause. -/
def morseToneFrom (unitMs : BitVec 32) : List MorseSeg → BitVec 32 → Bool
  | [], _ => false
  | seg :: segs, t => if t < segMs unitMs seg then seg.on
    else morseToneFrom unitMs segs (t - segMs unitMs seg)

def morseToneAt (segs : List MorseSeg) (unitMs pauseMs t : BitVec 32) : Bool :=
  let total := morseDurationMs segs unitMs
  if total = 0 then false else morseToneFrom unitMs segs (t % (total + pauseMs))

section Tone

variable {segs : List MorseSeg} {unitMs pauseMs : BitVec 32}

def segLength (unitMs : BitVec 32) (seg : MorseSeg) : ℕ := seg.units * unitMs.toNat

theorem segMs_toNat {seg : MorseSeg} (h : segLength unitMs seg < 2 ^ 32) :
    (segMs unitMs seg).toNat = segLength unitMs seg := by
  rw [segMs, BitVec.toNat_mul, BitVec.toNat_ofNat, Nat.mod_mul_mod]
  exact Nat.mod_eq_of_lt h

theorem segMs_of_total (h : total (segLength unitMs) segs < 2 ^ 32) {seg : MorseSeg}
    (hseg : seg ∈ segs) : (segMs unitMs seg).toNat = segLength unitMs seg := by
  exact segMs_toNat ((len_le_total hseg).trans_lt h)

theorem foldl_segMs (sum : BitVec 32)
    (h : sum.toNat + total (segLength unitMs) segs < 2 ^ 32) :
    (segs.foldl (fun total seg => total + segMs unitMs seg) sum).toNat =
      sum.toNat + total (segLength unitMs) segs := by
  induction segs generalizing sum with
  | nil => rfl
  | cons seg segs ih =>
    rw [total_cons] at h ⊢
    have hseg : (segMs unitMs seg).toNat = segLength unitMs seg := segMs_toNat (by omega)
    have hadd : (sum + segMs unitMs seg).toNat = sum.toNat + segLength unitMs seg := by
      rw [BitVec.toNat_add, hseg, Nat.mod_eq_of_lt (by omega)]
    rw [List.foldl_cons, ih _ (by omega), hadd, Nat.add_assoc]

theorem morseDurationMs_toNat (h : total (segLength unitMs) segs < 2 ^ 32) :
    (morseDurationMs segs unitMs).toNat = total (segLength unitMs) segs := by
  rw [morseDurationMs, foldl_segMs 0 (by simpa using h)]
  simp

theorem morseToneFrom_eq (h : total (segLength unitMs) segs < 2 ^ 32) (t : BitVec 32) :
    morseToneFrom unitMs segs t =
      ((find (segLength unitMs) segs t.toNat).map MorseSeg.on).getD false := by
  induction segs generalizing t with
  | nil => rfl
  | cons seg segs ih =>
    have hseg := segMs_of_total h (List.mem_cons_self (a := seg) (l := segs))
    have hrest : total (segLength unitMs) segs < 2 ^ 32 := by
      rw [total_cons] at h
      omega
    have hlt : t < segMs unitMs seg ↔ t.toNat < segLength unitMs seg := by
      rw [BitVec.lt_def, hseg]
    rw [morseToneFrom, find]
    by_cases ht : t.toNat < segLength unitMs seg
    · rw [if_pos (hlt.mpr ht), if_pos ht]
      rfl
    · have hsub : (t - segMs unitMs seg).toNat = t.toNat - segLength unitMs seg := by
        rw [BitVec.toNat_sub_of_le, hseg]
        rw [BitVec.le_def, hseg]
        exact Nat.not_lt.mp ht
      rw [if_neg (fun h => ht (hlt.mp h)), if_neg ht, ih hrest, hsub]

/-- The tone repeats with the pause, and within a round it is on during the
spans of the segments that are on. -/
theorem morseToneAt_iff (h : total (segLength unitMs) segs + pauseMs.toNat < 2 ^ 32)
    (t : BitVec 32) :
    morseToneAt segs unitMs pauseMs t = true ↔ ∃ i seg, segs[i]? = some seg ∧ seg.on = true ∧
      Covers (segLength unitMs) segs i
        (t.toNat % (total (segLength unitMs) segs + pauseMs.toNat)) := by
  have hlt : total (segLength unitMs) segs < 2 ^ 32 := by omega
  have hduration := morseDurationMs_toNat hlt
  have hperiod : (t % (morseDurationMs segs unitMs + pauseMs)).toNat =
      t.toNat % (total (segLength unitMs) segs + pauseMs.toNat) := by
    rw [BitVec.toNat_umod, BitVec.toNat_add, hduration, Nat.mod_eq_of_lt h]
  unfold morseToneAt
  dsimp only
  split_ifs with hzero
  · refine iff_of_false (by simp) ?_
    rintro ⟨i, seg, hseg, -, x, hx, hle, hbelow⟩
    have htotal : total (segLength unitMs) segs = 0 := by
      rw [← hduration, hzero]
      rfl
    have hx0 : segLength unitMs x ≤ total (segLength unitMs) segs :=
      len_le_total (List.mem_of_getElem? hx)
    omega
  · rw [morseToneFrom_eq hlt, hperiod]
    constructor
    · intro hon
      cases hfind : find (segLength unitMs) segs
          (t.toNat % (total (segLength unitMs) segs + pauseMs.toNat)) with
      | none =>
        rw [hfind] at hon
        cases hon
      | some seg =>
        rw [hfind] at hon
        obtain ⟨i, hseg, hcovers⟩ := find_eq_some_iff.mp hfind
        exact ⟨i, seg, hseg, hon, hcovers⟩
    · rintro ⟨i, seg, hseg, hon, hcovers⟩
      rw [find_of_covers hseg hcovers]
      exact hon

end Tone

section Messages

def inputNumbers (mask : Byte) : List ℕ :=
  ((List.range 8).filter fun i => mask.getLsbD i).map (· + 1)

/-- The buffer has room for every input. -/
theorem indicatorInputAlarmText_eq : ∀ mask : Byte, mask ≠ 0 →
    indicatorInputAlarmText mask indicatorInputAlarmTextMax =
      ascii "IN" ++ (inputNumbers mask).flatMap fun n => ascii " " ++ decimal n := by
  decide +kernel

def Speakable (text : List Byte) : Prop :=
  (morseSegs text).length ≤ maxSegs ∧ spoken text = text

instance (text : List Byte) : Decidable (Speakable text) :=
  inferInstanceAs (Decidable (_ ∧ _))

theorem inputAlarmText_speakable : ∀ mask : Byte, mask ≠ 0 →
    Speakable (indicatorInputAlarmText mask indicatorInputAlarmTextMax) := by
  decide +kernel

theorem octetText_speakable : ∀ n : Fin 256, Speakable (ascii "ESP " ++ decimal n.val) := by
  decide +kernel

theorem lastOctet_cases (ip : Option (List Byte)) :
    ∃ octet, lastOctet ip = some octet ∧ ∀ n, octet = some n → 0 ≤ n ∧ n ≤ 255 := by
  unfold lastOctet
  cases (ip.filter (· ≠ ascii "0.0.0.0")).bind afterLastDot with
  | none => exact ⟨none, rfl, fun n hn => by cases hn⟩
  | some rest =>
    obtain ⟨n, -, -, stop, hstrtol, -⟩ := strtol_split 32 10 rest
    dsimp only
    rw [hstrtol]
    refine ⟨_, rfl, fun m hm => ?_⟩
    split_ifs at hm with hok
    obtain rfl := Option.some.inj hm
    exact hok.2.2

theorem octetText_fits {size : ℕ} (hsize : 16 ≤ size) (n : Fin 256) :
    snprintf size (ascii "ESP " ++ decimal n.val) = ascii "ESP " ++ decimal n.val := by
  have hshort : ∀ n : Fin 256, (ascii "ESP " ++ decimal n.val).length ≤ 15 := by decide +kernel
  exact List.take_of_length_le ((hshort n).trans (by omega))

theorem indicatorAlarmText_cases (ip : Option (List Byte)) {size : ℕ} (hsize : 16 ≤ size) :
    ∃ text, indicatorAlarmText ip size = some text ∧
      (text = ascii "ESP AP" ∨ ∃ n : Fin 256, text = ascii "ESP " ++ decimal n.val) := by
  obtain ⟨octet, hoctet, hrange⟩ := lastOctet_cases ip
  unfold indicatorAlarmText
  rw [hoctet]
  refine ⟨_, rfl, ?_⟩
  cases octet with
  | none =>
    left
    have hlength : (ascii "ESP AP").length ≤ 15 := by decide
    exact List.take_of_length_le (hlength.trans (by omega))
  | some n =>
    obtain ⟨hlow, hhigh⟩ := hrange n rfl
    right
    exact ⟨⟨n.toNat, by omega⟩, octetText_fits hsize ⟨n.toNat, by omega⟩⟩

theorem afterLastDot_none {w : List Byte} (h : dot ∉ w) : afterLastDot w = none := by
  induction w with
  | nil => rfl
  | cons c w ih =>
    have hc : c ≠ dot := fun hc => h (by simp [hc])
    rw [afterLastDot, ih fun hmem => h (List.mem_cons_of_mem c hmem), if_neg hc]
    rfl

theorem afterLastDot_append (front : List Byte) {w : List Byte} (h : dot ∉ w) :
    afterLastDot (front ++ dot :: w) = some w := by
  induction front with
  | nil => rw [List.nil_append, afterLastDot, afterLastDot_none h, if_pos rfl]; rfl
  | cons c front ih => rw [List.cons_append, afterLastDot, ih]; rfl

theorem strtol_decimal {n : ℕ} (hn : n ≤ 255) :
    strtol 32 10 (terminated (decimal n)) = some ((n : ℤ), [0#8]) := by
  have hne : decimal n ≠ [] := by
    rw [decimal_eq]
    split_ifs <;> simp
  have hend : digitOf 10 0#8 = none ∧ isX 0#8 = false := by decide
  have hread := strto_decimal false hne (decimal_digits n).1 hend.1 hend.2 []
  rw [if_neg Bool.false_ne_true, List.nil_append, (decimal_digits n).2] at hread
  rw [strtol, terminated, hread]
  simp only [Option.bind_eq_bind, Option.bind_some, Bool.false_eq_true, if_false]
  rw [min_eq_left (by omega)]
  rfl

/-- An address that ends in a dot and a number up to 255 is announced by it. -/
theorem indicatorAlarmText_octet (front : List Byte) (n : ℕ) (hn : n ≤ 255)
    (hzero : front ++ dot :: decimal n ≠ ascii "0.0.0.0") {size : ℕ} (hsize : 16 ≤ size) :
    indicatorAlarmText (some (front ++ dot :: decimal n)) size =
      some (ascii "ESP " ++ decimal n) := by
  have hdot : dot ∉ decimal n := by
    intro hmem
    have hdigit := (decimal_digits n).1 dot hmem
    revert hdigit
    decide
  have hne : decimal n ≠ [] := by
    rw [decimal_eq]
    split_ifs <;> simp
  have hlength : ¬([0#8] : List Byte).length = (terminated (decimal n)).length := by
    have hpos := List.length_pos_of_ne_nil hne
    rw [terminated, List.length_append]
    omega
  have hoctet : lastOctet (some (front ++ dot :: decimal n)) = some (some (n : ℤ)) := by
    have hkept : (some (front ++ dot :: decimal n)).filter (· ≠ ascii "0.0.0.0") =
        some (front ++ dot :: decimal n) :=
      Option.filter_eq_some_iff.mpr ⟨rfl, by simpa using hzero⟩
    rw [lastOctet, hkept, Option.bind_some, afterLastDot_append front hdot]
    dsimp only
    rw [strtol_decimal hn, Option.bind_eq_bind, Option.bind_some, if_pos]
    · rfl
    · exact ⟨hlength, rfl, by omega, by omega⟩
  rw [indicatorAlarmText, hoctet]
  show some (snprintf size (ascii "ESP " ++ decimal (n : ℤ).toNat)) = _
  rw [Int.toNat_natCast, octetText_fits hsize ⟨n, by omega⟩]

/-- What the buzzer says during an alarm. -/
def AlarmMessage (text : List Byte) : Prop :=
  (∃ ip size, 16 ≤ size ∧ indicatorAlarmText ip size = some text) ∨
    ∃ mask, mask ≠ 0 ∧ indicatorInputAlarmText mask indicatorInputAlarmTextMax = text

theorem AlarmMessage.speakable {text : List Byte} (h : AlarmMessage text) : Speakable text := by
  rcases h with ⟨ip, size, hsize, hip⟩ | ⟨mask, hmask, rfl⟩
  · obtain ⟨t, ht, hcases⟩ := indicatorAlarmText_cases ip hsize
    rw [hip] at ht
    obtain rfl := Option.some.inj ht
    rcases hcases with rfl | ⟨n, rfl⟩
    · decide +kernel
    · exact octetText_speakable n
  · exact inputAlarmText_speakable mask hmask

theorem total_segLength_le {segs : List MorseSeg} (h : ∀ seg ∈ segs, ProperUnits seg)
    (unitMs : BitVec 32) :
    total (segLength unitMs) segs ≤ segs.length * (7 * unitMs.toNat) := by
  induction segs with
  | nil => exact Nat.zero_le _
  | cons seg segs ih =>
    have hunits : seg.units ≤ 7 := by
      rcases h seg (List.mem_cons_self ..) with ⟨-, hu⟩ | ⟨-, hu⟩ <;> omega
    have hlen : segLength unitMs seg ≤ 7 * unitMs.toNat := Nat.mul_le_mul_right _ hunits
    have hrest := ih fun s hs => h s (List.mem_cons_of_mem _ hs)
    rw [total_cons, List.length_cons, Nat.succ_mul]
    omega

theorem morseSegs_reads (text : List Byte) :
    readBack (morseSegs text) = some (spoken text) ∧ ∀ seg ∈ morseSegs text, ProperUnits seg := by
  rw [readBack, morseSegs]
  rcases morseSegs_spec text with h | h
  · rw [h.state, h.nothing]
    exact ⟨rfl, fun seg hseg => by cases hseg⟩
  · obtain ⟨r, hr, hclose⟩ := h.reads
    rw [hr]
    exact ⟨hclose, h.sound.proper⟩

/-- A message and its pause are short against the clock. -/
theorem AlarmMessage.segs {text : List Byte} (h : AlarmMessage text) :
    readBack (morseEncode text maxSegs) = some text ∧
      total (segLength morseUnitMs) (morseEncode text maxSegs) + morsePauseMs.toNat < 2 ^ 32 := by
  obtain ⟨hroom, hspoken⟩ := h.speakable
  obtain ⟨hreads, hproper⟩ := morseSegs_reads text
  have hwhole : morseEncode text maxSegs = morseSegs text := by
    rw [morseEncode_eq_take, List.take_of_length_le hroom]
  have htotal := total_segLength_le hproper morseUnitMs
  rw [hwhole]
  refine ⟨by rw [hreads, hspoken], ?_⟩
  have hunit : morseUnitMs.toNat = 80 := rfl
  have hpause : morsePauseMs.toNat = 5000 := rfl
  have hbound : (morseSegs text).length * (7 * 80) ≤ maxSegs * (7 * 80) :=
    Nat.mul_le_mul_right _ hroom
  have hsegs : maxSegs = 128 := rfl
  rw [hunit] at htotal
  omega

def OnAt (segs : List MorseSeg) (t : ℕ) : Prop :=
  ∃ i seg, segs[i]? = some seg ∧ seg.on = true ∧ Covers (segLength morseUnitMs) segs i t

/-- The whole message is sounded, round after round: the tone is on at a time
exactly during the segments that are on, and reading these gives the message
back. -/
theorem alarm_message_sounds (text : List Byte) (h : AlarmMessage text) (t : BitVec 32) :
    readBack (morseEncode text maxSegs) = some text ∧
      (morseToneAt (morseEncode text maxSegs) morseUnitMs morsePauseMs t = true ↔
        OnAt (morseEncode text maxSegs)
          (t.toNat % (total (segLength morseUnitMs) (morseEncode text maxSegs) + 5000))) :=
  ⟨h.segs.1, morseToneAt_iff h.segs.2 t⟩

theorem alarm_message_sounds_inputs :
    AlarmMessage (ascii "IN 3 5") ∧ readBack (morseEncode (ascii "IN 3 5") maxSegs) =
      some (ascii "IN 3 5") := by
  have h : AlarmMessage (ascii "IN 3 5") := .inr ⟨0x14#8, by decide, by decide +kernel⟩
  exact ⟨h, (alarm_message_sounds _ h 0#32).1⟩

end Messages

end RelayBoard
