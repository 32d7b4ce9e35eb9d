import RelayBoard.ScheduleEval
import RelayBoard.Text
import RelayBoard.Lib.Scanning

/-!
# Schedule strings

The scanners of `device_config.c` for on and off times. A scanner works on a
pointer into a string, and has no result if it reads past the terminating zero.
-/

set_option autoImplicit false

namespace RelayBoard
open Lib.Scanning

/-- Times of day and offsets are below 24 hours. -/
def scheduleMaxMin : ℕ := 1439

def hhmm (a b c d : Byte) : Option ℕ :=
  let h := digit a * 10 + digit b
  let m := digit c * 10 + digit d
  if 23 < h ∨ 59 < m then none else some (h * 60 + m)

/-- The inner option is what the function stores where it returns true. -/
def parseHhmm (s : List Byte) : Option (Option ℕ) := do
  let a ← s[0]?
  if !isDigit a then return none
  let b ← s[1]?
  if !isDigit b then return none
  let colon ← s[2]?
  if colon ≠ 0x3a#8 then return none
  let c ← s[3]?
  if !isDigit c then return none
  let d ← s[4]?
  if !isDigit d then return none
  let stop ← s[5]?
  if stop ≠ 0#8 then return none
  return hhmm a b c d

/-- `parse_offset_suffix` after the sign. -/
def parseOffsetDigits (sign : ℤ) (s : List Byte) : Option (Option ℤ) := do
  let (digits, v, s) ← scanDigits 4 0 0 s
  if digits = 0 then return none
  let unit ← s[0]?
  let s := if unit = 0x6d#8 then s.drop 1 else s
  let stop ← s[0]?
  if stop ≠ 0#8 ∨ scheduleMaxMin < v then return none
  return some (sign * v)

def parseOffsetSuffix (s : List Byte) : Option (Option ℤ) := do
  let c ← s[0]?
  if c = 0#8 then return some 0
  if c = 0x2b#8 then parseOffsetDigits 1 (s.drop 1)
  else if c = 0x2d#8 then parseOffsetDigits (-1) (s.drop 1)
  else return none

/-- The kind is stored before the offset is parsed. -/
def parseSunTime (kind : ScheduleTimeKind) (s : List Byte) (out : ScheduleTime) :
    Option (Bool × ScheduleTime) := do
  match ← parseOffsetSuffix s with
  | none => return (false, { out with kind := kind })
  | some v => return (true, { out with kind := kind, offsetMin := v })

def parseScheduleTime (s : List Byte) (out : ScheduleTime) : Option (Bool × ScheduleTime) := do
  if ← startsWith (ascii "sunrise") s then parseSunTime .sunrise (s.drop 7) out
  else if ← startsWith (ascii "sunset") s then parseSunTime .sunset (s.drop 6) out
  else
    match ← parseHhmm s with
    | none => return (false, out)
    | some m => return (true, { out with kind := .clock, minuteOfDay := m })

def parseMinutes (s : List Byte) : Option (Option ℕ) := do
  let c ← s[0]?
  if !isDigit c then return none
  let (_, v, s) ← scanDigits 4 0 0 s
  let stop ← s[0]?
  if stop ≠ 0#8 ∨ v < 1 ∨ scheduleMaxMin < v then return none
  return some v

example : parseScheduleTime (terminated (ascii "sunset-90m")) ⟨.clock, 0, 0⟩ =
    some (true, ⟨.sunset, 0, -90⟩) := by decide

example : parseScheduleTime (terminated (ascii "24:00")) ⟨.clock, 0, 0⟩ =
    some (false, ⟨.clock, 0, 0⟩) := by decide

structure Digits (lo hi : ℕ) (ds : List Byte) : Prop where
  atLeast : lo ≤ ds.length
  atMost : ds.length ≤ hi
  digits : ∀ c ∈ ds, isDigit c = true

def ScheduleTimeKind.word : ScheduleTimeKind → Option (List Byte)
  | .clock => none
  | .sunrise => some (ascii "sunrise")
  | .sunset => some (ascii "sunset")

inductive OffsetDigits : List Byte → ℕ → Prop
  | digits {ds unit : List Byte} (hdigits : Digits 1 4 ds) (hmax : value ds ≤ scheduleMaxMin)
      (hunit : unit = [] ∨ unit = ascii "m") : OffsetDigits (ds ++ unit) (value ds)

inductive OffsetText : List Byte → ℤ → Prop
  | bare : OffsetText [] 0
  | plus {text : List Byte} {v : ℕ} (h : OffsetDigits text v) : OffsetText (0x2b#8 :: text) v
  | minus {text : List Byte} {v : ℕ} (h : OffsetDigits text v) : OffsetText (0x2d#8 :: text) (-v)

/-- The strings for a time, with the kind and the minutes they denote. -/
inductive TimeText : List Byte → ScheduleTimeKind → ℤ → Prop
  | clock {hh mm : List Byte} (hhour : Digits 2 2 hh) (hminute : Digits 2 2 mm)
      (h23 : value hh ≤ 23) (h59 : value mm ≤ 59) :
      TimeText (hh ++ 0x3a#8 :: mm) .clock (value hh * 60 + value mm : ℕ)
  | sun {kind : ScheduleTimeKind} {word rest : List Byte} {v : ℤ} (hword : kind.word = some word)
      (hrest : OffsetText rest v) : TimeText (word ++ rest) kind v

inductive MinutesText : List Byte → ℕ → Prop
  | minutes {ds : List Byte} (hdigits : Digits 1 4 ds) (hmin : 1 ≤ value ds)
      (hmax : value ds ≤ scheduleMaxMin) : MinutesText ds (value ds)

theorem MinutesText.range {text : List Byte} {v : ℕ} (h : MinutesText text v) :
    1 ≤ v ∧ v ≤ scheduleMaxMin := by
  cases h with
  | minutes _ hmin hmax => exact ⟨hmin, hmax⟩

def ScheduleTime.set (t : ScheduleTime) (kind : ScheduleTimeKind) (v : ℤ) : ScheduleTime :=
  match kind with
  | .clock => { t with kind := .clock, minuteOfDay := v }
  | .sunrise => { t with kind := .sunrise, offsetMin := v }
  | .sunset => { t with kind := .sunset, offsetMin := v }

theorem scan_stop {front back rest : List Byte} {n v : ℕ} (h : Digits 1 4 front)
    (hback : ∀ c ∈ back.head?, isDigit c = false)
    (hscan : scanDigits 4 0 0 (terminated (front ++ back)) = some (n, v, terminated rest)) :
    n = front.length ∧ v = value front ∧ rest = back := by
  have hmost : 0 + front.length ≤ 4 := by have := h.atMost; omega
  obtain ⟨c, s, hs, hc⟩ : ∃ c s, terminated back = c :: s ∧ isDigit c = false := by
    cases back with
    | nil => exact ⟨0#8, [], rfl, isDigit_zero⟩
    | cons c s => exact ⟨c, terminated s, rfl, hback c rfl⟩
  have hall := scanDigits_append (v := 0) front h.digits hmost c s hc
  rw [terminated_append, hs, hall, ← hs, Nat.zero_add] at hscan
  simp only [Option.some.injEq, Prod.mk.injEq] at hscan
  exact ⟨hscan.1.symm, hscan.2.1.symm, terminated_inj hscan.2.2.symm⟩

theorem scan_some (text : List Byte) : ∃ ds rest, text = ds ++ rest ∧
    scanDigits 4 0 0 (terminated text) = some (ds.length, value ds, terminated rest) ∧
    (∀ c ∈ ds, isDigit c = true) ∧ ds.length ≤ 4 := by
  obtain ⟨ds, rest, htext, hscan, hds, hlen⟩ := scanDigits_terminated (v := 0) text (Nat.zero_le 4)
  rw [Nat.zero_add] at hscan hlen
  exact ⟨ds, rest, htext, hscan, hds, hlen⟩

theorem parseMinutes_scan {s rest : List Byte} {c stop : Byte} {n v : ℕ} (hc : s[0]? = some c)
    (hdigit : isDigit c = true) (hscan : scanDigits 4 0 0 s = some (n, v, rest))
    (hstop : rest[0]? = some stop) :
    parseMinutes s =
      some (if stop ≠ 0#8 ∨ v < 1 ∨ scheduleMaxMin < v then none else some v) := by
  simp only [parseMinutes, hc, hdigit, hscan, hstop, bind, Option.bind, pure]
  split_ifs <;> first | rfl | contradiction

/-- `parse_minutes` stays within every string and takes those of the grammar. -/
theorem parseMinutes_spec (text : List Byte) (h : 0#8 ∉ text) :
    ∃ r, parseMinutes (terminated text) = some r ∧ ∀ v, r = some v ↔ MinutesText text v := by
  cases text with
  | nil =>
    refine ⟨none, rfl, fun v => iff_of_false (by simp) ?_⟩
    rintro ⟨hdigits, -, -⟩
    exact absurd hdigits.atLeast (by simp)
  | cons c text =>
    by_cases hc : isDigit c = true
    · obtain ⟨ds, rest, htext, hscan, hds, hlen⟩ := scan_some (c :: text)
      have hrest : 0#8 ∉ rest := fun hmem => h (htext ▸ List.mem_append_right ds hmem)
      obtain ⟨stop, hstop, hend⟩ := terminated_head rest hrest
      refine ⟨_, parseMinutes_scan rfl hc hscan hstop, fun v => ?_⟩
      constructor
      · intro hv
        split_ifs at hv with hbad
        rw [not_or, not_or, not_not, hend] at hbad
        obtain ⟨rfl, hmin, hmax⟩ := hbad
        obtain rfl := Option.some.inj hv
        have hleast : 1 ≤ ds.length := by
          rw [← List.append_nil ds, ← htext]
          exact Nat.le_add_left 1 _
        rw [htext, List.append_nil]
        exact .minutes ⟨hleast, hlen, hds⟩ (by omega) (by omega)
      · rintro ⟨hdigits, hmin, hmax⟩
        rw [← List.append_nil (c :: text)] at hscan
        obtain ⟨-, hvalue, rfl⟩ := scan_stop hdigits (by simp) hscan
        rw [if_neg, hvalue]
        rw [hvalue]
        rintro (hstop | hrange)
        · exact hstop (hend.mpr rfl)
        · omega
    · refine ⟨none, by simp [parseMinutes, hc], fun v => iff_of_false (by simp) ?_⟩
      rintro ⟨hdigits, -, -⟩
      exact hc (hdigits.digits c (List.mem_cons_self ..))

theorem parseOffsetDigits_scan {s rest : List Byte} {unit stop : Byte} {n v : ℕ} (sign : ℤ)
    (hscan : scanDigits 4 0 0 s = some (n, v, rest)) (hunit : rest[0]? = some unit)
    (hstop : (if unit = 0x6d#8 then rest.drop 1 else rest)[0]? = some stop) :
    parseOffsetDigits sign s = some (if n = 0 ∨ stop ≠ 0#8 ∨ scheduleMaxMin < v then none
      else some (sign * v)) := by
  simp only [parseOffsetDigits, hscan, hunit, hstop, bind, Option.bind, pure]
  split_ifs <;> first | rfl | grind

theorem unit_stop (rest : List Byte) (h : 0#8 ∉ rest) : ∃ unit stop,
    (terminated rest)[0]? = some unit ∧
      (if unit = 0x6d#8 then (terminated rest).drop 1 else terminated rest)[0]? = some stop ∧
      (stop = 0#8 ↔ rest = [] ∨ rest = ascii "m") := by
  cases rest with
  | nil => exact ⟨0#8, 0#8, rfl, rfl, by simp⟩
  | cons c rest =>
    by_cases hc : c = 0x6d#8
    · obtain ⟨stop, hstop, hend⟩ :=
        terminated_head rest (fun hmem => h (List.mem_cons_of_mem c hmem))
      refine ⟨c, stop, rfl, ?_, ?_⟩
      · rw [if_pos hc]
        exact hstop
      · rw [hend, hc]
        simp [ascii]
    · refine ⟨c, c, rfl, ?_, ?_⟩
      · rw [if_neg hc]
        rfl
      · have hne : c ≠ 0#8 := fun hzero => h (by simp [hzero])
        simp [hne, ascii, hc]

theorem parseOffsetDigits_spec (sign : ℤ) (text : List Byte) (h : 0#8 ∉ text) :
    ∃ r, parseOffsetDigits sign (terminated text) = some r ∧
      ∀ v, r = some v ↔ ∃ n, OffsetDigits text n ∧ v = sign * n := by
  obtain ⟨ds, rest, htext, hscan, hds, hlen⟩ := scan_some text
  have hrest : 0#8 ∉ rest := fun hmem => h (htext ▸ List.mem_append_right ds hmem)
  obtain ⟨unit, stop, hunit, hstop, hend⟩ := unit_stop rest hrest
  refine ⟨_, parseOffsetDigits_scan sign hscan hunit hstop, fun v => ?_⟩
  constructor
  · intro hv
    split_ifs at hv with hbad
    rw [not_or, not_or, not_not, hend] at hbad
    obtain ⟨hsome, hback, hmax⟩ := hbad
    refine ⟨value ds, ?_, (Option.some.inj hv).symm⟩
    rw [htext]
    exact .digits ⟨by omega, hlen, hds⟩ (by omega) hback
  · rintro ⟨n, @⟨front, back, hdigits, hmax, hback⟩, rfl⟩
    have hhead : ∀ c ∈ back.head?, isDigit c = false := by
      rcases hback with rfl | rfl
      · simp
      · simp [ascii, isDigit]
    obtain ⟨hn, hvalue, rfl⟩ := scan_stop hdigits hhead hscan
    rw [if_neg, hvalue]
    rw [hvalue, hn]
    have hleast := hdigits.atLeast
    rintro (hzero | hstop | hrange)
    · omega
    · exact hstop (hend.mpr hback)
    · omega

/-- `parse_offset_suffix` stays within every string and takes those of the
grammar. -/
theorem parseOffsetSuffix_spec (text : List Byte) (h : 0#8 ∉ text) :
    ∃ r, parseOffsetSuffix (terminated text) = some r ∧ ∀ v, r = some v ↔ OffsetText text v := by
  cases text with
  | nil =>
    refine ⟨some 0, rfl, fun v => ?_⟩
    constructor
    · rintro ⟨⟩
      exact .bare
    · rintro ⟨⟩
      rfl
  | cons c text =>
    have hc : c ≠ 0#8 := fun hzero => h (by simp [hzero])
    have htext : 0#8 ∉ text := fun hmem => h (List.mem_cons_of_mem c hmem)
    by_cases hplus : c = 0x2b#8
    · obtain ⟨r, hr, hiff⟩ := parseOffsetDigits_spec 1 text htext
      refine ⟨r, ?_, fun v => ?_⟩
      · rw [← hr, hplus]
        rfl
      · rw [hiff, hplus]
        constructor
        · rintro ⟨n, hn, rfl⟩
          rw [one_mul]
          exact .plus hn
        · intro htext
          cases htext with
          | plus hn => exact ⟨_, hn, (one_mul _).symm⟩
    · by_cases hminus : c = 0x2d#8
      · obtain ⟨r, hr, hiff⟩ := parseOffsetDigits_spec (-1) text htext
        refine ⟨r, ?_, fun v => ?_⟩
        · rw [← hr, hminus]
          rfl
        · rw [hiff, hminus]
          constructor
          · rintro ⟨n, hn, rfl⟩
            rw [neg_one_mul]
            exact .minus hn
          · intro htext
            cases htext with
            | minus hn => exact ⟨_, hn, (neg_one_mul _).symm⟩
      · refine ⟨none, ?_, fun v => iff_of_false (by simp) ?_⟩
        · simp [parseOffsetSuffix, hc, hplus, hminus]
        · intro htext
          cases htext with
          | plus hn => exact hplus rfl
          | minus hn => exact hminus rfl

/-- What `parse_hhmm` makes of a string. -/
def hhmmText : List Byte → Option ℕ
  | [a, b, colon, c, d] =>
    if isDigit a && isDigit b && colon == 0x3a#8 && isDigit c && isDigit d then hhmm a b c d
    else none
  | _ => none

theorem parseHhmm_eq (text : List Byte) (h : 0#8 ∉ text) :
    parseHhmm (terminated text) = some (hhmmText text) := by
  rcases text with _ | ⟨a, _ | ⟨b, _ | ⟨colon, _ | ⟨c, _ | ⟨d, _ | ⟨stop, rest⟩⟩⟩⟩⟩⟩
  · rfl
  · simp [parseHhmm, terminated, hhmmText, isDigit_zero]
  · simp [parseHhmm, terminated, hhmmText]
  · simp [parseHhmm, terminated, hhmmText, isDigit_zero]
  · simp [parseHhmm, terminated, hhmmText, isDigit_zero]
  · simp only [parseHhmm, terminated, hhmmText, List.cons_append, List.nil_append]
    cases ha : isDigit a <;> cases hb : isDigit b <;> by_cases hcolon : colon = 0x3a#8 <;>
      cases hc : isDigit c <;> cases hd : isDigit d <;> simp [ha, hb, hcolon, hc, hd]
  · have hstop : stop ≠ 0#8 := fun hzero => h (by simp [hzero])
    simp [parseHhmm, terminated, hhmmText, hstop]

theorem value_two (a b : Byte) : value [a, b] = digit a * 10 + digit b := by
  simp [value, valueFrom]

theorem digits_two {ds : List Byte} (h : Digits 2 2 ds) :
    ∃ a b, ds = [a, b] ∧ isDigit a = true ∧ isDigit b = true := by
  obtain ⟨a, b, rfl⟩ := List.length_eq_two.mp (Nat.le_antisymm h.atMost h.atLeast)
  exact ⟨a, b, rfl, h.digits a (by simp), h.digits b (by simp)⟩

/-- What `parse_hhmm` takes is a time of day of the grammar. -/
theorem hhmmText_iff (text : List Byte) (v : ℤ) :
    (∃ m, hhmmText text = some m ∧ v = (m : ℤ)) ↔ TimeText text .clock v := by
  constructor
  · rintro ⟨m, hm, rfl⟩
    unfold hhmmText at hm
    split at hm
    · rename_i a b colon c d
      split_ifs at hm with htest
      simp only [Bool.and_eq_true, beq_iff_eq] at htest
      obtain ⟨⟨⟨⟨ha, hb⟩, rfl⟩, hc⟩, hd⟩ := htest
      simp only [hhmm] at hm
      split_ifs at hm with hrange
      obtain rfl := Option.some.inj hm
      rw [not_or, Nat.not_lt, Nat.not_lt, ← value_two, ← value_two] at hrange
      rw [← value_two, ← value_two]
      have hhour : Digits 2 2 [a, b] := ⟨by simp, by simp, by simp [ha, hb]⟩
      have hminute : Digits 2 2 [c, d] := ⟨by simp, by simp, by simp [hc, hd]⟩
      exact TimeText.clock hhour hminute hrange.1 hrange.2
    · cases hm
  · intro htext
    cases htext with
    | clock hhour hminute h23 h59 =>
      obtain ⟨a, b, rfl, ha, hb⟩ := digits_two hhour
      obtain ⟨c, d, rfl, hc, hd⟩ := digits_two hminute
      refine ⟨_, ?_, rfl⟩
      rw [value_two] at h23 h59 ⊢
      rw [value_two]
      simp only [hhmmText, List.cons_append, List.nil_append, ha, hb, hc, hd, hhmm]
      rw [if_pos (by decide), if_neg (by omega)]
    | sun hword _ => cases hword

theorem TimeText.starts {text : List Byte} {kind : ScheduleTimeKind} {v : ℤ}
    (h : TimeText text kind v) :
    (kind = .clock ∧ ∃ c rest, text = c :: rest ∧ isDigit c = true) ∨
    ∃ word rest, kind.word = some word ∧ text = word ++ rest ∧ OffsetText rest v := by
  cases h with
  | clock hhour _ _ _ =>
    obtain ⟨a, b, rfl, ha, -⟩ := digits_two hhour
    exact Or.inl ⟨rfl, a, _, rfl, ha⟩
  | sun hword hrest => exact Or.inr ⟨_, _, hword, rfl, hrest⟩

theorem word_cases {kind : ScheduleTimeKind} {word : List Byte} (h : kind.word = some word) :
    kind = .sunrise ∧ word = ascii "sunrise" ∨ kind = .sunset ∧ word = ascii "sunset" := by
  cases kind with
  | clock => cases h
  | sunrise => exact Or.inl ⟨rfl, (Option.some.inj h).symm⟩
  | sunset => exact Or.inr ⟨rfl, (Option.some.inj h).symm⟩

theorem word_unique {kind kind' : ScheduleTimeKind} {word word' rest rest' : List Byte}
    (h : kind.word = some word) (h' : kind'.word = some word')
    (htext : word ++ rest = word' ++ rest') : kind = kind' ∧ rest = rest' := by
  rcases word_cases h with ⟨rfl, rfl⟩ | ⟨rfl, rfl⟩ <;>
    rcases word_cases h' with ⟨rfl, rfl⟩ | ⟨rfl, rfl⟩
  · exact ⟨rfl, List.append_cancel_left htext⟩
  · exact absurd htext (by simp [ascii])
  · exact absurd htext (by simp [ascii])
  · exact ⟨rfl, List.append_cancel_left htext⟩

theorem word_letter {kind : ScheduleTimeKind} {word : List Byte} (h : kind.word = some word) :
    ∃ c rest, word = c :: rest ∧ isDigit c = false := by
  rcases word_cases h with ⟨-, rfl⟩ | ⟨-, rfl⟩
  · exact ⟨_, _, rfl, by decide⟩
  · exact ⟨_, _, rfl, by decide⟩

theorem timeText_word {kind : ScheduleTimeKind} {word : List Byte} (hword : kind.word = some word)
    (rest : List Byte) (kind' : ScheduleTimeKind) (v : ℤ) :
    TimeText (word ++ rest) kind' v ↔ kind' = kind ∧ OffsetText rest v := by
  constructor
  · intro h
    rcases h.starts with ⟨-, c, other, htext, hc⟩ | ⟨word', other, hword', htext, hother⟩
    · obtain ⟨letter, tail, rfl, hletter⟩ := word_letter hword
      rw [(List.cons.inj htext).1, hc] at hletter
      cases hletter
    · obtain ⟨rfl, rfl⟩ := word_unique hword hword' htext
      exact ⟨rfl, hother⟩
  · rintro ⟨rfl, hrest⟩
    exact .sun hword hrest

theorem parseSunTime_spec (kind : ScheduleTimeKind) (hkind : kind ≠ .clock) (text : List Byte)
    (h : 0#8 ∉ text) (out : ScheduleTime) : ∃ ok t,
    parseSunTime kind (terminated text) out = some (ok, t) ∧
      ∀ t', (ok = true ∧ t = t') ↔ ∃ v, OffsetText text v ∧ t' = out.set kind v := by
  obtain ⟨r, hr, hiff⟩ := parseOffsetSuffix_spec text h
  cases r with
  | none =>
    refine ⟨false, _, by rw [parseSunTime, hr]; rfl, fun t' => iff_of_false (by simp) ?_⟩
    rintro ⟨v, hv, -⟩
    exact absurd ((hiff v).mpr hv) (by simp)
  | some v =>
    refine ⟨true, _, by rw [parseSunTime, hr]; rfl, fun t' => ?_⟩
    have hset : out.set kind v = { out with kind := kind, offsetMin := v } := by
      cases kind with
      | clock => exact absurd rfl hkind
      | sunrise => rfl
      | sunset => rfl
    rw [← hset]
    constructor
    · rintro ⟨-, rfl⟩
      exact ⟨v, (hiff v).mp rfl, rfl⟩
    · rintro ⟨v', hv', rfl⟩
      rw [Option.some.inj ((hiff v').mpr hv')]
      exact ⟨rfl, rfl⟩

/-- What follows the word of a kind is read as the offset of a time of that kind. -/
theorem parseSunTime_word {kind : ScheduleTimeKind} {word : List Byte}
    (hword : kind.word = some word) (rest : List Byte) (h : 0#8 ∉ rest) (out : ScheduleTime) :
    ∃ ok t, parseSunTime kind (terminated rest) out = some (ok, t) ∧
      ∀ t', (ok = true ∧ t = t') ↔
        ∃ kind' v, TimeText (word ++ rest) kind' v ∧ t' = out.set kind' v := by
  have hkind : kind ≠ .clock := by
    rintro rfl
    cases hword
  obtain ⟨ok, t, hparse, hiff⟩ := parseSunTime_spec kind hkind rest h out
  refine ⟨ok, t, hparse, fun t' => ?_⟩
  rw [hiff]
  simp only [timeText_word hword]
  constructor
  · rintro ⟨v, hv, rfl⟩
    exact ⟨kind, v, ⟨rfl, hv⟩, rfl⟩
  · rintro ⟨-, v, ⟨rfl, hv⟩, rfl⟩
    exact ⟨v, hv, rfl⟩

/-- `parse_schedule_time` stays within every string, takes those of the grammar
and stores what they denote. -/
theorem parseScheduleTime_spec (text : List Byte) (h : 0#8 ∉ text) (out : ScheduleTime) :
    ∃ ok t, parseScheduleTime (terminated text) out = some (ok, t) ∧
      ∀ t', (ok = true ∧ t = t') ↔ ∃ kind v, TimeText text kind v ∧ t' = out.set kind v := by
  obtain ⟨rise, hrise, hriseiff⟩ :=
    startsWith_terminated (ascii "sunrise") text (by decide)
  obtain ⟨set, hset, hsetiff⟩ := startsWith_terminated (ascii "sunset") text (by decide)
  unfold parseScheduleTime
  rw [hrise, hset]
  cases rise with
  | true =>
    obtain ⟨rest, rfl⟩ := hriseiff.mp rfl
    exact @parseSunTime_word .sunrise _ rfl rest
      (fun hmem => h (List.mem_append_right _ hmem)) out
  | false =>
    cases set with
    | true =>
      obtain ⟨rest, rfl⟩ := hsetiff.mp rfl
      exact @parseSunTime_word .sunset _ rfl rest
        (fun hmem => h (List.mem_append_right _ hmem)) out
    | false =>
      have hclock : ∀ kind v, TimeText text kind v → kind = .clock := by
        intro kind v htext
        rcases htext.starts with ⟨hkind, -⟩ | ⟨word, rest, hword, htext, -⟩
        · exact hkind
        · rcases word_cases hword with ⟨-, rfl⟩ | ⟨-, rfl⟩
          · exact absurd (hriseiff.mpr ⟨rest, htext⟩) Bool.false_ne_true
          · exact absurd (hsetiff.mpr ⟨rest, htext⟩) Bool.false_ne_true
      rw [parseHhmm_eq text h]
      cases hm : hhmmText text with
      | none =>
        refine ⟨false, out, rfl, fun t' => iff_of_false (by simp) ?_⟩
        rintro ⟨kind, v, htext, -⟩
        obtain rfl := hclock kind v htext
        obtain ⟨m, hsome, -⟩ := (hhmmText_iff text v).mpr htext
        rw [hm] at hsome
        cases hsome
      | some m =>
        refine ⟨true, out.set .clock m, rfl, fun t' => ?_⟩
        constructor
        · rintro ⟨-, rfl⟩
          exact ⟨.clock, m, (hhmmText_iff text m).mp ⟨m, hm, rfl⟩, rfl⟩
        · rintro ⟨kind, v, htext, rfl⟩
          obtain rfl := hclock kind v htext
          obtain ⟨m', hsome, rfl⟩ := (hhmmText_iff text v).mpr htext
          rw [hm] at hsome
          rw [Option.some.inj hsome]
          exact ⟨rfl, rfl⟩

theorem decimal_eq (n : ℕ) : decimal n =
    if n < 10 then [digitChar n] else decimal (n / 10) ++ [digitChar (n % 10)] := by
  have hdigit : ∀ d, d < 10 → BitVec.ofNat 8 (Nat.digitChar d).toNat = digitChar d := by
    intro d hd
    rw [Nat.toNat_digitChar_of_lt_ten hd]
    rfl
  rw [decimal, Nat.toDigits_eq_if (by decide)]
  by_cases hn : n < 10
  · rw [if_pos hn, if_pos hn, List.map_singleton, hdigit n hn]
  · rw [if_neg hn, if_neg hn, List.map_append, List.map_singleton,
      hdigit _ (Nat.mod_lt n (by decide))]
    rfl

theorem value_append_digit (ds : List Byte) (c : Byte) :
    value (ds ++ [c]) = value ds * 10 + digit c := by
  simp [value, valueFrom, List.foldl_append]

/-- What `%u` prints is digits of the number's value. -/
theorem decimal_digits (n : ℕ) :
    (∀ c ∈ decimal n, isDigit c = true) ∧ value (decimal n) = n := by
  induction n using Nat.strong_induction_on with
  | _ n ih =>
    rw [decimal_eq]
    by_cases hn : n < 10
    · rw [if_pos hn]
      refine ⟨by simpa using isDigit_digitChar (by omega), ?_⟩
      rw [← List.nil_append [digitChar n], value_append_digit, digit_digitChar (by omega)]
      exact Nat.zero_add n
    · obtain ⟨hdigits, hvalue⟩ := ih (n / 10) (by omega)
      have hlast : n % 10 ≤ 9 := by omega
      rw [if_neg hn]
      refine ⟨?_, ?_⟩
      · intro c hc
        rcases List.mem_append.mp hc with hc | hc
        · exact hdigits c hc
        · rw [List.mem_singleton.mp hc]
          exact isDigit_digitChar hlast
      · rw [value_append_digit, hvalue, digit_digitChar hlast]
        omega

theorem decimal_fits {n : ℕ} (hn : n ≤ scheduleMaxMin) : Digits 1 4 (decimal n) := by
  refine ⟨?_, ?_, (decimal_digits n).1⟩
  · rw [decimal, List.length_map]
    exact Nat.length_toDigits_pos
  · rw [decimal, List.length_map, Nat.length_toDigits_le_iff (by decide) (by decide)]
    unfold scheduleMaxMin at hn
    omega

def twoDigits (n : ℕ) : List Byte := [digitChar (n / 10), digitChar (n % 10)]

theorem twoDigits_digits {n : ℕ} (hn : n < 100) :
    Digits 2 2 (twoDigits n) ∧ value (twoDigits n) = n := by
  have hten : n / 10 ≤ 9 := by omega
  have hone : n % 10 ≤ 9 := by omega
  refine ⟨⟨by simp [twoDigits], by simp [twoDigits], ?_⟩, ?_⟩
  · simp [twoDigits, isDigit_digitChar hten, isDigit_digitChar hone]
  · rw [twoDigits, value_two, digit_digitChar hten, digit_digitChar hone]
    omega

def printOffset (v : ℤ) : List Byte :=
  if v = 0 then [] else if 0 < v then 0x2b#8 :: decimal v.toNat else 0x2d#8 :: decimal (-v).toNat

namespace ScheduleTime

def minutes (t : ScheduleTime) : ℤ :=
  match t.kind with
  | .clock => t.minuteOfDay
  | _ => t.offsetMin

def InRange (t : ScheduleTime) : Prop :=
  t.minutes ≤ scheduleMaxMin ∧ match t.kind with
    | .clock => 0 ≤ t.minutes
    | _ => -scheduleMaxMin ≤ t.minutes

def print (t : ScheduleTime) : List Byte :=
  match t.kind with
  | .clock => twoDigits (t.minuteOfDay.toNat / 60) ++ 0x3a#8 :: twoDigits (t.minuteOfDay.toNat % 60)
  | .sunrise => ascii "sunrise" ++ printOffset t.offsetMin
  | .sunset => ascii "sunset" ++ printOffset t.offsetMin

end ScheduleTime

theorem printOffset_text {v : ℤ} (hmin : -scheduleMaxMin ≤ v) (hmax : v ≤ scheduleMaxMin) :
    OffsetText (printOffset v) v := by
  have hdigits : ∀ n : ℕ, n ≤ scheduleMaxMin → OffsetDigits (decimal n) n := by
    intro n hn
    have hvalue := (decimal_digits n).2
    have htext := @OffsetDigits.digits (decimal n) [] (decimal_fits hn) (by omega) (Or.inl rfl)
    rwa [List.append_nil, hvalue] at htext
  unfold printOffset
  split_ifs with hzero hpos
  · rw [hzero]
    exact .bare
  · have htext := OffsetText.plus (hdigits v.toNat (by omega))
    rwa [Int.toNat_of_nonneg (by omega)] at htext
  · have htext := OffsetText.minus (hdigits (-v).toNat (by omega))
    rwa [Int.toNat_of_nonneg (by omega), neg_neg] at htext

theorem print_text {t : ScheduleTime} (h : t.InRange) : TimeText t.print t.kind t.minutes := by
  obtain ⟨kind, minute, offset⟩ := t
  obtain ⟨hmax, hmin⟩ := h
  cases kind with
  | clock =>
    have hday : minute ≤ scheduleMaxMin := hmax
    have hpos : 0 ≤ minute := hmin
    unfold scheduleMaxMin at hday
    obtain ⟨hhour, hhvalue⟩ := twoDigits_digits (n := minute.toNat / 60) (by omega)
    obtain ⟨hmm, hmvalue⟩ := twoDigits_digits (n := minute.toNat % 60) (by omega)
    have htext := TimeText.clock hhour hmm (by omega) (by omega)
    have hsum : minute.toNat / 60 * 60 + minute.toNat % 60 = minute.toNat := by omega
    rwa [hhvalue, hmvalue, hsum, Int.toNat_of_nonneg hpos] at htext
  | sunrise => exact .sun rfl (printOffset_text hmin hmax)
  | sunset => exact .sun rfl (printOffset_text hmin hmax)

theorem Digits.noNul {lo hi : ℕ} {ds : List Byte} (h : Digits lo hi ds) : 0#8 ∉ ds :=
  fun hmem => Bool.false_ne_true (h.digits 0#8 hmem)

theorem OffsetDigits.noNul {text : List Byte} {n : ℕ} (h : OffsetDigits text n) : 0#8 ∉ text := by
  obtain ⟨hdigits, -, hunit⟩ := h
  intro hmem
  rcases List.mem_append.mp hmem with hmem | hmem
  · exact hdigits.noNul hmem
  · rcases hunit with rfl | rfl
    · simp at hmem
    · exact absurd hmem (by decide)

theorem TimeText.noNul {text : List Byte} {kind : ScheduleTimeKind} {v : ℤ}
    (h : TimeText text kind v) : 0#8 ∉ text := by
  intro hmem
  cases h with
  | clock hhour hminute _ _ =>
    rcases List.mem_append.mp hmem with hmem | hmem
    · exact hhour.noNul hmem
    · rcases List.mem_cons.mp hmem with hzero | hmem
      · exact absurd hzero (by decide)
      · exact hminute.noNul hmem
  | sun hword hrest =>
    rcases List.mem_append.mp hmem with hmem | hmem
    · rcases word_cases hword with ⟨-, rfl⟩ | ⟨-, rfl⟩
      · exact absurd hmem (by decide)
      · exact absurd hmem (by decide)
    · cases hrest with
      | bare => simp at hmem
      | plus hdigits =>
        rcases List.mem_cons.mp hmem with hzero | hmem
        · exact absurd hzero (by decide)
        · exact hdigits.noNul hmem
      | minus hdigits =>
        rcases List.mem_cons.mp hmem with hzero | hmem
        · exact absurd hzero (by decide)
        · exact hdigits.noNul hmem

theorem parseScheduleTime_iff (text : List Byte) (h : 0#8 ∉ text) (out t : ScheduleTime) :
    parseScheduleTime (terminated text) out = some (true, t) ↔
      ∃ kind v, TimeText text kind v ∧ t = out.set kind v := by
  obtain ⟨ok, t', hparse, hiff⟩ := parseScheduleTime_spec text h out
  rw [hparse, ← hiff, Option.some.injEq, Prod.mk.injEq]

theorem parseMinutes_iff (text : List Byte) (h : 0#8 ∉ text) (v : ℕ) :
    parseMinutes (terminated text) = some (some v) ↔ MinutesText text v := by
  obtain ⟨r, hparse, hiff⟩ := parseMinutes_spec text h
  rw [hparse, ← hiff, Option.some.injEq]

/-- The scanners read no further than the zero that ends a string, take exactly
the strings of the grammar, store what those denote, and take back what is
printed. -/
theorem schedule_strings (text : List Byte) (h : 0#8 ∉ text) (out : ScheduleTime) :
    ((parseScheduleTime (terminated text) out).isSome = true ∧
      (parseMinutes (terminated text)).isSome = true) ∧
    (∀ t, parseScheduleTime (terminated text) out = some (true, t) ↔
      ∃ kind v, TimeText text kind v ∧ t = out.set kind v) ∧
    (∀ v, parseMinutes (terminated text) = some (some v) ↔ MinutesText text v) ∧
    ∀ t, t.InRange → t = out.set t.kind t.minutes →
      parseScheduleTime (terminated t.print) out = some (true, t) := by
  refine ⟨⟨?_, ?_⟩, parseScheduleTime_iff text h out, parseMinutes_iff text h, ?_⟩
  · obtain ⟨ok, t, hparse, -⟩ := parseScheduleTime_spec text h out
    rw [hparse]
    rfl
  · obtain ⟨r, hparse, -⟩ := parseMinutes_spec text h
    rw [hparse]
    rfl
  · intro t hrange hset
    have htext := print_text hrange
    exact (parseScheduleTime_iff t.print htext.noNul out t).mpr ⟨t.kind, t.minutes, htext, hset⟩

theorem sunset_string : TimeText (ascii "sunset-90m") .sunset (-90) ∧
    parseScheduleTime (terminated (ScheduleTime.print ⟨.sunset, 0, -90⟩)) ⟨.clock, 0, 0⟩ =
      some (true, ⟨.sunset, 0, -90⟩) := by
  obtain ⟨-, htimes, -, hprinted⟩ :=
    schedule_strings (ascii "sunset-90m") (by decide) ⟨.clock, 0, 0⟩
  refine ⟨?_, hprinted ⟨.sunset, 0, -90⟩ ⟨by decide, by decide⟩ rfl⟩
  obtain ⟨kind, v, htext, hset⟩ := (htimes ⟨.sunset, 0, -90⟩).mp (by decide)
  cases kind with
  | clock => cases hset
  | sunrise => cases hset
  | sunset =>
    obtain rfl := (ScheduleTime.mk.inj hset).2.2
    exact htext

end RelayBoard
