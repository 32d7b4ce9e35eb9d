import RelayBoard.Lib.Passes
import RelayBoard.Lib.Scanning
import RelayBoard.Text

/-!
# RTTTL

`rtttl_parse`. The pointers of the source are what may be read from them on, so
that a read past the terminating zero has no result, nor has an `int` that
overflows or a note written past the end of `out`. The integers of the source
which are never negative are natural numbers here.
-/

set_option autoImplicit false

namespace RelayBoard
open Lib.Passes Lib.Scanning

/-- An integer which is to be an `int`. -/
def cInt (v : ℕ) : Option ℕ := if v < 2 ^ 31 then some v else none

def blank : Byte := 0x20
def comma : Byte := 0x2c
def colon : Byte := 0x3a
def equalsSign : Byte := 0x3d

/-- `tolower` of the C locale. -/
def tolower (c : Byte) : Byte := if 0x41#8 ≤ c ∧ c ≤ 0x5a#8 then c + 0x20 else c

structure RtttlNote where
  freqHz : BitVec 16
  durationMs : BitVec 16
  deriving DecidableEq

/-- `OCTAVE4_HZ` -/
def octave4Hz : List Float :=
  [261.63, 277.18, 293.66, 311.13, 329.63, 349.23, 369.99, 392.00, 415.30, 440.00, 466.16, 493.88]

def semitoneOf (letter : Byte) : Option ℕ :=
  match (tolower letter).toNat with
  | 0x63 => some 0
  | 0x64 => some 2
  | 0x65 => some 4
  | 0x66 => some 5
  | 0x67 => some 7
  | 0x61 => some 9
  | 0x62 => some 11
  | _ => none

def octaveMax : ℕ := 8

def numberMax : ℕ := 9999

/-- The first loop takes an octave from `idx` in each pass, the others double
and halve. -/
def noteFreqHz (semitone : ℕ) (sharp : Bool) (octave : ℕ) : Option (BitVec 16) := do
  let idx := semitone + if sharp then 1 else 0
  let oct := if octave < octaveMax then octave else octaveMax
  let oct ← cInt (oct + idx / 12)
  let hz := octave4Hz.getD (idx % 12) 0
  let hz := if 4 < oct then (· * 2.0)^[oct - 4] hz else (· / 2.0)^[4 - oct] hz
  return (hz + 0.5).toUInt16.toBitVec

/-- The loop of `read_digits`, with the value read so far. -/
def readDigitsFrom (v : ℕ) : List Byte → Option (ℕ × List Byte)
  | [] => none
  | c :: s =>
    if isDigit c then
      if v ≤ numberMax then do
        let v ← cInt (v * 10)
        let v ← cInt (v + digit c)
        readDigitsFrom v s
      else readDigitsFrom v s
    else some (v, c :: s)

/-- What is stored through `out` where any digits were read, and `*p`. -/
def readDigits (p : List Byte) : Option (Option ℕ × List Byte) := do
  let (v, s) ← readDigitsFrom 0 p
  let v := if numberMax < v then numberMax else v
  return (if s.length = p.length then none else some v, s)

structure RtttlDefaults where
  duration : ℕ
  octave : ℕ
  bpm : ℕ
  deriving DecidableEq

inductive RtttlKey where
  | d
  | o
  | b
  deriving DecidableEq

def RtttlDefaults.initial : RtttlDefaults := ⟨4, 5, 63⟩

def RtttlDefaults.set (d : RtttlDefaults) (set : RtttlKey × ℕ) : RtttlDefaults :=
  match set.1 with
  | .d => { d with duration := set.2 }
  | .o => { d with octave := set.2 }
  | .b => { d with bpm := set.2 }

def rtttlKeyOf (c : Byte) : Option RtttlKey :=
  if tolower c = 0x64 then some .d
  else if tolower c = 0x6f then some .o
  else if tolower c = 0x62 then some .b
  else none

def isGap (c : Byte) : Bool := c == blank || c == comma

/-- What a pass of the defaults loop sets, `q` being past blanks and commas, and
where it comes to. -/
def readSetting (defsEnd q : List Byte) : Option (Option (RtttlKey × ℕ) × List Byte) := do
  let key ← q.head?
  let eq := scanBefore defsEnd (· != equalsSign) q
  let (set, q) ←
    if defsEnd.length < eq.length ∧ defsEnd.length ≤ eq.tail.length then do
      let (val, v) ← readDigits eq.tail
      some (val.bind fun val => (rtttlKeyOf key).map fun key => (key, val), v)
    else some (none, defsEnd)
  return (set, scanBefore defsEnd (· != comma) q)

def defaultsPass (defsEnd : List Byte) (s : List Byte × RtttlDefaults) :
    Option (Pass (List Byte × RtttlDefaults) RtttlDefaults) :=
  let q := scanBefore defsEnd isGap s.1
  if s.1.length ≤ defsEnd.length ∨ q.length ≤ defsEnd.length then some (.leave s.2)
  else do
    let (set, q) ← readSetting defsEnd q
    return .again (q, set.elim s.2 s.2.set)

/-- `strchr(p, ':')` -/
def strchrColon (p : List Byte) : Option (Option (List Byte)) := do
  let s ← scanWhile (fun c => c != 0#8 && c != colon) p
  let c ← s.head?
  return if c = colon then some s else none

/-- Where the defaults section ends and where the notes begin. -/
def sectionEnd (p : List Byte) : Option (List Byte × List Byte) := do
  let secondColon ← strchrColon p
  match secondColon with
  | some colon => some (colon, colon.tail)
  | none => (scanWhile (· != 0#8) p).map fun defsEnd => (defsEnd, defsEnd)

def readDefaults (fuel : ℕ) (p : List Byte) : Option (RtttlDefaults × List Byte) := do
  let firstColon ← strchrColon p
  match firstColon with
  | none => some (.initial, p)
  | some colon => do
    let (defsEnd, notes) ← sectionEnd colon.tail
    let defaults ← loop (defaultsPass defsEnd) fuel (colon.tail, .initial)
    return (defaults, notes)

/-- `if (*p == c) p++` -/
def skipOne (c : Byte) : List Byte → Option (Bool × List Byte)
  | [] => none
  | b :: s => if b = c then some (true, s) else some (false, b :: s)

def noteDurationMs (defaults : RtttlDefaults) (wholeNoteMs : Float) (duration : ℕ)
    (dotted : Bool) : BitVec 16 :=
  let duration :=
    if duration = 0 then (if 0 < defaults.duration then defaults.duration else 4) else duration
  let ms := wholeNoteMs / Float.ofNat duration
  let ms := if dotted then ms * 1.5 else ms
  if ms < 65535 then (ms + 0.5).toUInt16.toBitVec else 65535

/-- A note from after its letter on; a rest has no semitone. -/
def readNote (defaults : RtttlDefaults) (wholeNoteMs : Float) (duration : ℕ)
    (semitone : Option ℕ) (p : List Byte) : Option (RtttlNote × List Byte) := do
  let (sharp, p) ← skipOne 0x23 p
  let (dotted, p) ← skipOne 0x2e p
  let (octave, p) ← readDigits p
  let (dottedAfter, p) ← skipOne 0x2e p
  let freqHz ← semitone.elim (some 0) fun semitone =>
    noteFreqHz semitone sharp (octave.getD defaults.octave)
  return (⟨freqHz, noteDurationMs defaults wholeNoteMs duration (dotted || dottedAfter)⟩, p)

/-- The semitone of a note's letter, or that it is a rest's. -/
def noteLetter (letter : Byte) : Option (Option ℕ) :=
  if tolower letter = 0x70 then some none else (semitoneOf letter).map some

/-- A pass from after the digits that a token begins with; `out` is as far as
it has been written. -/
def readToken (defaults : RtttlDefaults) (wholeNoteMs : Float) (max : ℕ) (duration : Option ℕ)
    (p : List Byte) (out : List RtttlNote) :
    Option (Pass (List Byte × List RtttlNote) (List RtttlNote)) := do
  let letter ← p.head?
  if letter = 0#8 then some (.leave out)
  else
    match noteLetter letter with
    | none => do
      let p ← scanWhile (fun c => c != 0#8 && c != comma) p
      return .again (p, out)
    | some semitone => do
      let (note, p) ←
        readNote defaults wholeNoteMs (duration.getD defaults.duration) semitone p.tail
      if out.length < max then some (.again (p, out ++ [note])) else none

def notesPass (defaults : RtttlDefaults) (wholeNoteMs : Float) (max : ℕ)
    (s : List Byte × List RtttlNote) :
    Option (Pass (List Byte × List RtttlNote) (List RtttlNote)) := do
  let c ← s.1.head?
  if c = 0#8 ∨ max ≤ s.2.length then some (.leave s.2)
  else do
    let p ← scanWhile isGap s.1
    let c ← p.head?
    if c = 0#8 then some (.leave s.2)
    else do
      let (duration, p) ← readDigits p
      readToken defaults wholeNoteMs max duration p s.2

def wholeNote (defaults : RtttlDefaults) : Float := 240000.0 / Float.ofNat defaults.bpm

def readNotes (fuel : ℕ) (defaults : RtttlDefaults) (p : List Byte) (max : ℕ) :
    Option (List RtttlNote) :=
  if defaults.bpm = 0 ∨ defaults.duration = 0 then some []
  else loop (notesPass defaults (wholeNote defaults) max) fuel (p, [])

/-- `rtttl_parse`, whose loops take at most `fuel` passes each. -/
def rtttlParse (fuel : ℕ) (rtttl : Option (List Byte)) (max : ℕ) : Option (List RtttlNote) :=
  match rtttl with
  | none => some []
  | some p => do
    let (defaults, p) ← readDefaults fuel p
    readNotes fuel defaults p max

example : rtttlParse 40 (some (terminated (ascii "x:d=4,o=4,b=60:8c5,p,4c#6.,q,b#8"))) 64 =
    some [⟨523, 500⟩, ⟨0, 1000⟩, ⟨1109, 1500⟩, ⟨8372, 1000⟩] := by decide +kernel

section Digits

variable {c : Byte} {w : List Byte}

theorem digit_le (h : isDigit c = true) : digit c ≤ 9 := by
  rw [isDigit_iff] at h
  rw [digit]
  omega

theorem cInt_eq {v : ℕ} (h : v < 2 ^ 31) : cInt v = some v := if_pos h

theorem valueFrom_le (v : ℕ) (ds : List Byte) : v ≤ valueFrom v ds := by
  induction ds generalizing v with
  | nil => exact le_rfl
  | cons d ds ih => exact le_trans (by omega) (ih (v * 10 + digit d))

/-- Digits stop the value from growing once it is too large, and before that
it has at most five of them. -/
theorem readDigitsFrom_append (ds : List Byte) (hds : ∀ d ∈ ds, isDigit d = true)
    (hc : isDigit c = false) (s : List Byte) {v : ℕ} (hv : v ≤ 99999) :
    ∃ u, readDigitsFrom v (ds ++ c :: s) = some (u, c :: s) ∧ u ≤ 99999 ∧
      min u numberMax = min (valueFrom v ds) numberMax := by
  induction ds generalizing v with
  | nil =>
    refine ⟨v, ?_, hv, rfl⟩
    rw [List.nil_append, readDigitsFrom, hc]
    rfl
  | cons d ds ih =>
    have hd := digit_le (hds d (List.mem_cons_self ..))
    have hrest : ∀ e ∈ ds, isDigit e = true := fun e he => hds e (List.mem_cons_of_mem d he)
    rw [List.cons_append, readDigitsFrom, if_pos (hds d (List.mem_cons_self ..))]
    by_cases hsmall : v ≤ numberMax
    · rw [if_pos hsmall]
      have hgrown : v * 10 + digit d ≤ 99999 := by rw [numberMax] at hsmall; omega
      obtain ⟨u, hu, hle, hmin⟩ := ih hrest hgrown
      refine ⟨u, ?_, hle, hmin⟩
      rw [cInt_eq (by omega), Option.bind_eq_bind, Option.bind_some, cInt_eq (by omega),
        Option.bind_some, hu]
    · rw [if_neg hsmall]
      obtain ⟨u, hu, hle, hmin⟩ := ih hrest hv
      refine ⟨u, hu, hle, ?_⟩
      have hlarge : numberMax ≤ v := (Nat.not_le.mp hsmall).le
      have hgrown : v ≤ valueFrom v (d :: ds) :=  valueFrom_le v (d :: ds)
      rw [hmin, min_eq_right (hlarge.trans (valueFrom_le v ds)),
        min_eq_right (hlarge.trans hgrown)]

def digitsValue (ds : List Byte) : Option ℕ :=
  if ds = [] then none else some (min (value ds) numberMax)

theorem takeWhile_isDigit (w : List Byte) : ∀ d ∈ w.takeWhile isDigit, isDigit d = true :=
  fun _ hd => List.mem_takeWhile_imp hd

/-- What comes after digits does not begin with one, if the text does not end
in one. -/
theorem dropWhile_isDigit (w : List Byte) (hc : isDigit c = false) (s : List Byte) :
    ∃ b t, w.dropWhile isDigit ++ c :: s = b :: t ∧ isDigit b = false := by
  cases hdrop : w.dropWhile isDigit with
  | nil => exact ⟨c, s, rfl, hc⟩
  | cons b t => exact ⟨b, t ++ c :: s, rfl, dropWhile_stop hdrop⟩

theorem readDigits_append (w : List Byte) (hc : isDigit c = false) (s : List Byte) :
    readDigits (w ++ c :: s) =
      some (digitsValue (w.takeWhile isDigit), w.dropWhile isDigit ++ c :: s) := by
  obtain ⟨b, t, htail, hb⟩ := dropWhile_isDigit w hc s
  obtain ⟨u, hu, -, hmin⟩ :=
    readDigitsFrom_append _ (takeWhile_isDigit w) hb t (Nat.zero_le 99999)
  have hsplit : w ++ c :: s = w.takeWhile isDigit ++ b :: t := by
    rw [← htail, ← List.append_assoc, List.takeWhile_append_dropWhile]
  have hclamp : (if numberMax < u then numberMax else u) = min u numberMax := by
    rw [min_def]
    split_ifs <;> omega
  have hnone : (b :: t).length = (w.takeWhile isDigit ++ b :: t).length ↔
      w.takeWhile isDigit = [] := by
    rw [List.length_append, ← List.length_eq_zero_iff]
    omega
  rw [readDigits, hsplit, hu, htail]
  simp only [Option.bind_eq_bind, Option.bind_some, hnone, hclamp, hmin, digitsValue, value]
  rfl

theorem readDigits_terminated (w : List Byte) :
    readDigits (terminated w) =
      some (digitsValue (w.takeWhile isDigit), terminated (w.dropWhile isDigit)) :=
  readDigits_append w isDigit_zero []

end Digits

section Notes

variable {w : List Byte} {defaults : RtttlDefaults} {wholeNoteMs : Float} {max : ℕ}
  {out : List RtttlNote}

theorem skipOne_terminated {c : Byte} (hc : c ≠ 0#8) (w : List Byte) :
    ∃ b w', skipOne c (terminated w) = some (b, terminated w') ∧ w' <:+ w := by
  cases w with
  | nil => exact ⟨false, [], if_neg (Ne.symm hc), List.suffix_refl _⟩
  | cons d w =>
    rw [terminated_cons, skipOne]
    split_ifs
    · exact ⟨true, w, rfl, List.suffix_cons d w⟩
    · exact ⟨false, d :: w, rfl, List.suffix_refl _⟩

theorem semitoneOf_le {letter : Byte} {semitone : ℕ} (h : semitoneOf letter = some semitone) :
    semitone ≤ 11 := by
  unfold semitoneOf at h
  split at h <;> cases h <;> omega

/-- The octave is capped before it is counted with. -/
theorem noteFreqHz_isSome {semitone : ℕ} (h : semitone ≤ 11) (sharp : Bool) (octave : ℕ) :
    ∃ hz, noteFreqHz semitone sharp octave = some hz := by
  have hoct : (if octave < octaveMax then octave else octaveMax) ≤ 8 := by
    split_ifs with hlow
    · exact hlow.le
    · exact le_rfl
  have hidx : (semitone + if sharp then 1 else 0) ≤ 12 := by
    split_ifs <;> omega
  unfold noteFreqHz
  dsimp only
  rw [cInt_eq (by omega)]
  exact ⟨_, rfl⟩

theorem readNote_terminated (duration : ℕ) {letter : Byte} {semitone : Option ℕ}
    (h : noteLetter letter = some semitone) (w : List Byte) :
    ∃ note w', readNote defaults wholeNoteMs duration semitone (terminated w) =
      some (note, terminated w') ∧ w' <:+ w := by
  obtain ⟨sharp, w₁, hsharp, h₁⟩ := skipOne_terminated (c := 0x23) (by decide) w
  obtain ⟨dotted, w₂, hdotted, h₂⟩ := skipOne_terminated (c := 0x2e) (by decide) w₁
  obtain ⟨after, w₃, hafter, h₃⟩ :=
    skipOne_terminated (c := 0x2e) (by decide) (w₂.dropWhile isDigit)
  have hfreq : ∀ octave, ∃ hz,
      (semitone.elim (some 0) fun semitone => noteFreqHz semitone sharp octave) = some hz := by
    intro octave
    cases semitone with
    | none => exact ⟨0, rfl⟩
    | some semitone =>
      rw [noteLetter] at h
      split_ifs at h with hpause
      · cases h
      · obtain ⟨s, hs, heq⟩ := Option.map_eq_some_iff.mp h
        obtain rfl := Option.some.inj heq
        exact noteFreqHz_isSome (semitoneOf_le hs) sharp octave
  obtain ⟨hz, hhz⟩ := hfreq ((digitsValue (w₂.takeWhile isDigit)).getD defaults.octave)
  refine ⟨⟨hz, noteDurationMs defaults wholeNoteMs duration (dotted || after)⟩, w₃, ?_,
    h₃.trans ((List.dropWhile_suffix _).trans (h₂.trans h₁))⟩
  unfold readNote
  simp only [hsharp, hdotted, readDigits_terminated, hafter, hhz, Option.bind_eq_bind,
    Option.bind_some]
  rfl

theorem readToken_letter (duration : Option ℕ) {letter : Byte} {w : List Byte}
    (h0 : 0#8 ∉ letter :: w) (hout : out.length < max) :
    match noteLetter letter with
    | none => readToken defaults wholeNoteMs max duration (terminated (letter :: w)) out =
        some (.again (terminated ((letter :: w).dropWhile (· != comma)), out))
    | some _ => ∃ note rest,
        readToken defaults wholeNoteMs max duration (terminated (letter :: w)) out =
          some (.again (terminated rest, out ++ [note])) ∧ rest <:+ w := by
  have hletter : ¬letter = 0#8 := fun hzero => h0 (by rw [hzero]; exact List.mem_cons_self ..)
  have hhead : (terminated (letter :: w)).head? = some letter := rfl
  cases hnote : noteLetter letter with
  | none =>
    dsimp only
    rw [readToken, hhead]
    dsimp only [Option.bind_eq_bind, Option.bind_some]
    rw [if_neg hletter, hnote]
    dsimp only
    rw [scanWhile_terminated (by decide), dropWhile_nonzero h0]
    rfl
  | some semitone =>
    obtain ⟨note, rest, hread, hrest⟩ :=
      @readNote_terminated defaults wholeNoteMs (duration.getD defaults.duration) _ _ hnote w
    refine ⟨note, rest, ?_, hrest⟩
    have htail : (terminated (letter :: w)).tail = terminated w := rfl
    rw [readToken, hhead]
    dsimp only [Option.bind_eq_bind, Option.bind_some]
    rw [if_neg hletter, hnote]
    dsimp only
    rw [htail, hread]
    exact if_pos hout

def nextLetter (w : List Byte) : List Byte := (w.dropWhile isGap).dropWhile isDigit

theorem notesPass_terminated (h0 : 0#8 ∉ w) (hout : out.length < max) :
    notesPass defaults wholeNoteMs max (terminated w, out) =
      if nextLetter w = [] then some (.leave out)
      else readToken defaults wholeNoteMs max
        (digitsValue ((w.dropWhile isGap).takeWhile isDigit)) (terminated (nextLetter w)) out := by
  cases w with
  | nil => rfl
  | cons c w =>
    have hc : ¬(c = 0#8 ∨ max ≤ out.length) := by
      rintro (rfl | hfull)
      · exact h0 (List.mem_cons_self ..)
      · omega
    have hhead : (terminated (c :: w)).head? = some c := rfl
    rw [notesPass, hhead]
    dsimp only [Option.bind_eq_bind, Option.bind_some]
    rw [if_neg hc, scanWhile_terminated (by decide)]
    dsimp only [Option.bind_some]
    have hsub := (List.dropWhile_suffix isGap (l := c :: w)).subset
    rw [nextLetter]
    cases hgap : (c :: w).dropWhile isGap with
    | nil => rfl
    | cons d v =>
      have hd : ¬d = 0#8 := fun hd => h0 (hsub (by rw [hgap, hd]; exact List.mem_cons_self ..))
      have hheadd : (terminated (d :: v)).head? = some d := rfl
      rw [hheadd]
      dsimp only [Option.bind_some]
      rw [if_neg hd, readDigits_terminated]
      dsimp only [Option.bind_some]
      split_ifs with hend
      · rw [hend]
        rfl
      · rfl

theorem nextLetter_suffix (w : List Byte) : nextLetter w <:+ w :=
  (List.dropWhile_suffix _).trans (List.dropWhile_suffix _)

/-- A token that does not begin with a note's letter takes something to skip: its
digits, or a byte that is neither a digit nor a gap. -/
theorem skipped_shorter {letter : Byte} {w' : List Byte} (hnext : nextLetter w = letter :: w') :
    ((letter :: w').dropWhile (· != comma)).length < w.length := by
  have hle : ((letter :: w').dropWhile (· != comma)).length ≤ (letter :: w').length :=
    (List.dropWhile_suffix _).length_le
  by_cases hletter : letter = comma
  · have hdigits : (w.dropWhile isGap).takeWhile isDigit ≠ [] := by
      intro hnil
      have hsplit := List.takeWhile_append_dropWhile (p := isDigit) (l := w.dropWhile isGap)
      rw [nextLetter] at hnext
      rw [hnil, hnext, List.nil_append] at hsplit
      have hgap := dropWhile_stop hsplit.symm
      rw [hletter] at hgap
      exact absurd hgap (by decide)
    have hsplit := congrArg List.length
      (List.takeWhile_append_dropWhile (p := isDigit) (l := w.dropWhile isGap))
    rw [nextLetter] at hnext
    rw [List.length_append, hnext] at hsplit
    have hpos := List.length_pos_iff.mpr hdigits
    have hdrop : (w.dropWhile isGap).length ≤ w.length := (List.dropWhile_suffix _).length_le
    omega
  · have hskip : (letter :: w').dropWhile (· != comma) = w'.dropWhile (· != comma) := by
      simp [hletter]
    have hsuffix : (w'.dropWhile (· != comma)).length ≤ w'.length :=
      (List.dropWhile_suffix _).length_le
    have hfrom : (letter :: w').length ≤ w.length := hnext ▸ (nextLetter_suffix w).length_le
    rw [List.length_cons] at hfrom
    rw [hskip]
    omega

theorem notesPass_cases (h0 : 0#8 ∉ w) (hout : out.length < max) :
    (nextLetter w = [] ∧
      notesPass defaults wholeNoteMs max (terminated w, out) = some (.leave out)) ∨
    (∃ letter w', nextLetter w = letter :: w' ∧ noteLetter letter = none ∧
      notesPass defaults wholeNoteMs max (terminated w, out) =
        some (.again (terminated ((letter :: w').dropWhile (· != comma)), out))) ∨
    ∃ letter w' note rest, nextLetter w = letter :: w' ∧ noteLetter letter ≠ none ∧ rest <:+ w' ∧
      notesPass defaults wholeNoteMs max (terminated w, out) =
        some (.again (terminated rest, out ++ [note])) := by
  rw [notesPass_terminated h0 hout]
  cases hnext : nextLetter w with
  | nil => exact Or.inl ⟨rfl, rfl⟩
  | cons letter w' =>
    have hsuffix : letter :: w' <:+ w := hnext ▸ nextLetter_suffix w
    have htoken := @readToken_letter defaults wholeNoteMs max out
      (digitsValue ((w.dropWhile isGap).takeWhile isDigit)) letter w'
      (fun hz => h0 (hsuffix.subset hz)) hout
    rw [if_neg (List.cons_ne_nil _ _)]
    cases hnote : noteLetter letter with
    | none =>
      rw [hnote] at htoken
      exact Or.inr (Or.inl ⟨letter, w', rfl, hnote, htoken⟩)
    | some semitone =>
      rw [hnote] at htoken
      obtain ⟨note, rest, htoken, hrest⟩ := htoken
      exact Or.inr (Or.inr ⟨letter, w', note, rest, rfl, by simp [hnote], hrest, htoken⟩)

theorem notesPass_full (h0 : 0#8 ∉ w) (hfull : out.length = max) :
    notesPass defaults wholeNoteMs max (terminated w, out) = some (.leave out) := by
  obtain ⟨c, hc, -⟩ := terminated_head w h0
  rw [← List.head?_eq_getElem?] at hc
  rw [notesPass, hc]
  exact if_pos (Or.inr hfull.ge)

section Rest

variable {letter : Byte} {w' rest : List Byte} (hnext : nextLetter w = letter :: w')
include hnext

theorem skipped_noZero (h0 : 0#8 ∉ w) : 0#8 ∉ (letter :: w').dropWhile (· != comma) := fun hz =>
  h0 ((nextLetter_suffix w).subset (hnext ▸ (List.dropWhile_suffix _).subset hz))

theorem skipped_terminated :
    (terminated ((letter :: w').dropWhile (· != comma))).length < (terminated w).length := by
  simp only [terminated, List.length_append]
  exact Nat.add_lt_add_right (skipped_shorter hnext) _

theorem noted_noZero (h0 : 0#8 ∉ w) (hrest : rest <:+ w') : 0#8 ∉ rest := fun hz =>
  h0 ((nextLetter_suffix w).subset (hnext ▸ List.mem_cons_of_mem _ (hrest.subset hz)))

theorem noted_terminated (hrest : rest <:+ w') :
    (terminated rest).length < (terminated w).length := by
  have hfrom : (letter :: w').length ≤ w.length := hnext ▸ (nextLetter_suffix w).length_le
  have hshort := hrest.length_le
  rw [List.length_cons] at hfrom
  simp only [terminated, List.length_append]
  omega

end Rest

/-- The pointer is within the text and `out` within its bound. -/
def NotesInv (max : ℕ) (s : List Byte × List RtttlNote) : Prop :=
  ∃ w, s.1 = terminated w ∧ 0#8 ∉ w ∧ s.2.length ≤ max

theorem notesPass_advances (s : List Byte × List RtttlNote) (h : NotesInv max s) :
    Advances (NotesInv max) (fun s => s.1.length) (fun out => out.length ≤ max) s
      (notesPass defaults wholeNoteMs max s) := by
  obtain ⟨p, out⟩ := s
  obtain ⟨w, rfl, h0, hle⟩ := h
  rcases Nat.lt_or_eq_of_le hle with hout | hfull
  · rcases @notesPass_cases w defaults wholeNoteMs max out h0 hout with
      ⟨-, hpass⟩ | ⟨letter, w', hnext, -, hpass⟩ | ⟨letter, w', note, rest, hnext, -, hrest, hpass⟩
    · exact Or.inr ⟨out, hpass, hle⟩
    · exact Or.inl ⟨_, hpass, ⟨_, rfl, skipped_noZero hnext h0, hle⟩, skipped_terminated hnext⟩
    · refine Or.inl ⟨_, hpass, ⟨_, rfl, noted_noZero hnext h0 hrest, ?_⟩,
        noted_terminated hnext hrest⟩
      rw [List.length_append]
      exact hout
  · exact Or.inr ⟨out, notesPass_full h0 hfull, hle⟩

end Notes

section Defaults

variable {stop : Byte} {tail : List Byte}

/-- What is set after an equals sign, `key` being what the pass began at. -/
def settingRead (key : Byte) (v : List Byte) : Option (RtttlKey × ℕ) :=
  (digitsValue (v.takeWhile isDigit)).bind fun val => (rtttlKeyOf key).map fun key => (key, val)

theorem readSetting_none (key : Byte) {body : List Byte} (h : equalsSign ∉ key :: body) :
    readSetting (stop :: tail) (key :: body ++ stop :: tail) = some (none, stop :: tail) := by
  have hscan : scanBefore (stop :: tail) (· != equalsSign) (key :: body ++ stop :: tail) =
      stop :: tail := by
    rw [scanBefore_append, List.dropWhile_eq_nil_iff.mpr]
    · rfl
    · exact fun c hc => bne_iff_ne.mpr fun heq => h (heq ▸ hc)
  have hstay : scanBefore (stop :: tail) (· != comma) (stop :: tail) = stop :: tail :=
    scanBefore_append (stop :: tail) _ []
  have hhead : (key :: body ++ stop :: tail).head? = some key := rfl
  rw [readSetting, hhead]
  dsimp only [Option.bind_eq_bind, Option.bind_some]
  rw [hscan, if_neg (fun hlt => absurd hlt.1 (Nat.lt_irrefl _))]
  rw [hstay]
  rfl

/-- Otherwise the number after the first equals sign is read, and what follows it
is passed over to the next comma. -/
theorem readSetting_some (hstop : isDigit stop = false) {key : Byte} {body u v : List Byte}
    (h : key :: body = u ++ equalsSign :: v) (hu : equalsSign ∉ u) :
    readSetting (stop :: tail) (key :: body ++ stop :: tail) =
      some (settingRead key v,
        (v.dropWhile isDigit).dropWhile (· != comma) ++ stop :: tail) := by
  have hscan : scanBefore (stop :: tail) (· != equalsSign) (key :: body ++ stop :: tail) =
      equalsSign :: (v ++ stop :: tail) := by
    rw [scanBefore_append, h, List.dropWhile_append_of_pos]
    · simp
    · exact fun c hc => bne_iff_ne.mpr fun heq => hu (heq ▸ hc)
  have hhead : (key :: body ++ stop :: tail).head? = some key := rfl
  have hlong : (stop :: tail).length ≤ (v ++ stop :: tail).length := by simp
  have hbefore : (stop :: tail).length < (equalsSign :: (v ++ stop :: tail)).length :=
    Nat.lt_succ_of_le hlong
  rw [readSetting, hhead]
  dsimp only [Option.bind_eq_bind, Option.bind_some]
  rw [hscan, List.tail_cons, if_pos ⟨hbefore, hlong⟩, readDigits_append v hstop]
  dsimp only [Option.bind_some]
  rw [scanBefore_append]
  rfl

theorem defaultsPass_leave {sec : List Byte} (h : sec.dropWhile isGap = [])
    (d : RtttlDefaults) :
    defaultsPass (stop :: tail) (sec ++ stop :: tail, d) = some (.leave d) := by
  rw [defaultsPass]
  dsimp only
  rw [scanBefore_append, h, List.nil_append, if_pos (Or.inr le_rfl)]

theorem defaultsPass_setting {sec body : List Byte} {key : Byte}
    (h : sec.dropWhile isGap = key :: body) (d : RtttlDefaults)
    {set : Option (RtttlKey × ℕ)} {q : List Byte}
    (hset : readSetting (stop :: tail) (key :: body ++ stop :: tail) = some (set, q)) :
    defaultsPass (stop :: tail) (sec ++ stop :: tail, d) =
      some (.again (q, set.elim d d.set)) := by
  have hbody : (key :: body).length ≤ sec.length := h ▸ (List.dropWhile_suffix _).length_le
  rw [List.length_cons] at hbody
  rw [defaultsPass]
  dsimp only
  rw [scanBefore_append, h, if_neg, hset]
  · rfl
  · simp only [List.length_append, List.length_cons]
    omega

def DefaultsInv (defsEnd : List Byte) (s : List Byte × RtttlDefaults) : Prop :=
  ∃ sec, s.1 = sec ++ defsEnd

theorem defaultsPass_advances (hstop : isDigit stop = false) (s : List Byte × RtttlDefaults)
    (h : DefaultsInv (stop :: tail) s) :
    Advances (DefaultsInv (stop :: tail)) (fun s => s.1.length) (fun _ => True) s
      (defaultsPass (stop :: tail) s) := by
  obtain ⟨q, d⟩ := s
  obtain ⟨sec, rfl⟩ := h
  cases hsec : sec.dropWhile isGap with
  | nil => exact Or.inr ⟨d, defaultsPass_leave hsec d, trivial⟩
  | cons key body =>
    have hlen : (key :: body).length ≤ sec.length := hsec ▸ (List.dropWhile_suffix _).length_le
    rw [List.length_cons] at hlen
    by_cases heq : equalsSign ∈ key :: body
    · obtain ⟨u, v, hsplit, hu⟩ := List.eq_append_cons_of_mem heq
      refine Or.inl ⟨_, defaultsPass_setting hsec d (readSetting_some hstop hsplit hu),
        ⟨_, rfl⟩, ?_⟩
      have hsplitlen := congrArg List.length hsplit
      have hrest : ((v.dropWhile isDigit).dropWhile (· != comma)).length ≤ v.length :=
        ((List.dropWhile_suffix _).trans (List.dropWhile_suffix _)).length_le
      simp only [List.length_append, List.length_cons] at hsplitlen ⊢
      omega
    · refine Or.inl ⟨_, defaultsPass_setting hsec d (readSetting_none key heq), ⟨[], rfl⟩, ?_⟩
      simp only [List.length_append, List.length_cons]
      omega

end Defaults

section Header

theorem strchrColon_none {text : List Byte} (h0 : 0#8 ∉ text) (h : colon ∉ text) :
    strchrColon (terminated text) = some none := by
  have hscan : text.dropWhile (fun c => c != 0#8 && c != colon) = [] := by
    rw [dropWhile_nonzero h0, List.dropWhile_eq_nil_iff]
    exact fun c hc => bne_iff_ne.mpr fun heq => h (heq ▸ hc)
  rw [strchrColon, scanWhile_terminated (by decide), hscan]
  rfl

theorem strchrColon_some {text : List Byte} (h0 : 0#8 ∉ text) (h : colon ∉ text)
    (s : List Byte) : strchrColon (text ++ colon :: s) = some (some (colon :: s)) := by
  have hscan : text.dropWhile (fun c => c != 0#8 && c != colon) = [] := by
    rw [dropWhile_nonzero h0, List.dropWhile_eq_nil_iff]
    exact fun c hc => bne_iff_ne.mpr fun heq => h (heq ▸ hc)
  rw [strchrColon, scanWhile_append (by decide), hscan]
  rfl

theorem strchrColon_terminated {text : List Byte} (h0 : 0#8 ∉ text) :
    strchrColon (terminated text) = some none ∨
    ∃ name rest, text = name ++ colon :: rest ∧ colon ∉ name ∧
      strchrColon (terminated text) = some (some (colon :: terminated rest)) := by
  by_cases hcolon : colon ∈ text
  · obtain ⟨name, rest, rfl, hname⟩ := List.eq_append_cons_of_mem hcolon
    refine Or.inr ⟨name, rest, rfl, hname, ?_⟩
    rw [terminated_append]
    exact strchrColon_some (fun hz => h0 (List.mem_append_left _ hz)) hname _
  · exact Or.inl (strchrColon_none h0 hcolon)

def SectionTail (defsEnd : List Byte) (tune : List Byte) : Prop :=
  defsEnd = colon :: terminated tune ∨ defsEnd = [0#8] ∧ tune = []

theorem SectionTail.stop {defsEnd tune : List Byte} (h : SectionTail defsEnd tune) :
    ∃ stop tail, defsEnd = stop :: tail ∧ isDigit stop = false := by
  rcases h with rfl | ⟨rfl, -⟩
  · exact ⟨colon, _, rfl, by decide⟩
  · exact ⟨0#8, [], rfl, isDigit_zero⟩

theorem sectionEnd_of_tail {sec defsEnd tune : List Byte} (h0 : 0#8 ∉ sec) (hsec : colon ∉ sec)
    (h : SectionTail defsEnd tune) :
    sectionEnd (sec ++ defsEnd) = some (defsEnd, terminated tune) := by
  rcases h with rfl | ⟨rfl, rfl⟩
  · rw [sectionEnd, strchrColon_some h0 hsec]
    rfl
  · have hend : scanWhile (· != 0#8) (terminated sec) = some [0#8] := by
      rw [scanWhile_terminated (by decide), List.dropWhile_eq_nil_iff.mpr]
      · rfl
      · exact fun c hc => bne_iff_ne.mpr fun heq => h0 (heq ▸ hc)
    change sectionEnd (terminated sec) = _
    rw [sectionEnd, strchrColon_none h0 hsec]
    change (scanWhile (· != 0#8) (terminated sec)).map _ = _
    rw [hend]
    rfl

theorem exists_section {rest : List Byte} (h0 : 0#8 ∉ rest) :
    ∃ sec defsEnd tune, terminated rest = sec ++ defsEnd ∧ SectionTail defsEnd tune ∧
      0#8 ∉ sec ∧ colon ∉ sec ∧ 0#8 ∉ tune ∧ (sec ++ tune).length ≤ rest.length := by
  by_cases hcolon : colon ∈ rest
  · obtain ⟨sec, tune, rfl, hsec⟩ := List.eq_append_cons_of_mem hcolon
    refine ⟨sec, _, tune, terminated_append _ _, Or.inl rfl, fun hz => ?_, hsec, fun hz => ?_, ?_⟩
    · exact h0 (List.mem_append_left _ hz)
    · exact h0 (List.mem_append_right _ (List.mem_cons_of_mem _ hz))
    · simp
  · exact ⟨rest, [0#8], [], rfl, Or.inr ⟨rfl, rfl⟩, h0, hcolon, by simp, by simp⟩

theorem defaults_total {sec defsEnd tune : List Byte} (htail : SectionTail defsEnd tune) :
    ∃ d, ∀ fuel, (sec ++ defsEnd).length < fuel →
      loop (defaultsPass defsEnd) fuel (sec ++ defsEnd, .initial) = some d := by
  obtain ⟨stop, tail, rfl, hstop⟩ := htail.stop
  obtain ⟨d, hd, -⟩ := loop_total (defaultsPass_advances hstop)
    (s := (sec ++ stop :: tail, .initial)) ⟨sec, rfl⟩
  exact ⟨d, hd⟩

theorem readDefaults_section {fuel : ℕ} {name sec defsEnd tune : List Byte} {d : RtttlDefaults}
    (hname0 : 0#8 ∉ name) (hname : colon ∉ name) (h0 : 0#8 ∉ sec) (hsec : colon ∉ sec)
    (htail : SectionTail defsEnd tune)
    (hd : loop (defaultsPass defsEnd) fuel (sec ++ defsEnd, .initial) = some d) :
    readDefaults fuel (name ++ colon :: (sec ++ defsEnd)) = some (d, terminated tune) := by
  rw [readDefaults, strchrColon_some hname0 hname]
  dsimp only [Option.bind_eq_bind, Option.bind_some, List.tail_cons]
  rw [sectionEnd_of_tail h0 hsec htail]
  dsimp only [Option.bind_some]
  rw [hd]
  rfl

theorem readDefaults_total {text : List Byte} (h0 : 0#8 ∉ text) :
    ∃ d tune, (∀ fuel, (terminated text).length < fuel →
      readDefaults fuel (terminated text) = some (d, terminated tune)) ∧
      0#8 ∉ tune ∧ tune.length ≤ text.length := by
  rcases strchrColon_terminated h0 with hnone | ⟨name, rest, rfl, hname, -⟩
  · refine ⟨.initial, text, fun fuel _ => ?_, h0, le_rfl⟩
    rw [readDefaults, hnone]
    rfl
  · have hname0 : 0#8 ∉ name := fun hz => h0 (List.mem_append_left _ hz)
    have hrest0 : 0#8 ∉ rest := fun hz =>
      h0 (List.mem_append_right _ (List.mem_cons_of_mem _ hz))
    obtain ⟨sec, defsEnd, tune, hsplit, htail, hsec0, hsec, htune, hlen⟩ := exists_section hrest0
    obtain ⟨d, hd⟩ := @defaults_total sec _ _ htail
    refine ⟨d, tune, fun fuel hfuel => ?_, htune, ?_⟩
    · have hwhole : terminated (name ++ colon :: rest) = name ++ colon :: (sec ++ defsEnd) := by
        rw [terminated_append, terminated_cons, hsplit]
      rw [hwhole] at hfuel ⊢
      refine readDefaults_section hname0 hname hsec0 hsec htail (hd fuel ?_)
      rw [List.length_append, List.length_cons] at hfuel
      omega
    · rw [List.length_append] at hlen
      rw [List.length_append, List.length_cons]
      omega

theorem readNotes_total {tune : List Byte} (h0 : 0#8 ∉ tune) (d : RtttlDefaults) (max : ℕ) :
    ∃ notes, (∀ fuel, (terminated tune).length < fuel →
      readNotes fuel d (terminated tune) max = some notes) ∧ notes.length ≤ max := by
  by_cases hzero : d.bpm = 0 ∨ d.duration = 0
  · exact ⟨[], fun fuel _ => if_pos hzero, Nat.zero_le max⟩
  · obtain ⟨notes, hnotes, hle⟩ := loop_total
      (@notesPass_advances d (wholeNote d) max) (s := (terminated tune, []))
      ⟨tune, rfl, h0, Nat.zero_le max⟩
    exact ⟨notes, fun fuel hfuel => (if_neg hzero).trans (hnotes fuel hfuel), hle⟩

/-- What ends a parse: it has a result, whatever number of passes it is allowed
beyond one for each byte; every pass goes on by a byte or more or leaves; and
wherever digits are read their value stays small. -/
structure ParseEnds (text : List Byte) (max : ℕ) : Prop where
  notes : ∃ notes, (∀ fuel, (terminated text).length < fuel →
    rtttlParse fuel (some (terminated text)) max = some notes) ∧ notes.length ≤ max
  defaults : ∀ colonOn defsEnd tune, strchrColon (terminated text) = some (some colonOn) →
    sectionEnd colonOn.tail = some (defsEnd, tune) →
    ∀ s, Reaches (defaultsPass defsEnd) (colonOn.tail, .initial) s →
      Advances (fun _ => True) (fun s => s.1.length) (fun _ => True) s (defaultsPass defsEnd s)
  tune : ∀ fuel d p, readDefaults fuel (terminated text) = some (d, p) →
    ∀ s, Reaches (notesPass d (wholeNote d) max) (p, []) s →
      Advances (fun _ => True) (fun s => s.1.length) (fun _ => True) s
        (notesPass d (wholeNote d) max s)
  digits : ∀ p, p <:+ terminated text → p ≠ [] →
    ∃ v rest, readDigitsFrom 0 p = some (v, rest) ∧ v ≤ 99999

theorem colonOn_section {text colonOn : List Byte} (h0 : 0#8 ∉ text)
    (hcolon : strchrColon (terminated text) = some (some colonOn)) :
    ∃ sec defsEnd tune, colonOn.tail = sec ++ defsEnd ∧ SectionTail defsEnd tune ∧
      sectionEnd colonOn.tail = some (defsEnd, terminated tune) ∧ 0#8 ∉ tune := by
  rcases strchrColon_terminated h0 with hnone | ⟨name, rest, rfl, hname, hsome⟩
  · rw [hnone] at hcolon
    cases hcolon
  · rw [hsome] at hcolon
    obtain rfl := Option.some.inj (Option.some.inj hcolon)
    have hrest0 : 0#8 ∉ rest := fun hz =>
      h0 (List.mem_append_right _ (List.mem_cons_of_mem _ hz))
    obtain ⟨sec, defsEnd, tune, hsplit, htail, hsec0, hsec, htune, -⟩ := exists_section hrest0
    refine ⟨sec, defsEnd, tune, hsplit, htail, ?_, htune⟩
    rw [List.tail_cons, hsplit]
    exact sectionEnd_of_tail hsec0 hsec htail

theorem readDefaults_tune {text p : List Byte} {fuel : ℕ} {d : RtttlDefaults} (h0 : 0#8 ∉ text)
    (h : readDefaults fuel (terminated text) = some (d, p)) :
    ∃ tune, p = terminated tune ∧ 0#8 ∉ tune := by
  rw [readDefaults] at h
  cases hcolon : strchrColon (terminated text) with
  | none => simp [hcolon] at h
  | some found =>
    cases found with
    | none =>
      rw [hcolon] at h
      obtain ⟨-, rfl⟩ := Prod.mk.inj (Option.some.inj h)
      exact ⟨text, rfl, h0⟩
    | some colonOn =>
      obtain ⟨sec, defsEnd, tune, -, -, hend, htune⟩ := colonOn_section h0 hcolon
      simp only [hcolon, hend, Option.bind_eq_bind, Option.bind_some] at h
      obtain ⟨d', -, hd'⟩ := Option.bind_eq_some_iff.mp h
      obtain ⟨-, rfl⟩ := Prod.mk.inj (Option.some.inj hd')
      exact ⟨tune, rfl, htune⟩

theorem readDigitsFrom_within {text p : List Byte} (hp : p <:+ terminated text) (hne : p ≠ []) :
    ∃ v rest, readDigitsFrom 0 p = some (v, rest) ∧ v ≤ 99999 := by
  obtain ⟨w, rfl⟩ : ∃ w, p = terminated w := by
    rcases List.eq_nil_or_concat p with rfl | ⟨w, c, rfl⟩
    · exact absurd rfl hne
    · obtain ⟨before, hbefore⟩ := hp
      rw [List.concat_eq_append, ← List.append_assoc] at hbefore
      obtain ⟨-, hc⟩ := List.append_inj' hbefore rfl
      exact ⟨w, by rw [List.concat_eq_append, hc]; rfl⟩
  obtain ⟨b, t, htail, hb⟩ := dropWhile_isDigit w isDigit_zero []
  obtain ⟨u, hu, hle, -⟩ := readDigitsFrom_append _ (takeWhile_isDigit w) hb t (Nat.zero_le 99999)
  refine ⟨u, b :: t, ?_, hle⟩
  rw [← hu, ← htail, ← List.append_assoc, List.takeWhile_append_dropWhile]
  rfl

/-- Parsing ends within bounds, whatever the text and wherever it is cut. -/
theorem rtttl_parse_ends (text : List Byte) (h0 : 0#8 ∉ text) (max : ℕ) : ParseEnds text max where
  notes := by
    obtain ⟨d, tune, hdefaults, htune, hlen⟩ := readDefaults_total h0
    obtain ⟨notes, hnotes, hle⟩ := readNotes_total htune d max
    refine ⟨notes, fun fuel hfuel => ?_, hle⟩
    have hshort : (terminated tune).length < fuel := by
      simp only [terminated, List.length_append] at hfuel ⊢
      omega
    rw [rtttlParse]
    dsimp only
    rw [hdefaults fuel hfuel]
    exact hnotes fuel hshort
  defaults := by
    intro colonOn defsEnd tune hcolon hend s hreach
    obtain ⟨sec, stopOn, tune', hsplit, htail, hfound, -⟩ := colonOn_section h0 hcolon
    rw [hend] at hfound
    obtain ⟨rfl, -⟩ := Prod.mk.inj (Option.some.inj hfound)
    obtain ⟨stop, tail, rfl, hstop⟩ := htail.stop
    exact reaches_advances (defaultsPass_advances hstop) ⟨sec, hsplit⟩ hreach
  tune := by
    intro fuel d p hread s hreach
    obtain ⟨tune, rfl, htune⟩ := readDefaults_tune h0 hread
    exact reaches_advances notesPass_advances (s := (terminated tune, []))
      ⟨tune, rfl, htune, Nat.zero_le max⟩ hreach
  digits := fun _ hp hne => readDigitsFrom_within hp hne

/-- A section that is cut off after an equals sign, and digits past the cap. -/
theorem cut_off_parse_ends : 0#8 ∉ ascii "x:d=99999999999,o=" ∧
    ParseEnds (ascii "x:d=99999999999,o=") 64 :=
  have h0 : 0#8 ∉ ascii "x:d=99999999999,o=" := by decide
  ⟨h0, rtttl_parse_ends _ h0 64⟩

end Header

end RelayBoard
