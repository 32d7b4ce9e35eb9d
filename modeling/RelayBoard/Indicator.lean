import RelayBoard.BoardConfig
import RelayBoard.Lib.Runs
import RelayBoard.MorseTone
import RelayBoard.ToneLibrary

/-!
# The LED and the buzzer

`indicator_task` of `indicator.c` and the functions other tasks call. The task
runs one pass after another; what it shares with the others is atomic or under
a lock, and any number of them come between any two of its steps.
-/

set_option autoImplicit false

namespace RelayBoard
open BitVec Lib Lib.Loops Lib.Runs

/-- `indicator_state_t` -/
inductive IndicatorState where
  | ok
  | noSignalk
  | warn
  | alarm
  deriving DecidableEq, Repr

def indicatorState (health : ℤ) (skRelevant skConnected : Bool) : IndicatorState :=
  if 2 ≤ health then .alarm
  else if health = 1 then .warn
  else if skRelevant && !skConnected then .noSignalk else .ok

/-- `indicator_rgb_t` -/
structure IndicatorRgb where
  r : Byte
  g : Byte
  b : Byte
  deriving DecidableEq, Repr

def IndicatorRgb.scale (c : IndicatorRgb) (brightnessPct : Byte) : IndicatorRgb :=
  let pct := if 100 < brightnessPct.toNat then 100 else brightnessPct.toNat
  let part (v : Byte) := BitVec.ofNat 8 ((v.toNat * pct + 50) / 100)
  ⟨part c.r, part c.g, part c.b⟩

def indicatorColor (state : IndicatorState) (brightnessPct : Byte) : IndicatorRgb :=
  IndicatorRgb.scale
    (match state with
    | .ok => ⟨0, 255, 0⟩
    | .noSignalk => ⟨0, 0, 255⟩
    | .warn => ⟨255, 120, 0⟩
    | .alarm => ⟨255, 0, 0⟩) brightnessPct

/-- `indicator_override_t` -/
inductive IndicatorOverride where
  | none
  | portal
  | reset
  deriving DecidableEq, Repr

/-- `INDICATOR_OVERRIDE_BLINK_MS` -/
def indicatorOverrideBlinkMs : BitVec 32 := 400#32

def indicatorOverrideColor (override : IndicatorOverride) (brightnessPct : Byte) (t : BitVec 32) :
    IndicatorRgb :=
  let blink (full : IndicatorRgb) : IndicatorRgb :=
    if t / indicatorOverrideBlinkMs % 2#32 = 0#32 then full.scale brightnessPct else ⟨0, 0, 0⟩
  match override with
  | .none => ⟨0, 0, 0⟩
  | .portal => blink ⟨255, 255, 255⟩
  | .reset => blink ⟨255, 0, 0⟩

/-- `tone_priority_t` -/
inductive TonePriority where
  | none
  | chirp
  | high
  deriving DecidableEq, Repr

def TonePriority.value : TonePriority → ℕ
  | .none => 0
  | .chirp => 1
  | .high => 2

def tonePriorityAllowed (requested active : TonePriority) : Bool :=
  decide (active.value < requested.value)

inductive ToneSlot where
  | boot
  | portal
  | reset
  | relayOn (i : Channel)
  | relayOff (i : Channel)
  | pulseStart (i : Channel)
  | pulseStop (i : Channel)
  | inputOn (i : Channel)
  | inputOff (i : Channel)
  deriving DecidableEq

def ToneSlot.isEvent : ToneSlot → Bool
  | .boot => true
  | .portal => true
  | .reset => true
  | _ => false

/-- The settings `indicator_update_config` reads; `tonePatterns` is the parsed
table, `toneName` has `boot_tone`, `relays[i].on_tone` and so on. -/
structure IndicatorConfig where
  ledBrightness : Byte
  buzzerOnAlarm : Bool
  publishSwitchesTree : Bool
  publishControlsTree : Bool
  buzzerFreqHz : BitVec 16
  buzzerOnEvent : Bool
  alarm : Channel → InputAlarm
  alarmBuzz : Channel → Bool
  tonePatterns : Option Json.Value
  toneName : ToneSlot → List Byte

/-- What the tasks share. An index that is -1 in the source is none. -/
structure IndicatorShared where
  brightness : Byte
  buzzerEnabled : Bool
  skRelevant : Bool
  freqHz : BitVec 16
  testRequested : Bool
  busy : Bool
  started : Bool
  override : IndicatorOverride
  inputMask : Mask
  inputBuzzMask : Mask
  eventEnabled : Bool
  tones : List NamedTone
  toneIdx : ToneSlot → Option ℕ
  chirpRequest : Option ℕ
  preview : Tone
  previewRequested : Bool

inductive ConfigStore where
  | brightness (pct : Byte)
  | buzzerEnabled (on : Bool)
  | skRelevant (on : Bool)
  | freqHz (hz : BitVec 16)
  | eventEnabled (on : Bool)
  | inputBuzzMask (mask : Mask)
  | tones (library : List NamedTone)
  | toneIdx (slot : ToneSlot) (i : Option ℕ)

def ConfigStore.apply (sh : IndicatorShared) : ConfigStore → IndicatorShared
  | .brightness pct => { sh with brightness := pct }
  | .buzzerEnabled on => { sh with buzzerEnabled := on }
  | .skRelevant on => { sh with skRelevant := on }
  | .freqHz hz => { sh with freqHz := hz }
  | .eventEnabled on => { sh with eventEnabled := on }
  | .inputBuzzMask mask => { sh with inputBuzzMask := mask }
  | .tones library => { sh with tones := library }
  | .toneIdx slot i => { sh with toneIdx := Function.update sh.toneIdx slot i }

def toneSlots : List ToneSlot :=
  [.boot, .portal, .reset] ++ (List.finRange 8).flatMap fun i =>
    [.relayOn i, .relayOff i, .pulseStart i, .pulseStop i, .inputOn i, .inputOff i]

/-- The stores of `indicator_update_config`, in order. -/
def indicatorUpdateConfig (cfg : IndicatorConfig) : List ConfigStore :=
  let tones := toneLibraryParse cfg.tonePatterns toneMaxTones
  [.brightness cfg.ledBrightness, .buzzerEnabled cfg.buzzerOnAlarm,
    .skRelevant (cfg.publishSwitchesTree || cfg.publishControlsTree), .freqHz cfg.buzzerFreqHz,
    .eventEnabled cfg.buzzerOnEvent,
    .inputBuzzMask (collect fun i => cfg.alarm i != .off && cfg.alarmBuzz i), .tones tones] ++
  toneSlots.map fun slot => .toneIdx slot (toneLibraryFind tones (cfg.toneName slot))

inductive IndicatorRet where
  | ok
  | invalidArg
  | invalidState
  | ms (t : BitVec 32)
  deriving DecidableEq

inductive CallerPc where
  | returned (r : IndicatorRet)
  | storing (rest : List ConfigStore)
  | chirp (slot : ToneSlot)
  | chirpStarted (slot : ToneSlot) (i : ℕ)
  | chirpEnabled (slot : ToneSlot) (i : ℕ)
  | storeChirp (slot : ToneSlot) (i : ℕ)
  | durationStarted (i : ℕ)
  | durationEnabled (i : ℕ)
  | durationRead (i : ℕ)
  | testStarted
  | testBusy
  | testRequested
  | storeTest
  | previewStarted (tone : Tone)
  | previewBusy (tone : Tone)
  | previewRequested (tone : Tone)
  | storePreview (tone : Tone)
  | requestPreview

inductive IndicatorCall where
  | setInputs (mask : Mask)
  | setOverride (override : IndicatorOverride)
  | updateConfig (cfg : IndicatorConfig)
  | play (slot : ToneSlot)
  | testBuzzer
  | playRtttl (rtttl : Option (List Byte))

def IndicatorCall.enter (sh : IndicatorShared) : IndicatorCall → IndicatorShared × CallerPc
  | .setInputs mask => ({ sh with inputMask := mask }, .returned .ok)
  | .setOverride override => ({ sh with override := override }, .returned .ok)
  | .updateConfig cfg => (sh, .storing (indicatorUpdateConfig cfg))
  | .play slot => (sh, .chirp slot)
  | .testBuzzer => (sh, .testStarted)
  | .playRtttl rtttl =>
    match rtttl.map rtttlTone with
    | none => (sh, .returned .invalidArg)
    | some tone => (sh, if tone.notes = [] then .returned .invalidArg else .previewStarted tone)

def chirpAsked (slot : ToneSlot) (i : ℕ) : CallerPc :=
  if slot.isEvent then .durationStarted i else .returned .ok

def CallerPc.next (sh : IndicatorShared) : CallerPc → IndicatorShared × CallerPc
  | .returned r => (sh, .returned r)
  | .storing [] => (sh, .returned .ok)
  | .storing (store :: rest) => (store.apply sh, .storing rest)
  | .chirp slot =>
    match sh.toneIdx slot with
    | none => (sh, .returned (if slot.isEvent then .ms 0 else .ok))
    | some i => (sh, .chirpStarted slot i)
  | .chirpStarted slot i => (sh, if sh.started then .chirpEnabled slot i else chirpAsked slot i)
  | .chirpEnabled slot i =>
    (sh, if sh.eventEnabled then .storeChirp slot i else chirpAsked slot i)
  | .storeChirp slot i => ({ sh with chirpRequest := some i }, chirpAsked slot i)
  | .durationStarted i => (sh, if sh.started then .durationEnabled i else .returned (.ms 0))
  | .durationEnabled i => (sh, if sh.eventEnabled then .durationRead i else .returned (.ms 0))
  | .durationRead i =>
    (sh, .returned (.ms ((sh.tones[i]?.map fun t => rtttlDurationMs t.tone.notes).getD 0)))
  | .testStarted => (sh, if sh.started then .testBusy else .returned .invalidState)
  | .testBusy => (sh, if sh.busy then .returned .invalidState else .testRequested)
  | .testRequested => (sh, if sh.testRequested then .returned .invalidState else .storeTest)
  | .storeTest => ({ sh with testRequested := true }, .returned .ok)
  | .previewStarted tone => (sh, if sh.started then .previewBusy tone else .returned .invalidState)
  | .previewBusy tone => (sh, if sh.busy then .returned .invalidState else .previewRequested tone)
  | .previewRequested tone =>
    (sh, if sh.previewRequested then .returned .invalidState else .storePreview tone)
  | .storePreview tone => ({ sh with preview := tone }, .requestPreview)
  | .requestPreview => ({ sh with previewRequested := true }, .returned .ok)

inductive IndicatorPc where
  | look
  | readOverride
  | light
  | readInputs
  | readBuzz
  | readEnabled
  | clearChirp
  | clearPreview
  | takeTest
  | startTest
  | message
  | readClock
  | takeChirp
  | copyChirp (i : ℕ)
  | takePreview
  | copyPreview
  | readFreq
  | sound (wantFreq : BitVec 16)
  | setFreq (tone : Bool) (wantFreq : BitVec 16)
  | setBusy (tone : Bool)
  | setBuzzer (tone : Bool)
  deriving DecidableEq

/-- `tone_buzzer_t`, as far as it changes. -/
structure ToneBuzzer where
  appliedHz : BitVec 16
  on : Bool
  deriving DecidableEq

/-- `ok` is the driver's answer. -/
def toneBuzzerSetFreq (b : ToneBuzzer) (ok : Bool) (freqHz : BitVec 16) : ToneBuzzer :=
  if freqHz = 0 ∨ freqHz = b.appliedHz then b
  else if ok then { b with appliedHz := freqHz } else b

def toneBuzzerSet (b : ToneBuzzer) (on : Bool) : ToneBuzzer := { b with on := on }

/-- The task's own variables; those of one pass keep their last value after it. -/
structure IndicatorTask where
  pc : IndicatorPc
  state : IndicatorState
  override : IndicatorOverride
  shown : IndicatorRgb
  inputAlarms : Mask
  alarm : Bool
  alarmWas : Bool
  alarmInputsWas : Mask
  alarmStartUs : ℕ
  segs : List MorseSeg
  testing : Bool
  testStartUs : ℕ
  testLenMs : BitVec 32
  nowMs : BitVec 32
  player : TonePlayer
  buzzer : ToneBuzzer

structure IndicatorIo where
  health : ℤ
  skConnected : Bool
  ip : Option (List Byte)
  ledcOk : Bool

def elapsedMs (nowUs startUs : ℕ) : BitVec 32 := BitVec.ofNat 32 ((nowUs - startUs) / 1000)

def IndicatorTask.suppressChirp (t : IndicatorTask) : Bool :=
  !tonePriorityAllowed .chirp (if t.override ≠ .none ∨ t.alarm then .high else .none)

def IndicatorTask.quiet (t : IndicatorTask) : Bool :=
  !t.suppressChirp && !t.testing && !t.player.playing

/-- What the alarm buzzes; `indicator_alarm_text` always gives a text. -/
def alarmTextFor (inputAlarms : Mask) (ip : Option (List Byte)) : List Byte :=
  if inputAlarms ≠ 0 then indicatorInputAlarmText inputAlarms indicatorInputAlarmTextMax
  else (indicatorAlarmText ip indicatorInputAlarmTextMax).getD []

/-- `char text[16]` of the buzzer test. -/
def testText (ip : Option (List Byte)) : List Byte := (indicatorAlarmText ip 16).getD []

def IndicatorTask.sound (nowUs : ℕ) (wantFreq : BitVec 16) (t : IndicatorTask) : IndicatorTask :=
  if t.alarm then
    { t with
      pc := .setFreq (morseToneAt t.segs morseUnitMs morsePauseMs (elapsedMs nowUs t.alarmStartUs))
        wantFreq }
  else if t.testing then
    let elapsed := elapsedMs nowUs t.testStartUs
    if t.testLenMs ≤ elapsed then { t with testing := false, pc := .setFreq false wantFreq }
    else { t with pc := .setFreq (morseToneAt t.segs morseUnitMs 0 elapsed) wantFreq }
  else
    let stepped := t.player.tonePlayerStep t.nowMs
    { t with player := stepped.1, pc := .setFreq stepped.2.isSome (stepped.2.getD wantFreq) }

/-- The next step of `indicator_task`. -/
def IndicatorTask.step (io : IndicatorIo) (nowUs : ℕ) (sh : IndicatorShared) (t : IndicatorTask) :
    IndicatorShared × IndicatorTask :=
  match t.pc with
  | .look =>
    (sh, { t with
      state := indicatorState io.health sh.skRelevant io.skConnected, pc := .readOverride })
  | .readOverride => (sh, { t with override := sh.override, pc := .light })
  | .light =>
    (sh, { t with
      shown := if t.override ≠ .none then
          indicatorOverrideColor t.override sh.brightness (BitVec.ofNat 32 (nowUs / 1000))
        else indicatorColor t.state sh.brightness
      pc := .readInputs })
  | .readInputs => (sh, { t with inputAlarms := sh.inputMask, pc := .readBuzz })
  | .readBuzz =>
    (sh, { t with inputAlarms := t.inputAlarms &&& sh.inputBuzzMask, pc := .readEnabled })
  | .readEnabled =>
    let alarm := t.inputAlarms != 0 || (t.state == IndicatorState.alarm && sh.buzzerEnabled)
    let t' := { t with alarm := alarm }
    (sh, { t' with pc := if t'.suppressChirp then .clearChirp else .takeTest })
  | .clearChirp => ({ sh with chirpRequest := none }, { t with pc := .clearPreview })
  | .clearPreview =>
    ({ sh with previewRequested := false },
      { t with player := t.player.tonePlayerStop, pc := .takeTest })
  | .takeTest =>
    if t.alarm then (sh, { t with testing := false, pc := .message })
    else if !t.testing && !t.player.playing then
      ({ sh with testRequested := false },
        { t with pc := if sh.testRequested then .startTest else .message })
    else (sh, { t with pc := .message })
  | .startTest =>
    let segs := morseEncode (testText io.ip) maxSegs
    (sh, { t with
      segs := segs, testStartUs := nowUs, testLenMs := morseDurationMs segs morseUnitMs,
      testing := true, pc := .message })
  | .message =>
    let t' := if t.alarm ∧ (¬t.alarmWas ∨ t.inputAlarms ≠ t.alarmInputsWas) then
        { t with
          segs := morseEncode (alarmTextFor t.inputAlarms io.ip) maxSegs, alarmStartUs := nowUs }
      else t
    (sh, { t' with alarmWas := t.alarm, alarmInputsWas := t.inputAlarms, pc := .readClock })
  | .readClock => (sh, { t with nowMs := BitVec.ofNat 32 (nowUs / 1000), pc := .takeChirp })
  | .takeChirp =>
    if t.quiet then
      ({ sh with chirpRequest := none },
        { t with pc := sh.chirpRequest.elim .takePreview .copyChirp })
    else (sh, { t with pc := .takePreview })
  | .copyChirp i =>
    match sh.tones[i]? with
    | some next =>
      (sh, { t with player := (t.player.tonePlayerStart next.tone t.nowMs).1, pc := .takePreview })
    | none => (sh, { t with pc := .takePreview })
  | .takePreview =>
    if t.quiet then
      ({ sh with previewRequested := false },
        { t with pc := if sh.previewRequested then .copyPreview else .readFreq })
    else (sh, { t with pc := .readFreq })
  | .copyPreview =>
    (sh, { t with player := (t.player.tonePlayerStart sh.preview t.nowMs).1, pc := .readFreq })
  | .readFreq => (sh, { t with pc := .sound sh.freqHz })
  | .sound wantFreq => (sh, t.sound nowUs wantFreq)
  | .setFreq tone wantFreq =>
    (sh, { t with buzzer := toneBuzzerSetFreq t.buzzer io.ledcOk wantFreq, pc := .setBusy tone })
  | .setBusy tone =>
    ({ sh with busy := t.alarm || t.testing || t.player.playing },
      { t with pc := .setBuzzer tone })
  | .setBuzzer tone => (sh, { t with buzzer := toneBuzzerSet t.buzzer tone, pc := .look })

structure Indicator (τ : Type) where
  nowUs : ℕ
  shared : IndicatorShared
  task : IndicatorTask
  caller : τ → CallerPc

inductive IndicatorAction (τ : Type) where
  | elapse (us : ℕ)
  | started
  | call (u : τ) (c : IndicatorCall)
  | go (u : τ)
  | pass (io : IndicatorIo)

namespace IndicatorShared

/-- Before `indicator_start`; `chirp_request` is its first store. -/
def zero : IndicatorShared where
  brightness := 0
  buzzerEnabled := false
  skRelevant := false
  freqHz := 0
  testRequested := false
  busy := false
  started := false
  override := .none
  inputMask := 0
  inputBuzzMask := 0
  eventEnabled := false
  tones := []
  toneIdx := fun _ => some 0
  chirpRequest := none
  preview := ⟨[], Nat.zero_le _⟩
  previewRequested := false

end IndicatorShared

def IndicatorTask.created (cfg : IndicatorConfig) : IndicatorTask where
  pc := .look
  state := .ok
  override := .none
  shown := ⟨1, 1, 1⟩
  inputAlarms := 0
  alarm := false
  alarmWas := false
  alarmInputsWas := 0
  alarmStartUs := 0
  segs := []
  testing := false
  testStartUs := 0
  testLenMs := 0
  nowMs := 0
  player := ⟨⟨[], Nat.zero_le _⟩, false, 0, 0⟩
  buzzer := ⟨cfg.buzzerFreqHz, false⟩

namespace Indicator

variable {τ : Type} [DecidableEq τ]

/-- After `indicator_start` has created the task; `started` is still to come. -/
def start (cfg : IndicatorConfig) (nowUs : ℕ) : Indicator τ where
  nowUs := nowUs
  shared := (indicatorUpdateConfig cfg).foldl ConfigStore.apply .zero
  task := .created cfg
  caller := fun _ => .returned .ok

def setCaller (u : τ) (r : IndicatorShared × CallerPc) (s : Indicator τ) : Indicator τ :=
  { s with shared := r.1, caller := Function.update s.caller u r.2 }

def step (s : Indicator τ) : IndicatorAction τ → Indicator τ
  | .elapse us => { s with nowUs := s.nowUs + us }
  | .started => { s with shared := { s.shared with started := true } }
  | .call u c =>
    match s.caller u with
    | .returned _ => s.setCaller u (c.enter s.shared)
    | _ => s
  | .go u => s.setCaller u ((s.caller u).next s.shared)
  | .pass io =>
    let r := s.task.step io s.nowUs s.shared
    { s with shared := r.1, task := r.2 }

end Indicator

end RelayBoard
