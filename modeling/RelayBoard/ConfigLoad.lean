import RelayBoard.BoardConfig
import RelayBoard.InputSense
import RelayBoard.ScheduleText

/-!
# Loading the settings

`device_config_load`, less the fields that no part of the model reads. The
settings store is a parameter; what it leaves in a buffer is a string that
fits. The interlocks and the schedules are checked against each other once all
of them have been read.
-/

set_option autoImplicit false

namespace RelayBoard
open BitVec Lib.Loops Lib.Scanning

/-- The `espos_config` getters of the namespace. `str` is the string in a
buffer of `max + 1` bytes whose first byte was zero before the call. -/
structure Settings where
  ready : Bool
  i32 : List Byte → Option (BitVec 32)
  bool : List Byte → Option Bool
  str : List Byte → (max : ℕ) → CStr max

def settingKey (before : String) (n : ℕ) (after : String) : List Byte :=
  snprintf 24 (ascii before ++ decimal n ++ ascii after)

/-- `derive` writes here what is effective of the interlocks. -/
structure Interlocks where
  interlock : Channel → Byte
  invalid : Mask

def reciprocated (raw : Channel → Byte) (i : Channel) : Bool :=
  let n := i.val + 1
  let partner := (raw i).toNat
  let selfRef := partner == n
  if h : partner < 1 ∨ 8 < partner then false
  else !selfRef && (raw ⟨partner - 1, index_lt_of_not h⟩).toNat == n

/-- One pass of the loop over the relays, whose raw values are in `raw`. -/
def deriveInterlock (raw : Channel → Byte) (i : Channel) (out : Interlocks) : Interlocks :=
  if raw i = 0#8 then { out with interlock := Function.update out.interlock i 0#8 }
  else if reciprocated raw i then
    { out with interlock := Function.update out.interlock i (raw i) }
  else ⟨Function.update out.interlock i 0#8, out.invalid ||| single i⟩

def deriveInterlocks (interlock : Channel → Byte) : Interlocks :=
  forEach (deriveInterlock interlock) ⟨interlock, 0#8⟩

structure ScheduleRelays where
  schedules : ScheduleEntry → ScheduleCfg
  conflict : Mask

/-- How many entries name relay `n`. -/
def countNamed (raw : ScheduleEntry → ℕ) (n : ℕ) : ℕ :=
  forEach (fun (k : ScheduleEntry) count => if raw k = n then count + 1 else count) 0

def rejectOverlap (raw : ScheduleEntry → ℕ) (r : Channel) (out : ScheduleRelays) :
    ScheduleRelays :=
  let n := r.val + 1
  if countNamed raw n < 2 then out
  else
    { schedules := forEach (fun (k : ScheduleEntry) schedules =>
        if raw k = n then Function.update schedules k { schedules k with relay := 0 }
        else schedules) out.schedules
      conflict := out.conflict ||| single r }

def rejectOverlaps (schedules : ScheduleEntry → ScheduleCfg) : ScheduleRelays :=
  forEach (rejectOverlap fun k => (schedules k).relay) ⟨schedules, 0#8⟩

def ScheduleTime.zero : ScheduleTime := ⟨.clock, 0, 0⟩

def ScheduleCfg.zero : ScheduleCfg := ⟨0, .clock, .zero, .zero, 0, 0, 0#8⟩

namespace Settings

variable (s : Settings)

def getInt (key : List Byte) : BitVec 32 := (s.i32 key).getD 0#32

def getBool (key : List Byte) : Bool := (s.bool key).getD false

/-- The text in `char val[24]`. -/
def getVal (key : List Byte) : List Byte := (s.str key 23).bytes

def relayCfg (i : Channel) : RelayCfg :=
  let n := i.val + 1
  { mode := if s.getVal (settingKey "relay" n "_mode") = ascii "momentary" then .momentary
      else .latching
    pulseMs := s.getInt (settingKey "relay" n "_pulse_ms")
    failsafe := if s.getVal (settingKey "relay" n "_failsafe") = ascii "hold" then .hold
      else .defaultSafe
    wiredNc := s.getBool (settingKey "relay" n "_wired_nc")
    maxOnS := s.getInt (settingKey "relay" n "_max_on_s")
    interlock := 0 }

/-- The stored `r<n>_interlock`. -/
def rawInterlock (i : Channel) : Byte :=
  (s.getInt (settingKey "r" (i.val + 1) "_interlock")).setWidth 8

def inputCfg (i : Channel) : InputCfg :=
  let n := i.val + 1
  let alarm := s.getVal (settingKey "input" n "_alarm")
  { name := s.str (settingKey "input" n "_name") nameMax
    alarm := if alarm = ascii "warn" then .warn else if alarm = ascii "alarm" then .alarm
      else if alarm = ascii "emergency" then .emergency else .off
    alarmMsg := s.str (settingKey "input" n "_alm_msg") nameMax }

def senseCfg : SenseCfg where
  invert i := s.getBool (settingKey "input" (i.val + 1) "_invert")
  overrideDi i := ((s.getInt (settingKey "relay" (i.val + 1) "_override")).setWidth 8).toNat
  link i := if s.getVal (settingKey "relay" (i.val + 1) "_link") = ascii "toggle" then .toggle
    else .follow
  debounceMs := (s.getInt (ascii "debounce_ms")).setWidth 16

def bankCfg : BankCfg where
  bankId := (s.getInt (ascii "bank_id")).setWidth 8
  inputBankId := (s.getInt (ascii "input_bank_id")).setWidth 8
  skRepublishS := (s.getInt (ascii "sk_repub_s")).setWidth 16
  n2kAlerts := s.getBool (ascii "n2k_alerts")
  relayNames i := s.str (settingKey "relay" (i.val + 1) "_name") nameMax
  inputs := s.inputCfg

end Settings

structure ScheduleSlot where
  relay : Byte
  mode : List Byte
  days : BitVec 32
  on : CStr 23
  off : CStr 23
  deriving DecidableEq

def Settings.slot (s : Settings) (k : ScheduleEntry) : ScheduleSlot :=
  let n := k.val + 1
  { relay := (s.getInt (settingKey "s" n "_relay")).setWidth 8
    mode := s.getVal (settingKey "s" n "_mode")
    days := s.getInt (settingKey "s" n "_days")
    on := s.str (settingKey "s" n "_on") 23
    off := s.str (settingKey "s" n "_off") 23 }

/-- `parse_minutes` of a buffer, and what it stores there. -/
def minutesIn (str : CStr 23) : Option ℕ :=
  (parseMinutes (terminated str.bytes)).get (by
    obtain ⟨r, hr, -⟩ := parseMinutes_spec str.bytes str.noNul
    rw [hr]
    rfl)

def timeIn (str : CStr 23) (out : ScheduleTime) : Bool × ScheduleTime :=
  (parseScheduleTime (terminated str.bytes) out).get (by
    obtain ⟨ok, t, ht, -⟩ := parseScheduleTime_spec str.bytes str.noNul out
    rw [ht]
    rfl)

/-- What is parsed of a repeat entry: whether it is valid, and the two fields as
far as the conjunction got. -/
def parseRepeat (on off : CStr 23) : Bool × ℕ × ℕ :=
  match minutesIn on with
  | none => (false, 0, 0)
  | some onMin =>
    match minutesIn off with
    | none => (false, onMin, 0)
    | some periodMin => (decide (onMin < periodMin), onMin, periodMin)

def parseClock (on off : CStr 23) : Bool × ScheduleTime × ScheduleTime :=
  let (ok, on) := timeIn on .zero
  if ok then
    let (ok, off) := timeIn off .zero
    (ok, on, off)
  else (false, on, .zero)

namespace ScheduleSlot

def scheduleMode (slot : ScheduleSlot) : ScheduleMode :=
  if slot.mode = ascii "repeat" then .repeat else .clock

def load (slot : ScheduleSlot) : ScheduleCfg :=
  let sc : ScheduleCfg :=
    { ScheduleCfg.zero with
      relay := if 8 < slot.relay.toNat then 0 else slot.relay.toNat
      mode := slot.scheduleMode
      days := (slot.days &&& 0x7F#32).setWidth 8 }
  if sc.relay = 0 then sc
  else
    match sc.mode with
    | .repeat =>
      let (ok, onMin, periodMin) := parseRepeat slot.on slot.off
      { sc with onMin := onMin, periodMin := periodMin, relay := if ok then sc.relay else 0 }
    | .clock =>
      let (ok, on, off) := parseClock slot.on slot.off
      { sc with on := on, off := off, relay := if ok then sc.relay else 0 }

end ScheduleSlot

/-- `device_config_t`, what is modelled of it. -/
structure LoadedConfig where
  board : BoardConfig
  sense : SenseCfg
  schedules : ScheduleEntry → ScheduleCfg
  scheduleRelayConflict : Mask
  interlockInvalid : Mask

/-- None for `ESP_ERR_INVALID_STATE`. -/
def deviceConfigLoad (s : Settings) : Option LoadedConfig :=
  if s.ready then
    let schedules := rejectOverlaps fun k => (s.slot k).load
    let interlocks := deriveInterlocks s.rawInterlock
    some
      { board :=
          { relays := fun i => { s.relayCfg i with interlock := (interlocks.interlock i).toNat }
            interlockDeadMs := s.getInt (ascii "interlock_dead")
            skLossGraceS := (s.getInt (ascii "sk_grace_s")).setWidth 16
            publishSwitchesTree := s.getBool (ascii "pub_switches")
            publishControlsTree := s.getBool (ascii "pub_controls")
            bank := s.bankCfg }
        sense := s.senseCfg
        schedules := schedules.schedules
        scheduleRelayConflict := schedules.conflict
        interlockInvalid := interlocks.invalid }
  else none

def NameEachOther (raw : Channel → Byte) (i j : Channel) : Prop :=
  i ≠ j ∧ (raw i).toNat = j.val + 1 ∧ (raw j).toNat = i.val + 1

theorem reciprocated_iff (raw : Channel → Byte) (i : Channel) :
    reciprocated raw i = true ↔ ∃ j, NameEachOther raw i j := by
  unfold reciprocated
  dsimp only
  by_cases hrange : (raw i).toNat < 1 ∨ 8 < (raw i).toNat
  · rw [dif_pos hrange]
    refine iff_of_false Bool.false_ne_true ?_
    rintro ⟨j, -, hj, -⟩
    have hlt := j.isLt
    omega
  · rw [dif_neg hrange, Bool.and_eq_true, Bool.not_eq_true', beq_eq_false_iff_ne, beq_iff_eq]
    constructor
    · rintro ⟨hself, hback⟩
      refine ⟨⟨(raw i).toNat - 1, index_lt_of_not hrange⟩, ?_, ?_, hback⟩
      · intro hi
        have hval := congrArg Fin.val hi
        exact hself (by simp only at hval; omega)
      · simp only
        omega
    · rintro ⟨j, hne, hj, hback⟩
      have hindex : (⟨(raw i).toNat - 1, index_lt_of_not hrange⟩ : Channel) = j :=
        Fin.ext (by simp only; omega)
      rw [hindex]
      refine ⟨fun hself => hne (Fin.ext ?_), hback⟩
      omega

theorem deriveInterlocks_spec (raw : Channel → Byte) (i : Channel) :
    (deriveInterlocks raw).interlock i = (if reciprocated raw i then raw i else 0#8) ∧
      (deriveInterlocks raw).invalid.has i = (raw i != 0#8 && !reciprocated raw i) := by
  have hown : ∀ out : Interlocks, ((deriveInterlock raw i out).interlock i,
      (deriveInterlock raw i out).invalid.has i) =
        (if reciprocated raw i then raw i else 0#8,
          out.invalid.has i || (raw i != 0#8 && !reciprocated raw i)) := by
    intro out
    unfold deriveInterlock
    by_cases hzero : raw i = 0#8
    · rw [if_pos hzero]
      simp [hzero]
    · rw [if_neg hzero]
      cases hrec : reciprocated raw i <;> simp [hzero]
  have hloop := forEach_own (deriveInterlock raw)
    (fun out : Interlocks => (out.interlock i, out.invalid.has i)) i ?_ ?_ ⟨raw, 0#8⟩
  · rw [hown] at hloop
    simp only [Prod.mk.injEq] at hloop
    exact ⟨hloop.1, hloop.2.trans (by simp)⟩
  · intro j hj out
    unfold deriveInterlock
    split_ifs <;> simp [hj.symm]
  · intro out out' h
    rw [hown, hown, (Prod.mk.inj h).2]

/-- What the loaded interlocks are: a matching of the relays that name each
other, and a mark for those that name in vain. -/
structure InterlocksValid (raw : Channel → Byte) (c : LoadedConfig) : Prop where
  paired : Paired c.board.toDeviceConfig
  unique : ∀ i j k, Partner c.board.toDeviceConfig i j → Partner c.board.toDeviceConfig i k → j = k
  partner_iff : ∀ i j, Partner c.board.toDeviceConfig i j ↔
    i ≠ j ∧ (raw i).toNat = j.val + 1 ∧ (raw j).toNat = i.val + 1
  inRange : ∀ i, (c.board.relays i).interlock ≠ 0 → ∃ j, Partner c.board.toDeviceConfig i j
  invalid_iff : ∀ i, c.interlockInvalid.has i = true ↔
    raw i ≠ 0#8 ∧ ∀ j, ¬Partner c.board.toDeviceConfig i j

theorem load_interlock {s : Settings} {c : LoadedConfig} (h : deviceConfigLoad s = some c)
    (i : Channel) : (c.board.relays i).interlock =
        (if reciprocated s.rawInterlock i then s.rawInterlock i else 0#8).toNat ∧
      c.interlockInvalid.has i =
        (s.rawInterlock i != 0#8 && !reciprocated s.rawInterlock i) := by
  unfold deviceConfigLoad at h
  split_ifs at h
  obtain rfl := Option.some.inj h
  obtain ⟨hinterlock, hinvalid⟩ := deriveInterlocks_spec s.rawInterlock i
  exact ⟨congrArg BitVec.toNat hinterlock, hinvalid⟩

theorem load_partner_iff {s : Settings} {c : LoadedConfig} (h : deviceConfigLoad s = some c)
    (i j : Channel) :
    Partner c.board.toDeviceConfig i j ↔ NameEachOther s.rawInterlock i j := by
  unfold Partner
  rw [(load_interlock h i).1]
  constructor
  · intro hj
    split_ifs at hj with hrec
    · obtain ⟨k, hk⟩ := (reciprocated_iff _ i).mp hrec
      have hjk : j = k := Fin.ext (by have := hk.2.1; omega)
      rwa [hjk]
    · exact absurd hj (by simp)
  · intro hj
    rw [if_pos ((reciprocated_iff _ i).mpr ⟨j, hj⟩)]
    exact hj.2.1

theorem load_interlocks_valid {s : Settings} {c : LoadedConfig} (h : deviceConfigLoad s = some c) :
    InterlocksValid s.rawInterlock c where
  paired := by
    refine ⟨fun i j hij => ?_, fun i hii => ?_⟩
    · rw [load_partner_iff h] at hij ⊢
      exact ⟨hij.1.symm, hij.2.2, hij.2.1⟩
    · rw [load_partner_iff h] at hii
      exact hii.1 rfl
  unique i j k hj hk := partner_unique hj hk
  partner_iff := load_partner_iff h
  inRange i hi := by
    rw [(load_interlock h i).1] at hi
    split_ifs at hi with hrec
    · obtain ⟨j, hj⟩ := (reciprocated_iff _ i).mp hrec
      exact ⟨j, (load_partner_iff h i j).mpr hj⟩
    · exact absurd rfl hi
  invalid_iff i := by
    rw [(load_interlock h i).2, Bool.and_eq_true, bne_iff_ne, Bool.not_eq_true',
      ← Bool.not_eq_true, reciprocated_iff, not_exists]
    exact and_congr_right fun _ => forall_congr' fun j => not_congr (load_partner_iff h i j).symm

theorem reload_interlocks {s s' : Settings} {c c' : LoadedConfig}
    (h : deviceConfigLoad s = some c) (h' : deviceConfigLoad s' = some c')
    (hraw : ∀ i, (s'.rawInterlock i).toNat = (c.board.relays i).interlock) :
    (∀ i, (c'.board.relays i).interlock = (c.board.relays i).interlock) ∧
      c'.interlockInvalid = 0#8 := by
  have hmutual : ∀ i, (c.board.relays i).interlock ≠ 0 → reciprocated s'.rawInterlock i = true := by
    intro i hi
    obtain ⟨j, hj⟩ := (load_interlocks_valid h).inRange i hi
    have hback := (load_interlocks_valid h).paired.symm i j hj
    rw [reciprocated_iff]
    refine ⟨j, ((load_partner_iff h i j).mp hj).1, ?_, ?_⟩
    · rw [hraw]
      exact hj
    · rw [hraw]
      exact hback
  constructor
  · intro i
    rw [(load_interlock h' i).1]
    by_cases hi : (c.board.relays i).interlock = 0
    · have hzero : s'.rawInterlock i = 0#8 := BitVec.eq_of_toNat_eq ((hraw i).trans hi)
      rw [hi, hzero, ite_self]
      rfl
    · rw [if_pos (hmutual i hi), hraw]
  · rw [eq_zero_iff]
    intro i
    rw [(load_interlock h' i).2]
    by_cases hi : (c.board.relays i).interlock = 0
    · have hzero : s'.rawInterlock i = 0#8 := BitVec.eq_of_toNat_eq ((hraw i).trans hi)
      simp [hzero]
    · simp [hmutual i hi]

def naming (third : BitVec 32) : Settings where
  ready := true
  i32 key :=
    if key = ascii "r1_interlock" then some 2#32
    else if key = ascii "r2_interlock" then some 1#32
    else if key = ascii "r3_interlock" then some third
    else none
  bool _ := none
  str _ max := .empty max

end RelayBoard
