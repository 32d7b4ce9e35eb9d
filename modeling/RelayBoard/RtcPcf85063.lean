import RelayBoard.CivilTime
import RelayBoard.Expander

/-!
# The real-time clock

`pcf85063.c` and `rtc_pcf85063.c`. The chip keeps the time in seven registers
which are read and written in one burst, two decimal digits to a register and
the year without its century. Access is through functions which the caller
supplies; what they and the chip behind them remember is theirs alone.
-/

set_option autoImplicit false

namespace RelayBoard
open Lib.Civil

structure Pcf85063Bus (σ : Type) where
  read : Byte → (len : ℕ) → σ → EspResult (Vector Byte len) × σ
  write : Byte → (len : ℕ) → Vector Byte len → σ → EspResult Unit × σ

def pcf85063RegSeconds : Byte := 0x04#8

structure Pcf85063Datetime where
  year : ℤ
  month : Byte
  day : Byte
  hour : Byte
  minute : Byte
  second : Byte
  wday : Byte
  deriving DecidableEq, Repr

def toBcd (v : Byte) : Byte := ((v / 10#8) <<< 4) ||| (v % 10#8)

def fromBcd (v : Byte) : Byte := (v >>> 4) * 10#8 + (v &&& 0x0f#8)

/-- None when the oscillator has stopped since the time was written. -/
def decodeTime (reg : Vector Byte 7) : Option Pcf85063Datetime :=
  if reg[0] &&& 0x80#8 ≠ 0#8 then none
  else some
    { second := fromBcd (reg[0] &&& 0x7f#8)
      minute := fromBcd (reg[1] &&& 0x7f#8)
      hour := fromBcd (reg[2] &&& 0x3f#8)
      day := fromBcd (reg[3] &&& 0x3f#8)
      wday := reg[4] &&& 0x07#8
      month := fromBcd (reg[5] &&& 0x1f#8)
      year := (2000 : ℤ) + (fromBcd reg[6]).toNat }

def encodeTime (dt : Pcf85063Datetime) : Vector Byte 7 :=
  let year := if dt.year < 2000 then 2000 else if 2099 < dt.year then 2099 else dt.year
  #v[toBcd dt.second, toBcd dt.minute, toBcd dt.hour, toBcd dt.day, dt.wday &&& 0x07#8,
    toBcd dt.month, toBcd (BitVec.ofInt 8 (year - 2000))]

variable {σ : Type}

def pcf85063ReadDatetime (bus : Pcf85063Bus σ) (c : σ) :
    EspResult (Option Pcf85063Datetime) × σ :=
  match bus.read pcf85063RegSeconds 7 c with
  | (.error e, c) => (.error e, c)
  | (.ok reg, c) => (.ok (decodeTime reg), c)

def pcf85063WriteDatetime (bus : Pcf85063Bus σ) (dt : Pcf85063Datetime) (c : σ) :
    EspResult Unit × σ :=
  bus.write pcf85063RegSeconds 7 (encodeTime dt) c

inductive RtcErr where
  | invalidState
  | invalidArg
  | bus (err : EspErr)
  deriving DecidableEq, Repr

/-- The bus that `rtc_pcf85063_init` stored. -/
abbrev Rtc (σ : Type) := Option (Pcf85063Bus σ)

def unixMsOf (dt : Pcf85063Datetime) : Option ℤ := do
  let days ← daysFromCivil dt.year (dt.month.setWidth 32) (dt.day.setWidth 32)
  let secs ← int64 (days * 86400)
  let secs ← int64 (secs + dt.hour.toNat * 3600)
  let secs ← int64 (secs + dt.minute.toNat * 60)
  let secs ← int64 (secs + dt.second.toNat)
  int64 (secs * 1000)

def rtcPcf85063GetTime (s : Rtc σ) (c : σ) : Option (Except RtcErr ℤ × σ) :=
  match s with
  | none => some (.error .invalidState, c)
  | some bus =>
    match pcf85063ReadDatetime bus c with
    | (.error e, c) => some (.error (.bus e), c)
    | (.ok none, c) => some (.error .invalidState, c)
    | (.ok (some dt), c) => (unixMsOf dt).map fun ms => (.ok ms, c)

def datetimeOf (unixMs : ℤ) : Option Pcf85063Datetime := do
  let secs := unixMs.tdiv 1000
  let days := secs.tdiv 86400
  let sod := secs.tmod 86400
  let (sod, days) ← (if sod < 0 then (int64 (days - 1)).map fun days => (sod + 86400, days)
    else some (sod, days))
  let (y, mo, d) ← civilFromDays days
  let wday ← wdayOf days
  some
    { year := (BitVec.ofInt 32 y).toInt
      month := mo.setWidth 8
      day := d.setWidth 8
      hour := BitVec.ofInt 8 (sod.tdiv 3600)
      minute := BitVec.ofInt 8 ((sod.tdiv 60).tmod 60)
      second := BitVec.ofInt 8 (sod.tmod 60)
      wday := wday }

def rtcPcf85063SetTime (s : Rtc σ) (unixMs : ℤ) (c : σ) : Option (Except RtcErr Unit × σ) :=
  match s with
  | none => some (.error .invalidState, c)
  | some bus =>
    if unixMs ≤ 0 then some (.error .invalidArg, c)
    else (datetimeOf unixMs).map fun dt =>
      match pcf85063WriteDatetime bus dt c with
      | (.error e, c) => (.error (.bus e), c)
      | (.ok _, c) => (.ok (), c)

/-- What is written to the time block stays in it, and reading it gives it. -/
structure Faithful (bus : Pcf85063Bus σ) (block : σ → Vector Byte 7) : Prop where
  read_block : ∀ c, ∃ c', bus.read pcf85063RegSeconds 7 c = (.ok (block c), c') ∧
    block c' = block c
  write_block : ∀ reg c, ∃ c', bus.write pcf85063RegSeconds 7 reg c = (.ok (), c') ∧
    block c' = reg

structure CivilTime where
  date : Date
  hour : ℕ
  minute : ℕ
  second : ℕ
  hour_lt : hour < 24
  minute_lt : minute < 60
  second_lt : second < 60

def CivilTime.instant (t : CivilTime) : ℤ :=
  t.date.dayNumber * 86400 + t.hour * 3600 + t.minute * 60 + t.second

def ValidBcd (v : Byte) : Prop := v.toNat / 16 ≤ 9 ∧ v.toNat % 16 ≤ 9

instance (v : Byte) : Decidable (ValidBcd v) := inferInstanceAs (Decidable (_ ∧ _))

def bcdValue (v : Byte) : ℕ := 10 * (v.toNat / 16) + v.toNat % 16

def timeMasks : Vector Byte 7 :=
  #v[0x7f#8, 0x7f#8, 0x3f#8, 0x3f#8, 0x07#8, 0x1f#8, 0xff#8]

/-- The registers hold a time of this century with its weekday, and the clock
has not stopped. -/
structure Holds (reg : Vector Byte 7) (t : CivilTime) : Prop where
  bcd : ∀ i : Fin 7, ValidBcd reg[i]
  running : reg[0] &&& 0x80#8 = 0#8
  second : bcdValue reg[0] = t.second
  minute : bcdValue reg[1] = t.minute
  hour : bcdValue reg[2] = t.hour
  day : bcdValue reg[3] = t.date.day
  weekday : (reg[4].toNat : ℤ) = t.date.weekday
  month : bcdValue reg[5] = t.date.month
  year : t.date.year = (2000 : ℤ) + bcdValue reg[6]

theorem fromBcd_eq : ∀ v : Byte, fromBcd v = BitVec.ofNat 8 (bcdValue v) := by
  decide +kernel

theorem toBcd_bcdValue : ∀ v : Byte, ValidBcd v → toBcd (BitVec.ofNat 8 (bcdValue v)) = v := by
  decide +kernel

theorem toBcd_digits : ∀ n < 100, ValidBcd (toBcd (BitVec.ofNat 8 n)) ∧
    bcdValue (toBcd (BitVec.ofNat 8 n)) = n := by
  decide +kernel

theorem bcdValue_lt : ∀ v : Byte, ValidBcd v → bcdValue v < 100 := by
  decide +kernel

theorem mask_bcd : ∀ v : Byte, ValidBcd v →
    (bcdValue v < 80 → v &&& 0x7f#8 = v ∧ v &&& 0x80#8 = 0#8) ∧
    (bcdValue v < 40 → v &&& 0x3f#8 = v) ∧ (bcdValue v < 20 → v &&& 0x1f#8 = v) ∧
    (v.toNat < 8 → v &&& 0x07#8 = v) ∧ v &&& 0xff#8 = v := by
  decide +kernel

theorem toNat_ofNat_byte {n : ℕ} (h : n < 256) : (BitVec.ofNat 8 n).toNat = n := by
  rw [BitVec.toNat_ofNat, Nat.mod_eq_of_lt h]

variable {reg : Vector Byte 7} {t : CivilTime}

def CivilTime.datetime (t : CivilTime) : Pcf85063Datetime where
  year := t.date.year
  month := BitVec.ofNat 8 t.date.month
  day := BitVec.ofNat 8 t.date.day
  hour := BitVec.ofNat 8 t.hour
  minute := BitVec.ofNat 8 t.minute
  second := BitVec.ofNat 8 t.second
  wday := BitVec.ofInt 8 t.date.weekday

theorem Holds.weekday_eq (h : Holds reg t) : reg[4] = BitVec.ofInt 8 t.date.weekday := by
  rw [← h.weekday, BitVec.ofInt_natCast, BitVec.ofNat_toNat, BitVec.setWidth_eq]

theorem Holds.masked (h : Holds reg t) :
    reg[0] &&& 0x7f#8 = reg[0] ∧ reg[1] &&& 0x7f#8 = reg[1] ∧ reg[2] &&& 0x3f#8 = reg[2] ∧
      reg[3] &&& 0x3f#8 = reg[3] ∧ reg[4] &&& 0x07#8 = reg[4] ∧ reg[5] &&& 0x1f#8 = reg[5] := by
  have hsecond := t.second_lt
  have hminute := t.minute_lt
  have hhour := t.hour_lt
  have hday := t.date.day_lt
  have hmonth := t.date.month_le
  have hweek := t.date.weekday_lt
  have hw := h.weekday
  rw [← h.second] at hsecond
  rw [← h.minute] at hminute
  rw [← h.hour] at hhour
  rw [← h.day] at hday
  rw [← h.month] at hmonth
  exact ⟨((mask_bcd reg[0] (h.bcd 0)).1 (by omega)).1, ((mask_bcd reg[1] (h.bcd 1)).1 (by omega)).1,
    (mask_bcd reg[2] (h.bcd 2)).2.1 (by omega), (mask_bcd reg[3] (h.bcd 3)).2.1 (by omega),
    (mask_bcd reg[4] (h.bcd 4)).2.2.2.1 (by omega), (mask_bcd reg[5] (h.bcd 5)).2.2.1 (by omega)⟩

theorem Holds.masks (h : Holds reg t) : ∀ i : Fin 7, reg[i] &&& timeMasks[i] = reg[i] := by
  obtain ⟨h0, h1, h2, h3, h4, h5⟩ := h.masked
  rintro ⟨i, hi⟩
  interval_cases i
  · exact h0
  · exact h1
  · exact h2
  · exact h3
  · exact h4
  · exact h5
  · exact (mask_bcd reg[6] (h.bcd 6)).2.2.2.2

theorem Holds.decode (h : Holds reg t) : decodeTime reg = some t.datetime := by
  obtain ⟨h0, h1, h2, h3, h4, h5⟩ := h.masked
  have hyear := bcdValue_lt reg[6] (h.bcd 6)
  have hy := h.year
  rw [decodeTime, if_neg (by simp [h.running]), h0, h1, h2, h3, h4, h5]
  simp only [fromBcd_eq, h.second, h.minute, h.hour, h.day, h.month, h.weekday_eq,
    CivilTime.datetime]
  rw [toNat_ofNat_byte (by omega), hy]

theorem encodeTime_datetime (hlow : 2000 ≤ t.date.year) (hhigh : t.date.year ≤ 2099) :
    encodeTime t.datetime = #v[toBcd (BitVec.ofNat 8 t.second), toBcd (BitVec.ofNat 8 t.minute),
      toBcd (BitVec.ofNat 8 t.hour), toBcd (BitVec.ofNat 8 t.date.day),
      BitVec.ofInt 8 t.date.weekday &&& 0x07#8, toBcd (BitVec.ofNat 8 t.date.month),
      toBcd (BitVec.ofNat 8 (t.date.year - 2000).toNat)] := by
  have hcentury : BitVec.ofInt 8 (t.date.year - 2000) =
      BitVec.ofNat 8 (t.date.year - 2000).toNat := by
    rw [← BitVec.ofInt_natCast, Int.toNat_of_nonneg (by omega)]
  have hfirst : ¬t.date.year < 2000 := by omega
  have hlast : ¬2099 < t.date.year := by omega
  unfold encodeTime CivilTime.datetime
  simp only [if_neg hfirst, if_neg hlast, hcentury]

theorem Holds.encode (h : Holds reg t) : encodeTime t.datetime = reg := by
  have hyear := bcdValue_lt reg[6] (h.bcd 6)
  have hy := h.year
  have hrest : (t.date.year - 2000).toNat = bcdValue reg[6] := by omega
  obtain ⟨-, -, -, -, h4, -⟩ := h.masked
  rw [encodeTime_datetime (by omega) (by omega), hrest, ← h.second, ← h.minute, ← h.hour, ← h.day,
    ← h.month, ← h.weekday_eq, h4, toBcd_bcdValue reg[0] (h.bcd 0), toBcd_bcdValue reg[1] (h.bcd 1),
    toBcd_bcdValue reg[2] (h.bcd 2), toBcd_bcdValue reg[3] (h.bcd 3),
    toBcd_bcdValue reg[5] (h.bcd 5),
    toBcd_bcdValue reg[6] (h.bcd 6)]
  ext i hi
  interval_cases i <;> rfl

/-- A time of the years the chip can tell apart is held as it is written. -/
theorem holds_encodeTime (hlow : 2000 ≤ t.date.year) (hhigh : t.date.year ≤ 2099) :
    Holds (encodeTime t.datetime) t := by
  have hday := t.date.day_lt
  have hmonth := t.date.month_le
  obtain ⟨hweek, hweek'⟩ := t.date.weekday_lt
  have hwday : BitVec.ofInt 8 t.date.weekday &&& 0x07#8 =
      BitVec.ofNat 8 t.date.weekday.toNat := by
    generalize t.date.weekday = w at *
    interval_cases w <;> rfl
  obtain ⟨hsecond, hsecond'⟩ := toBcd_digits t.second (t.second_lt.trans (by decide))
  obtain ⟨hminute, hminute'⟩ := toBcd_digits t.minute (t.minute_lt.trans (by decide))
  obtain ⟨hhour, hhour'⟩ := toBcd_digits t.hour (t.hour_lt.trans (by decide))
  obtain ⟨hd, hd'⟩ := toBcd_digits t.date.day (by omega)
  obtain ⟨hm, hm'⟩ := toBcd_digits t.date.month (by omega)
  obtain ⟨hy, hy'⟩ := toBcd_digits (t.date.year - 2000).toNat (by omega)
  have hw : (BitVec.ofNat 8 t.date.weekday.toNat).toNat = t.date.weekday.toNat :=
    toNat_ofNat_byte (by omega)
  rw [encodeTime_datetime hlow hhigh, hwday]
  exact
    { bcd := by
        have hwbcd : ValidBcd (BitVec.ofNat 8 t.date.weekday.toNat) := by
          unfold ValidBcd
          rw [hw]
          omega
        rintro ⟨i, hi⟩
        interval_cases i
        · exact hsecond
        · exact hminute
        · exact hhour
        · exact hd
        · exact hwbcd
        · exact hm
        · exact hy
      running := ((mask_bcd _ hsecond).1 (by rw [hsecond']; have := t.second_lt; omega)).2
      second := hsecond'
      minute := hminute'
      hour := hhour'
      day := hd'
      weekday := (congrArg Nat.cast hw).trans (Int.toNat_of_nonneg hweek)
      month := hm'
      year := by
        show t.date.year = (2000 : ℤ) + bcdValue (toBcd _)
        rw [hy']
        omega }

theorem dayNumber_range {date : Date} (hlow : 2000 ≤ date.year) (hhigh : date.year ≤ 2099) :
    10957 ≤ date.dayNumber ∧ date.dayNumber < 47482 := by
  obtain ⟨hfrom, hto⟩ := date.dayNumber_year
  have hfirst : yearDays 1999 ≤ yearDays (date.year - 1) := yearDays_mono (by omega)
  have hlast : yearDays date.year ≤ yearDays 2099 := yearDays_mono hhigh
  have h1999 : yearDays 1999 = 730119 := by decide
  have h2099 : yearDays 2099 = 766644 := by decide
  omega

theorem year_range {date : Date} (hlow : 10957 ≤ date.dayNumber) (hhigh : date.dayNumber < 47482) :
    2000 ≤ date.year ∧ date.year ≤ 2099 := by
  obtain ⟨hfrom, hto⟩ := date.dayNumber_year
  have h1999 : yearDays 1999 = 730119 := by decide
  have h2099 : yearDays 2099 = 766644 := by decide
  constructor
  · by_contra hyear
    have hmono : yearDays date.year ≤ yearDays 1999 := yearDays_mono (by omega)
    omega
  · by_contra hyear
    have hmono : yearDays 2099 ≤ yearDays (date.year - 1) := yearDays_mono (by omega)
    omega

theorem exists_civilTime (secs : ℤ) : ∃ t : CivilTime, t.instant = secs := by
  obtain ⟨date, hdate⟩ := exists_date (secs / 86400)
  refine ⟨⟨date, (secs % 86400 / 3600).toNat, (secs % 3600 / 60).toNat, (secs % 60).toNat,
    by omega, by omega, by omega⟩, ?_⟩
  unfold CivilTime.instant
  dsimp only
  omega

theorem unixMsOf_datetime (hlow : 2000 ≤ t.date.year) (hhigh : t.date.year ≤ 2099) :
    unixMsOf t.datetime = some (1000 * t.instant) := by
  obtain ⟨hfrom, hto⟩ := dayNumber_range hlow hhigh
  have hsecond := t.second_lt
  have hminute := t.minute_lt
  have hhour := t.hour_lt
  have hday := t.date.day_lt
  have hmonth := t.date.month_le
  have hd : (BitVec.ofNat 8 t.date.day).setWidth 32 = BitVec.ofNat 32 t.date.day := by
    rw [BitVec.setWidth_ofNat_of_le_of_lt (by decide) (by omega)]
  have hm : (BitVec.ofNat 8 t.date.month).setWidth 32 = BitVec.ofNat 32 t.date.month := by
    rw [BitVec.setWidth_ofNat_of_le_of_lt (by decide) (by omega)]
  unfold unixMsOf CivilTime.datetime
  dsimp only
  rw [hd, hm, daysFromCivil_date t.date (by omega) (by omega), toNat_ofNat_byte (by omega),
    toNat_ofNat_byte (by omega), toNat_ofNat_byte (by omega)]
  simp only [Option.bind_eq_bind, Option.bind_some]
  rw [int64_some (by omega) (by omega), Option.bind_some, int64_some (by omega) (by omega),
    Option.bind_some, int64_some (by omega) (by omega), Option.bind_some,
    int64_some (by omega) (by omega), Option.bind_some, int64_some (by omega) (by omega), mul_comm]
  rfl

theorem datetimeOf_instant {ms : ℤ} (hms : ms / 1000 = t.instant) (hlow : 2000 ≤ t.date.year)
    (hhigh : t.date.year ≤ 2099) : datetimeOf ms = some t.datetime := by
  obtain ⟨hfrom, hto⟩ := dayNumber_range hlow hhigh
  have hsecond := t.second_lt
  have hminute := t.minute_lt
  have hhour := t.hour_lt
  have hday := t.date.day_lt
  have hmonth := t.date.month_le
  unfold CivilTime.instant at hms
  have hsecs : ms.tdiv 1000 = t.date.dayNumber * 86400 + t.hour * 3600 + t.minute * 60 + t.second :=
    (Int.tdiv_eq_ediv_of_nonneg (by omega)).trans hms
  have hdays : (ms.tdiv 1000).tdiv 86400 = t.date.dayNumber := by
    rw [hsecs, Int.tdiv_eq_ediv_of_nonneg (by omega)]
    omega
  have hsod : (ms.tdiv 1000).tmod 86400 = ((t.hour * 3600 + t.minute * 60 + t.second : ℕ) : ℤ) := by
    rw [hsecs, Int.tmod_eq_emod_of_nonneg (by omega)]
    omega
  have hyear : (BitVec.ofInt 32 t.date.year).toInt = t.date.year := by
    rw [BitVec.toInt_ofInt, Int.bmod_eq_of_le] <;> omega
  have hhours : ((t.hour * 3600 + t.minute * 60 + t.second : ℕ) : ℤ).tdiv 3600 = t.hour := by
    rw [Int.tdiv_eq_ediv_of_nonneg (by omega)]
    omega
  have hminutes : (((t.hour * 3600 + t.minute * 60 + t.second : ℕ) : ℤ).tdiv 60).tmod 60 =
      t.minute := by
    rw [Int.tdiv_eq_ediv_of_nonneg (by omega), Int.tmod_eq_emod_of_nonneg (by omega)]
    omega
  have hseconds : ((t.hour * 3600 + t.minute * 60 + t.second : ℕ) : ℤ).tmod 60 = t.second := by
    rw [Int.tmod_eq_emod_of_nonneg (by omega)]
    omega
  unfold datetimeOf
  simp only [hdays, hsod]
  rw [if_neg (by omega)]
  simp only [Option.bind_eq_bind, Option.bind_some,
    civilFromDays_dayNumber t.date (by omega) (by omega),
    wdayOf_dayNumber t.date (by omega) (by omega), hyear, hhours, hminutes, hseconds,
    BitVec.ofInt_natCast, BitVec.setWidth_ofNat_of_le (show 8 ≤ 32 by decide)]
  rfl

variable {bus : Pcf85063Bus σ} {block : σ → Vector Byte 7}

theorem getTime_held (hbus : Faithful bus block) {c : σ} (h : Holds (block c) t) :
    ∃ c', rtcPcf85063GetTime (some bus) c = some (.ok (1000 * t.instant), c') ∧
      block c' = block c := by
  obtain ⟨c', hread, hsame⟩ := hbus.read_block c
  have hyear := bcdValue_lt (block c)[6] (h.bcd 6)
  have hy := h.year
  refine ⟨c', ?_, hsame⟩
  simp only [rtcPcf85063GetTime, pcf85063ReadDatetime, hread, h.decode,
    unixMsOf_datetime (t := t) (by omega) (by omega), Option.map_some]

theorem setTime_instant (hbus : Faithful bus block) {ms : ℤ} (hms : ms / 1000 = t.instant)
    (hpos : 0 < ms) (hlow : 2000 ≤ t.date.year) (hhigh : t.date.year ≤ 2099) (c : σ) :
    ∃ c', rtcPcf85063SetTime (some bus) ms c = some (.ok (), c') ∧
      block c' = encodeTime t.datetime ∧ Holds (block c') t := by
  obtain ⟨c', hwrite, hblock⟩ := hbus.write_block (encodeTime t.datetime) c
  refine ⟨c', ?_, hblock, hblock ▸ holds_encodeTime hlow hhigh⟩
  have hpositive : ¬ms ≤ 0 := by omega
  simp only [rtcPcf85063SetTime, if_neg hpositive, datetimeOf_instant hms hlow hhigh,
    Option.map_some, pcf85063WriteDatetime, hwrite]

/-- Setting the time and reading it back. Whatever second is set is held by the
registers as it is written in the calendar, and whatever second they hold is
written back as it was. -/
theorem rtc_round_trip (bus : Pcf85063Bus σ) (block : σ → Vector Byte 7)
    (hbus : Faithful bus block) :
    (∀ (ms : ℤ) (c : σ), 946684800000 ≤ ms → ms < 4102444800000 →
      ∃ (t : CivilTime) (c' c'' : σ), t.instant = ms / 1000 ∧
        rtcPcf85063SetTime (some bus) ms c = some (.ok (), c') ∧ Holds (block c') t ∧
        (∀ i : Fin 7, (block c')[i] &&& timeMasks[i] = (block c')[i]) ∧
        rtcPcf85063GetTime (some bus) c' = some (.ok (1000 * (ms / 1000)), c'')) ∧
    ∀ (t : CivilTime) (c : σ), Holds (block c) t →
      ∃ c' c'' : σ, rtcPcf85063GetTime (some bus) c = some (.ok (1000 * t.instant), c') ∧
        rtcPcf85063SetTime (some bus) (1000 * t.instant) c' = some (.ok (), c'') ∧
        block c'' = block c := by
  constructor
  · intro ms c hfrom hto
    obtain ⟨t, ht⟩ := exists_civilTime (ms / 1000)
    have hday : 10957 ≤ t.date.dayNumber ∧ t.date.dayNumber < 47482 := by
      have hsecond := t.second_lt
      have hminute := t.minute_lt
      have hhour := t.hour_lt
      unfold CivilTime.instant at ht
      omega
    obtain ⟨hlow, hhigh⟩ := year_range hday.1 hday.2
    obtain ⟨c', hset, hblock, hheld⟩ := setTime_instant hbus ht.symm (by omega) hlow hhigh c
    obtain ⟨c'', hget, -⟩ := getTime_held hbus hheld
    exact ⟨t, c', c'', ht, hset, hheld, hheld.masks, ht ▸ hget⟩
  · intro t c hheld
    obtain ⟨c', hget, hsame⟩ := getTime_held hbus hheld
    have hyear := bcdValue_lt (block c)[6] (hheld.bcd 6)
    have hy := hheld.year
    have hlow : 2000 ≤ t.date.year := by omega
    have hfrom := (dayNumber_range hlow (by omega)).1
    have hpos : 0 < t.instant := by
      unfold CivilTime.instant
      omega
    have hms : 1000 * t.instant / 1000 = t.instant := by omega
    obtain ⟨c'', hset, hblock, -⟩ := setTime_instant hbus hms (by omega) hlow (by omega) c'
    exact ⟨c', c'', hget, hset, hblock.trans hheld.encode⟩

def memoryBus : Pcf85063Bus (Byte → Byte) where
  read reg len c := (.ok (Vector.ofFn fun i : Fin len => c (reg + BitVec.ofNat 8 i)), c)
  write reg len buf c := (.ok (), fun a =>
    if h : (a - reg).toNat < len then buf[(a - reg).toNat] else c a)

def memoryBlock (c : Byte → Byte) : Vector Byte 7 :=
  Vector.ofFn fun i : Fin 7 => c (pcf85063RegSeconds + BitVec.ofNat 8 i)

theorem memoryBus_faithful : Faithful memoryBus memoryBlock where
  read_block c := ⟨c, rfl, rfl⟩
  write_block reg c := by
    refine ⟨_, rfl, ?_⟩
    ext i hi
    interval_cases i <;> rfl

theorem afternoon_kept : ∃ (t : CivilTime) (c' c'' : Byte → Byte), t.instant = 1790598896 ∧
    rtcPcf85063SetTime (some memoryBus) 1790598896789 (fun _ => 0x80#8) = some (.ok (), c') ∧
    Holds (memoryBlock c') t ∧ (∀ i : Fin 7,
      (memoryBlock c')[i] &&& timeMasks[i] = (memoryBlock c')[i]) ∧
    rtcPcf85063GetTime (some memoryBus) c' = some (.ok 1790598896000, c'') :=
  (rtc_round_trip memoryBus memoryBlock memoryBus_faithful).1 1790598896789 (fun _ => 0x80#8)
    (by decide) (by decide)

end RelayBoard
