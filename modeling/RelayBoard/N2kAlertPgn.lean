import Mathlib.Tactic.IntervalCases
import RelayBoard.Lib.LittleEndian
import RelayBoard.Text

/-!
# Alert payloads

`n2k_alert_pgn.c`, less the text PGN. The three alert PGNs start with the same
header of 16 bytes, which names the alert and the device it comes from.
-/

set_option autoImplicit false

namespace RelayBoard
open Lib.LittleEndian

abbrev IsoName := BitVec 64

/-- The header every alert PGN starts with: which alert, from which device. -/
structure AlertId where
  type : Byte
  category : Byte
  system : Byte
  subsystem : Byte
  id : BitVec 16
  sourceName : IsoName
  inst : Byte
  index : Byte
  occurrence : Byte
  deriving DecidableEq, Repr

structure Alert where
  id : AlertId
  silenced : Bool
  acknowledged : Bool
  escalated : Bool
  silenceSupported : Bool
  ackSupported : Bool
  escalationSupported : Bool
  ackName : IsoName
  trigger : Byte
  threshold : Byte
  priority : Byte
  state : Byte
  deriving DecidableEq, Repr

structure AlertResponse where
  id : AlertId
  ackName : IsoName
  command : Byte
  deriving DecidableEq, Repr

/-- canboat's `ALERT_TYPE`, `ALERT_STATE` and so on, as far as they are used. -/
def alertTypeEmergency : Byte := 1
def alertTypeAlarm : Byte := 2
def alertTypeWarning : Byte := 5
def alertCategoryTechnical : Byte := 1
def alertTriggerAuto : Byte := 1
def alertThresholdNormal : Byte := 0
def alertThresholdExceeded : Byte := 1
def alertStateNormal : Byte := 1
def alertStateActive : Byte := 2
def alertStateAcknowledged : Byte := 4
def alertResponseAcknowledge : Byte := 0

/-- ISO NAME "not available". -/
def alertNameNone : IsoName := 0xffffffffffffffff#64

def alertResponseLen : ℕ := 25

def byteAt (p : List Byte) (i : ℕ) : Byte := p.getD i 0

def encodeHeader (id : AlertId) : List Byte :=
  [(id.type &&& 0x0f#8) ||| (id.category <<< 4), id.system, id.subsystem] ++ put 2 id.id ++
    put 8 id.sourceName ++ [id.inst, id.index, id.occurrence]

def decodeHeader (p : List Byte) : AlertId where
  type := byteAt p 0 &&& 0x0f#8
  category := byteAt p 0 >>> 4
  system := byteAt p 1
  subsystem := byteAt p 2
  id := (byteAt p 3).setWidth 16 ||| ((byteAt p 4).setWidth 16 <<< 8)
  sourceName := get 64 ((p.drop 5).take 8)
  inst := byteAt p 13
  index := byteAt p 14
  occurrence := byteAt p 15

def flagBits (a : Alert) : Byte :=
  (if a.silenced then 0x01#8 else 0) ||| (if a.acknowledged then 0x02#8 else 0) |||
    (if a.escalated then 0x04#8 else 0) ||| (if a.silenceSupported then 0x08#8 else 0) |||
    (if a.ackSupported then 0x10#8 else 0) ||| (if a.escalationSupported then 0x20#8 else 0) |||
    0xc0#8

/-- `n2k_alert_encode`, 28 bytes. -/
def n2kAlertEncode (a : Alert) : List Byte :=
  encodeHeader a.id ++ [flagBits a] ++ put 8 a.ackName ++
    [(a.trigger &&& 0x0f#8) ||| (a.threshold <<< 4), a.priority, a.state]

/-- `n2k_alert_decode_response`: none when the payload is too short. -/
def n2kAlertDecodeResponse (data : List Byte) : Option AlertResponse :=
  if data.length < alertResponseLen then none
  else some ⟨decodeHeader data, get 64 ((data.drop 16).take 8), byteAt data 24 &&& 0x03#8⟩

theorem length_encodeHeader (id : AlertId) : (encodeHeader id).length = 16 := by
  simp [encodeHeader]

theorem take_n2kAlertEncode (a : Alert) : (n2kAlertEncode a).take 16 = encodeHeader a.id := by
  rw [n2kAlertEncode, List.append_assoc, List.append_assoc]
  exact List.take_left' (length_encodeHeader a.id)

theorem byteAt_append (p q : List Byte) {i : ℕ} (h : i < p.length) :
    byteAt (p ++ q) i = byteAt p i := by
  simp [byteAt, List.getD_eq_getElem?_getD, List.getElem?_append_left h]

theorem decodeHeader_append (p q : List Byte) (h : p.length = 16) :
    decodeHeader (p ++ q) = decodeHeader p := by
  have hdrop : ((p ++ q).drop 5).take 8 = (p.drop 5).take 8 := by
    rw [List.drop_append_of_le_length (by omega), List.take_append_of_le_length (by simp [h])]
  unfold decodeHeader
  rw [hdrop]
  simp only [byteAt_append p q (show 0 < p.length by omega),
    byteAt_append p q (show 1 < p.length by omega), byteAt_append p q (show 2 < p.length by omega),
    byteAt_append p q (show 3 < p.length by omega), byteAt_append p q (show 4 < p.length by omega),
    byteAt_append p q (show 13 < p.length by omega),
    byteAt_append p q (show 14 < p.length by omega),
    byteAt_append p q (show 15 < p.length by omega)]

theorem nibbles_low (a b : Byte) : ((a &&& 0x0f#8) ||| (b <<< 4)) &&& 0x0f#8 = a &&& 0x0f#8 := by
  apply BitVec.eq_of_getLsbD_eq
  intro i hi
  interval_cases i <;> simp

theorem nibbles_high (a b : Byte) : ((a &&& 0x0f#8) ||| (b <<< 4)) >>> 4 = b &&& 0x0f#8 := by
  apply BitVec.eq_of_getLsbD_eq
  intro i hi
  interval_cases i <;> simp

theorem halves (v : BitVec 16) : ((v >>> 0).setWidth 8).setWidth 16 |||
    (((v >>> 8).setWidth 8).setWidth 16 <<< 8) = v := by
  apply BitVec.eq_of_getLsbD_eq
  intro i hi
  interval_cases i <;> simp

/-- What comes back of a header: all of it but the high halves of the two
fields that share a byte. -/
theorem decode_encodeHeader (id : AlertId) : decodeHeader (encodeHeader id) =
    { id with type := id.type &&& 0x0f#8, category := id.category &&& 0x0f#8 } := by
  have hname : get 64 (((encodeHeader id).drop 5).take 8) = id.sourceName :=
    get_put 8 (by decide) id.sourceName
  unfold decodeHeader
  rw [hname]
  rw [AlertId.mk.injEq]
  exact ⟨nibbles_low id.type id.category, nibbles_high id.type id.category, rfl, rfl,
    halves id.id, rfl, rfl, rfl, rfl⟩

end RelayBoard
