import Mathlib.Data.BitVec
import Mathlib.Data.List.TakeWhile
import RelayBoard.Lib.Json

/-!
# Text

Strings as the firmware handles them: bytes before a terminating zero, in
buffers of fixed size that `snprintf` fills as far as they go. The members of a
JSON object are found by such strings.
-/

set_option autoImplicit false

namespace RelayBoard

abbrev Byte := BitVec 8

def ascii (s : String) : List Byte := s.toList.map fun c => BitVec.ofNat 8 c.toNat

/-- A text up to its first zero byte. -/
def cText (text : List Byte) : List Byte := text.takeWhile (· ≠ 0#8)

theorem zero_notMem_cText (text : List Byte) : 0#8 ∉ cText text := by
  intro hmem
  have hne := List.mem_takeWhile_imp hmem
  simp at hne

/-- `cJSON_GetObjectItemCaseSensitive` on what `cJSON_Parse` returned. -/
def objectItem (root : Option Lib.Json.Value) (name : List Byte) : Option Lib.Json.Value :=
  match root with
  | some (.object members) => (members.find? fun m => cText m.1 = name).map Prod.snd
  | _ => none

/-- The text in a `char[max + 1]`. -/
structure CStr (max : ℕ) where
  bytes : List Byte
  fits : bytes.length ≤ max
  noNul : 0#8 ∉ bytes
  deriving DecidableEq

/-- The text up to its first zero byte, cut to `max` bytes. -/
def CStr.cut (max : ℕ) (text : List Byte) : CStr max where
  bytes := (text.takeWhile fun c => c ≠ 0#8).take max
  fits := List.length_take_le max _
  noNul := fun h => by simpa using List.mem_takeWhile_imp (List.mem_of_mem_take h)

def CStr.empty (max : ℕ) : CStr max := CStr.cut max []

/-- What `snprintf` leaves of a text in a buffer of `size` bytes. -/
def snprintf (size : ℕ) (text : List Byte) : List Byte := text.take (size - 1)

/-- The conversion `%u`. -/
def decimal (n : ℕ) : List Byte := (Nat.toDigits 10 n).map fun c => BitVec.ofNat 8 c.toNat

def hexDigit (v : BitVec 4) : Byte :=
  if v < 10#4 then 0x30#8 + v.setWidth 8 else 0x57#8 + v.setWidth 8

/-- One character of `json_escape`: a backslash before quotes and backslashes,
`\u%04x` for control characters. -/
def escaped (c : Byte) : List Byte :=
  if c = 0x22#8 ∨ c = 0x5c#8 then [0x5c#8, c]
  else if c < 0x20#8 then
    ascii "\\u00" ++ [hexDigit (c.extractLsb' 4 4), hexDigit (c.extractLsb' 0 4)]
  else [c]

/-- The loop of `json_escape` with `n` bytes written; it stops where a further
character might not fit in `size` bytes. -/
def jsonEscapeFrom (size : ℕ) : ℕ → List Byte → List Byte
  | _, [] => []
  | n, c :: rest =>
    if n + 7 < size then escaped c ++ jsonEscapeFrom size (n + (escaped c).length) rest else []

def jsonEscape (size : ℕ) (text : List Byte) : List Byte := jsonEscapeFrom size 0 text

example : jsonEscape 80 (ascii "a\"b\n") = ascii "a\\\"b\\u000a" := by decide

end RelayBoard
