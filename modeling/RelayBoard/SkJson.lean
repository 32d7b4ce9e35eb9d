import RelayBoard.Lib.Json
import RelayBoard.Lib.Memory
import RelayBoard.SkPublisher

/-!
# The JSON of the SignalK bridge

How `sk_bridge.c` puts its JSON texts together in arrays of fixed size, and
what a reader makes of them. A write past the end of an array has no result.
-/

set_option autoImplicit false

namespace RelayBoard
open Lib Lib.Memory Lib.Scanning

/-- `out[i] = c` in an array of `size` bytes. -/
def storeAt (size : ℕ) (out : ℕ → Byte) (i : ℕ) (c : Byte) : Option (ℕ → Byte) :=
  if i < size then some (Function.update out i c) else none

/-- `snprintf(out + n, room, ...)` in an array of `size` bytes: what it returns
and the array. -/
def snprintfAt (size : ℕ) (out : ℕ → Byte) (n room : ℕ) (text : List Byte) :
    Option (ℕ × (ℕ → Byte)) :=
  if room = 0 then some (text.length, out)
  else if n + (snprintf room text).length < size then
    some (text.length, storeAll out n (snprintf room text ++ [0#8]))
  else none

/-- `\u%04x` of a byte. -/
def unicodeEscape (c : Byte) : List Byte :=
  ascii "\\u00" ++ [hexDigit (c.extractLsb' 4 4), hexDigit (c.extractLsb' 0 4)]

def jsonEscapeLoop (size : ℕ) : List Byte → ℕ → (ℕ → Byte) → Option (ℕ × (ℕ → Byte))
  | [], _, _ => none
  | c :: rest, n, out =>
    if c ≠ 0#8 ∧ n + 7 < size then
      if c = 0x22#8 ∨ c = 0x5c#8 then do
        let out ← storeAt size out n 0x5c#8
        let out ← storeAt size out (n + 1) c
        jsonEscapeLoop size rest (n + 2) out
      else if c < 0x20#8 then do
        let (k, out) ← snprintfAt size out n (size - n) (unicodeEscape c)
        jsonEscapeLoop size rest (n + k) out
      else do
        let out ← storeAt size out n c
        jsonEscapeLoop size rest (n + 1) out
    else some (n, out)

/-- `json_escape` from the pointer `text`. -/
def jsonEscapeInto (out : ℕ → Byte) (size : ℕ) (text : List Byte) : Option (ℕ → Byte) := do
  let (n, out) ← jsonEscapeLoop size text 0 out
  storeAt size out n 0#8

/-- The string in an array of `size` bytes; one without a zero runs past it. -/
def stringIn (size : ℕ) (buf : ℕ → Byte) : Option (List Byte) :=
  let cells := slice buf 0 size
  if cells.any fun c => c = 0#8 then some (cells.takeWhile fun c => c ≠ 0#8) else none

def nameMetaText (escapedName : List Byte) : List Byte :=
  ascii "\x7b\"displayName\":\"" ++ escapedName ++
    ascii ("\",\"manufacturer\":\x7b\"name\":\"Waveshare\"," ++
      "\"model\":\"ESP32-S3-ETH-8DI-8RO-C\"\x7d\x7d")

def raisedText (state escapedMsg : List Byte) : List Byte :=
  ascii "\x7b\"state\":\"" ++ state ++
    ascii "\",\"method\":[\"visual\",\"sound\"],\"message\":\"" ++ escapedMsg ++ ascii "\"\x7d"

def clearedText : List Byte := ascii "\x7b\"state\":\"normal\",\"method\":[],\"message\":\"\"\x7d"

/-- The metadata in `declare_names`: what its `snprintf` returns, and the text
that is handed over. -/
def nameMetaInto (nameBuf metaBuf : ℕ → Byte) (name : List Byte) : Option (ℕ × List Byte) := do
  let nameBuf ← jsonEscapeInto nameBuf (2 * nameMax + 8) (terminated name)
  let (n, metaBuf) ←
    snprintfAt 160 metaBuf 0 160 (nameMetaText (← stringIn (2 * nameMax + 8) nameBuf))
  return (n, ← stringIn 160 metaBuf)

def alarmText (input : InputCfg) : List Byte :=
  if input.alarmMsg.bytes ≠ [] then input.alarmMsg.bytes else input.name.bytes ++ ascii " active"

/-- `publish_notification`: the returns of its calls of `snprintf`, and the
text that is handed over. -/
def notificationInto (raw msg json : ℕ → Byte) (input : InputCfg) (active : Bool) :
    Option (List ℕ × List Byte) :=
  if active then do
    let (k, raw) ← snprintfAt (nameMax + 16) raw 0 (nameMax + 16) (alarmText input)
    let msg ← jsonEscapeInto msg (2 * nameMax + 16) (terminated (← stringIn (nameMax + 16) raw))
    let (n, json) ← snprintfAt (2 * nameMax + 96) json 0 (2 * nameMax + 96)
      (raisedText input.alarm.stateStr (← stringIn (2 * nameMax + 16) msg))
    return ([k, n], ← stringIn (2 * nameMax + 96) json)
  else do
    let (n, json) ← snprintfAt (2 * nameMax + 96) json 0 (2 * nameMax + 96) clearedText
    return ([n], ← stringIn (2 * nameMax + 96) json)

theorem escaped_length (c : Byte) : 1 ≤ (escaped c).length ∧ (escaped c).length ≤ 6 := by
  unfold escaped
  split_ifs
  · simp
  · simp [ascii]
  · simp

theorem hexDigit_ne_zero (v : BitVec 4) : hexDigit v ≠ 0#8 := by
  revert v
  decide +kernel

theorem escaped_noNul {c : Byte} (hc : c ≠ 0#8) : 0#8 ∉ escaped c := by
  unfold escaped
  split_ifs
  · simp [hc.symm]
  · have hi := (hexDigit_ne_zero (c.extractLsb' 4 4)).symm
    have lo := (hexDigit_ne_zero (c.extractLsb' 0 4)).symm
    simp [ascii, hi, lo]
  · simp [hc.symm]

theorem unicodeEscape_length (c : Byte) : (unicodeEscape c).length = 6 := rfl

theorem storeAll_cover (out : ℕ → Byte) (n : ℕ) (front rest : List Byte) :
    storeAll (storeAll out n (front ++ [0#8])) (n + front.length) (rest ++ [0#8]) =
      storeAll out n (front ++ rest ++ [0#8]) := by
  have hzero : storeAll out n (front ++ [0#8]) =
      Function.update (storeAll out n front) (n + front.length) 0#8 := storeAll_append [0#8]
  have hrest : storeAll out n (front ++ rest ++ [0#8]) =
      storeAll (storeAll out n front) (n + front.length) (rest ++ [0#8]) := by
    rw [List.append_assoc, storeAll_append]
  rw [hzero, hrest]
  cases rest with
  | nil => rw [List.nil_append, storeAll, storeAll, storeAll, storeAll, Function.update_idem]
  | cons c rest => rw [List.cons_append, storeAll, storeAll, Function.update_idem]

/-- The loop of `json_escape` leaves the escapes of a part from the start, with
room for the zero after them. -/
theorem jsonEscapeLoop_terminated {size : ℕ} (text : List Byte) (h : 0#8 ∉ text) (n : ℕ)
    (hn : n < size) (out : ℕ → Byte) : ∃ out',
      jsonEscapeLoop size (terminated text) n out =
        some (n + (jsonEscapeFrom size n text).length, out') ∧
      Function.update out' (n + (jsonEscapeFrom size n text).length) 0#8 =
        storeAll out n (jsonEscapeFrom size n text ++ [0#8]) ∧
      n + (jsonEscapeFrom size n text).length < size := by
  induction text generalizing n out with
  | nil =>
    refine ⟨out, ?_, rfl, hn⟩
    rw [terminated, List.nil_append, jsonEscapeLoop, if_neg (by simp)]
    rfl
  | cons c text ih =>
    have hc : c ≠ 0#8 := fun hc => h (by simp [hc])
    have htext : 0#8 ∉ text := fun hz => h (List.mem_cons_of_mem c hz)
    rw [terminated_cons, jsonEscapeLoop, jsonEscapeFrom]
    by_cases hroom : n + 7 < size
    · rw [if_pos ⟨hc, hroom⟩, if_pos hroom, List.length_append, ← Nat.add_assoc]
      by_cases hquote : c = 0x22#8 ∨ c = 0x5c#8
      · have hesc : escaped c = [0x5c#8, c] := if_pos hquote
        rw [if_pos hquote, hesc]
        simp only [storeAt, if_pos (show n < size by omega), if_pos (show n + 1 < size by omega),
          Option.bind_eq_bind, Option.bind_some, List.length_cons, List.length_nil]
        exact ih htext (n + 2) (by omega) _
      rw [if_neg hquote]
      by_cases hcontrol : c < 0x20#8
      · have hesc : escaped c = unicodeEscape c := by
          rw [escaped, if_neg hquote, if_pos hcontrol]
          rfl
        have hwhole : snprintf (size - n) (unicodeEscape c) = unicodeEscape c :=
          List.take_of_length_le (by rw [unicodeEscape_length]; omega)
        have hlen := unicodeEscape_length c
        obtain ⟨out', hloop, hend, hlt⟩ := ih htext (n + 6) (by omega)
          (storeAll out n (unicodeEscape c ++ [0#8]))
        rw [if_pos hcontrol, hesc, hlen]
        refine ⟨out', ?_, ?_, hlt⟩
        · simp only [snprintfAt, hwhole, hlen, if_neg (show ¬size - n = 0 by omega),
            if_pos (show n + 6 < size by omega), Option.bind_eq_bind, Option.bind_some]
          exact hloop
        · rw [hend, ← storeAll_cover out n (unicodeEscape c), hlen]
      · have hesc : escaped c = [c] := by rw [escaped, if_neg hquote, if_neg hcontrol]
        rw [if_neg hcontrol, hesc]
        simp only [storeAt, if_pos (show n < size by omega), Option.bind_eq_bind,
          Option.bind_some, List.length_cons, List.length_nil]
        exact ih htext (n + 1) (by omega) _
    · rw [if_neg (fun hand => hroom hand.2), if_neg hroom]
      exact ⟨out, rfl, rfl, hn⟩

/-- `json_escape` stays within its array and ends what it writes with a zero. -/
theorem jsonEscapeInto_terminated {size : ℕ} (hsize : 0 < size) (text : List Byte)
    (h : 0#8 ∉ text) (out : ℕ → Byte) :
    jsonEscapeInto out size (terminated text) =
        some (storeAll out 0 (jsonEscape size text ++ [0#8])) ∧
      (jsonEscape size text).length < size := by
  obtain ⟨out', hloop, hend, hlt⟩ := jsonEscapeLoop_terminated text h 0 hsize out
  rw [Nat.zero_add] at hloop hend hlt
  refine ⟨?_, hlt⟩
  simp only [jsonEscapeInto, hloop, Option.bind_eq_bind, Option.bind_some, storeAt, if_pos hlt,
    hend]
  rfl

theorem noNul_jsonEscapeFrom (size : ℕ) (text : List Byte) (h : 0#8 ∉ text) (n : ℕ) :
    0#8 ∉ jsonEscapeFrom size n text := by
  induction text generalizing n with
  | nil => exact List.not_mem_nil
  | cons c text ih =>
    have hc : c ≠ 0#8 := fun hc => h (by simp [hc])
    rw [jsonEscapeFrom]
    split_ifs
    · rw [List.mem_append, not_or]
      exact ⟨escaped_noNul hc, ih (fun hz => h (List.mem_cons_of_mem c hz)) _⟩
    · exact List.not_mem_nil

theorem stringIn_storeAll {size : ℕ} (out : ℕ → Byte) (text : List Byte) (h : 0#8 ∉ text)
    (hlen : text.length < size) :
    stringIn size (storeAll out 0 (text ++ [0#8])) = some text := by
  obtain ⟨rest, hrest⟩ := Nat.exists_eq_add_of_le (show text.length + 1 ≤ size from hlen)
  have hcells : slice (storeAll out 0 (text ++ [0#8])) 0 size =
      text ++ 0#8 :: slice (storeAll out 0 (text ++ [0#8])) (0 + (text.length + 1)) rest := by
    have hfront := @slice_storeAll _ out 0 (text ++ [0#8])
    rw [List.length_append, List.length_singleton] at hfront
    rw [hrest, slice_append, hfront, List.append_assoc, List.singleton_append]
  have htake : ∀ c ∈ text, decide (c ≠ 0#8) = true := fun c hc =>
    decide_eq_true fun hz => h (hz ▸ hc)
  simp only [stringIn, hcells, List.any_append, List.any_cons, decide_true, Bool.true_or,
    Bool.or_true, if_true]
  rw [List.takeWhile_append_of_pos htake, List.takeWhile_cons_of_neg (by simp), List.append_nil]

/-- An `snprintf` with room for all of its text. -/
theorem snprintfAt_fits {size : ℕ} (out : ℕ → Byte) (text : List Byte) (hlen : text.length < size) :
    snprintfAt size out 0 size text = some (text.length, storeAll out 0 (text ++ [0#8])) := by
  have hwhole : snprintf size text = text := List.take_of_length_le (by omega)
  rw [snprintfAt, hwhole, if_neg (by omega), Nat.zero_add, if_pos hlen]

/-- What is escaped is a part from the start, all of it where there is room. -/
theorem jsonEscapeFrom_front (size : ℕ) (text : List Byte) (n : ℕ) :
    ∃ front, front <+: text ∧ jsonEscapeFrom size n text = front.flatMap escaped ∧
      (n + (text.flatMap escaped).length + 6 < size → front = text) := by
  induction text generalizing n with
  | nil => exact ⟨[], List.prefix_refl [], rfl, fun _ => rfl⟩
  | cons c text ih =>
    have hlen := (escaped_length c).1
    rw [jsonEscapeFrom]
    by_cases hroom : n + 7 < size
    · obtain ⟨front, hfront, hesc, hall⟩ := ih (n + (escaped c).length)
      refine ⟨c :: front, List.prefix_cons_inj c |>.mpr hfront, ?_, fun hsize => ?_⟩
      · rw [if_pos hroom, hesc, List.flatMap_cons]
      · rw [List.flatMap_cons, List.length_append] at hsize
        rw [hall (by omega)]
    · refine ⟨[], List.nil_prefix, if_neg hroom, fun hsize => absurd ?_ hroom⟩
      rw [List.flatMap_cons, List.length_append] at hsize
      omega

theorem unicodeEscape_unit : ∀ n < 0x20, Json.hexUnit 0x30#8 0x30#8
    (hexDigit ((BitVec.ofNat 8 n).extractLsb' 4 4))
    (hexDigit ((BitVec.ofNat 8 n).extractLsb' 0 4)) =
      some n := by
  decide +kernel

/-- What `json_escape` makes of a text is read as that text. -/
theorem spelt_escaped (text : List Byte) : Json.Spelt text (text.flatMap escaped) := by
  induction text with
  | nil => exact .nil
  | cons c text ih =>
    rw [List.flatMap_cons, escaped]
    by_cases hquote : c = 0x22#8 ∨ c = 0x5c#8
    · rw [if_pos hquote]
      refine .short ?_ ih
      rcases hquote with rfl | rfl <;> rfl
    rw [if_neg hquote]
    by_cases hcontrol : c < 0x20#8
    · have hlt : c.toNat < 0x20 := BitVec.lt_def.mp hcontrol
      have hunit := unicodeEscape_unit c.toNat hlt
      rw [BitVec.ofNat_toNat, BitVec.setWidth_eq] at hunit
      have hchar : Characters.utf8Char (Char.ofNat c.toNat) = [c] := by
        have hnum := Characters.toNat_ofNat (n := c.toNat) (Or.inl (by omega))
        rw [Characters.utf8Char_one (by omega), hnum, BitVec.ofNat_toNat, BitVec.setWidth_eq]
      have hspelt := Json.Spelt.unit hunit (Or.inl (by omega)) ih
      rw [hchar] at hspelt
      rw [if_pos hcontrol]
      exact hspelt
    · rw [if_neg hcontrol]
      exact .plain (BitVec.not_lt.mp hcontrol) (fun hc => hquote (Or.inl hc))
        (fun hc => hquote (Or.inr hc)) ih

theorem spelt_plain (text : List Byte)
    (h : ∀ c ∈ text, 0x20#8 ≤ c ∧ c ≠ 0x22#8 ∧ c ≠ 0x5c#8) : Json.Spelt text text := by
  induction text with
  | nil => exact .nil
  | cons c text ih =>
    obtain ⟨hc, hquote, hslash⟩ := h c (List.mem_cons_self ..)
    exact .plain hc hquote hslash (ih fun d hd => h d (List.mem_cons_of_mem c hd))

def nameDoc (name : List Byte) : Json.Value :=
  .object [(ascii "displayName", .string name),
    (ascii "manufacturer", .object [(ascii "name", .string (ascii "Waveshare")),
      (ascii "model", .string (ascii "ESP32-S3-ETH-8DI-8RO-C"))])]

def notificationDoc (state : List Byte) (method : List (List Byte)) (message : List Byte) :
    Json.Value :=
  .object [(ascii "state", .string state), (ascii "method", .array (method.map .string)),
    (ascii "message", .string message)]

theorem reads_plain (text : List Byte) (h : ∀ c ∈ text, 0x20#8 ≤ c ∧ c ≠ 0x22#8 ∧ c ≠ 0x5c#8) :
    Json.Reads 1 (Json.quoted text) (.string text) :=
  Json.reads_string (spelt_plain text h)

theorem member_plain {k : ℕ} (key : List Byte)
    (h : ∀ c ∈ key, 0x20#8 ≤ c ∧ c ≠ 0x22#8 ∧ c ≠ 0x5c#8) {bytes : List Byte} {v : Json.Value}
    (hv : Json.Reads k bytes v) : Json.ReadsMember k (Json.memberText key bytes) (key, v) :=
  .member (spelt_plain key h) hv

theorem nameMetaText_eq (body : List Byte) : nameMetaText body = Json.objectText
    [Json.memberText (ascii "displayName") (Json.quoted body),
      Json.memberText (ascii "manufacturer") (Json.objectText
        [Json.memberText (ascii "name") (Json.quoted (ascii "Waveshare")),
          Json.memberText (ascii "model") (Json.quoted (ascii "ESP32-S3-ETH-8DI-8RO-C"))])] := by
  have hfront : ascii "\x7b\"displayName\":\"" =
      0x7b#8 :: 0x22#8 :: (ascii "displayName" ++ [0x22#8, 0x3a#8, 0x22#8]) := by
    decide +kernel
  have hback : ascii ("\",\"manufacturer\":\x7b\"name\":\"Waveshare\"," ++
      "\"model\":\"ESP32-S3-ETH-8DI-8RO-C\"\x7d\x7d") =
      0x22#8 :: 0x2c#8 :: (Json.memberText (ascii "manufacturer") (Json.objectText
        [Json.memberText (ascii "name") (Json.quoted (ascii "Waveshare")),
          Json.memberText (ascii "model") (Json.quoted (ascii "ESP32-S3-ETH-8DI-8RO-C"))]) ++
        [0x7d#8]) := by
    decide +kernel
  rw [nameMetaText, hfront, hback]
  simp only [Json.objectText, Json.joined, Json.memberText, Json.quoted, List.append_assoc,
    List.cons_append, List.nil_append]

theorem raisedText_eq (state body : List Byte) : raisedText state body = Json.objectText
    [Json.memberText (ascii "state") (Json.quoted state),
      Json.memberText (ascii "method")
        (Json.arrayText [Json.quoted (ascii "visual"), Json.quoted (ascii "sound")]),
      Json.memberText (ascii "message") (Json.quoted body)] := by
  have hfront : ascii "\x7b\"state\":\"" =
      0x7b#8 :: 0x22#8 :: (ascii "state" ++ [0x22#8, 0x3a#8, 0x22#8]) := by
    decide +kernel
  have hmiddle : ascii "\",\"method\":[\"visual\",\"sound\"],\"message\":\"" =
      0x22#8 :: 0x2c#8 :: (Json.memberText (ascii "method")
        (Json.arrayText [Json.quoted (ascii "visual"), Json.quoted (ascii "sound")]) ++
        0x2c#8 :: 0x22#8 :: (ascii "message" ++ [0x22#8, 0x3a#8, 0x22#8])) := by
    decide +kernel
  have hback : ascii "\"\x7d" = [0x22#8, 0x7d#8] := by decide +kernel
  rw [raisedText, hfront, hmiddle, hback]
  simp only [Json.objectText, Json.arrayText, Json.joined, Json.memberText, Json.quoted,
    List.append_assoc, List.cons_append, List.nil_append]

theorem clearedText_eq : clearedText = Json.objectText
    [Json.memberText (ascii "state") (Json.quoted (ascii "normal")),
      Json.memberText (ascii "method") (Json.arrayText []),
      Json.memberText (ascii "message") (Json.quoted [])] := by
  decide +kernel

theorem nameMetaText_reads {name body : List Byte} (h : Json.Spelt name body) :
    Json.Reads 4 (nameMetaText body) (nameDoc name) := by
  have hmanufacturer := @Json.reads_object 2 _ _
    (.cons (member_plain (ascii "name") (by simp [ascii])
      ((reads_plain (ascii "Waveshare") (by simp [ascii])).mono (by decide)))
      (.cons (member_plain (ascii "model") (by simp [ascii])
        ((reads_plain (ascii "ESP32-S3-ETH-8DI-8RO-C") (by simp [ascii])).mono (by decide)))
        .nil))
    le_rfl
  have hdoc := @Json.reads_object 3 _ _
    (.cons (member_plain (ascii "displayName") (by simp [ascii])
      ((Json.reads_string h).mono (by decide)))
      (.cons (member_plain (ascii "manufacturer") (by simp [ascii]) hmanufacturer) .nil))
    (show 2 ≤ 3 by decide)
  rw [nameMetaText_eq]
  exact hdoc

theorem stateStr_plain (severity : InputAlarm) :
    (∀ c ∈ severity.stateStr, 0x20#8 ≤ c ∧ c ≠ 0x22#8 ∧ c ≠ 0x5c#8) ∧
      0#8 ∉ severity.stateStr ∧ severity.stateStr.length ≤ 9 := by
  cases severity
  all_goals exact ⟨by decide, by decide, by decide⟩

theorem raisedText_reads {message body : List Byte} (h : Json.Spelt message body)
    (severity : InputAlarm) : Json.Reads 4 (raisedText severity.stateStr body)
      (notificationDoc severity.stateStr [ascii "visual", ascii "sound"] message) := by
  have hmethod := @Json.reads_array 2 _ _
    (.cons ((reads_plain (ascii "visual") (by simp [ascii])).mono (by decide))
      (.cons ((reads_plain (ascii "sound") (by simp [ascii])).mono (by decide)) .nil)) le_rfl
  have hdoc := @Json.reads_object 3 _ _
    (.cons (member_plain (ascii "state") (by simp [ascii])
      ((reads_plain severity.stateStr (stateStr_plain severity).1).mono (by decide)))
      (.cons (member_plain (ascii "method") (by simp [ascii]) hmethod)
        (.cons (member_plain (ascii "message") (by simp [ascii])
          ((Json.reads_string h).mono (by decide))) .nil)))
    le_rfl
  rw [raisedText_eq]
  exact hdoc

theorem clearedText_reads : Json.Reads 4 clearedText (notificationDoc (ascii "normal") [] []) := by
  have hdoc := @Json.reads_object 3 _ _
    (.cons (member_plain (ascii "state") (by simp [ascii])
      ((reads_plain (ascii "normal") (by simp [ascii])).mono (by decide)))
      (.cons (member_plain (ascii "method") (by simp [ascii])
        ((@Json.reads_array 0 _ _ .nil le_rfl).mono (by decide)))
        (.cons (member_plain (ascii "message") (by simp [ascii])
          ((reads_plain [] (by simp)).mono (by decide))) .nil)))
    le_rfl
  rw [clearedText_eq]
  exact hdoc

/-- A JSON text for a configured one, or for the part of it from the start that
had room where it has control characters. -/
def Conveys (json : List Byte) (doc : List Byte → Json.Value) (text : List Byte) : Prop :=
  ∃ front, Json.parse json = some (doc front) ∧ front <+: text ∧
    ((∀ c ∈ text, 0x20#8 ≤ c) → front = text)

theorem escaped_short {c : Byte} (hc : 0x20#8 ≤ c) : (escaped c).length ≤ 2 := by
  rw [escaped, if_neg (BitVec.not_lt.mpr hc)]
  split_ifs <;> simp

theorem flatMap_escaped_short (text : List Byte) (h : ∀ c ∈ text, 0x20#8 ≤ c) :
    (text.flatMap escaped).length ≤ 2 * text.length := by
  induction text with
  | nil => rfl
  | cons c text ih =>
    have hc := escaped_short (h c (List.mem_cons_self ..))
    have htext := ih fun d hd => h d (List.mem_cons_of_mem c hd)
    rw [List.flatMap_cons, List.length_append, List.length_cons]
    omega

theorem conveys_of_reads {size : ℕ} {text : List Byte} {write : List Byte → List Byte}
    {doc : List Byte → Json.Value}
    (hreads : ∀ front body, Json.Spelt front body → Json.Reads 4 (write body) (doc front))
    (hlen : 4 ≤ (write (jsonEscape size text)).length)
    (hsize : (∀ c ∈ text, 0x20#8 ≤ c) → (text.flatMap escaped).length + 6 < size) :
    Conveys (write (jsonEscape size text)) doc text := by
  obtain ⟨front, hfront, hesc, hall⟩ := jsonEscapeFrom_front size text 0
  have hspelt : Json.Spelt front (jsonEscape size text) := by
    rw [jsonEscape, hesc]
    exact spelt_escaped front
  refine ⟨front, (hreads front _ hspelt).parse hlen, hfront, fun hplain => hall ?_⟩
  have hshort := hsize hplain
  omega

theorem nameMetaText_length (body : List Byte) : (nameMetaText body).length = body.length + 87 := by
  have hfront : (ascii "\x7b\"displayName\":\"").length = 16 := rfl
  have hback : (ascii ("\",\"manufacturer\":\x7b\"name\":\"Waveshare\"," ++
      "\"model\":\"ESP32-S3-ETH-8DI-8RO-C\"\x7d\x7d")).length = 71 := rfl
  rw [nameMetaText, List.length_append, List.length_append, hfront, hback]
  omega

theorem noNul_nameMetaText {body : List Byte} (h : 0#8 ∉ body) : 0#8 ∉ nameMetaText body := by
  simp only [nameMetaText, List.mem_append, not_or]
  exact ⟨⟨by decide, h⟩, by decide⟩

/-- The metadata is written whole and within its arrays, whatever they held,
and conveys the name. -/
structure MetaWritten (name text : List Byte) : Prop where
  written : ∀ nameBuf metaBuf, nameMetaInto nameBuf metaBuf name = some (text.length, text)
  fits : text.length < 160
  conveys : Conveys text nameDoc name

/-- The same for the notification of an alarm. -/
structure RaisedWritten (input : InputCfg) (text : List Byte) : Prop where
  written : ∀ raw msg json, notificationInto raw msg json input true =
    some ([(alarmText input).length, text.length], text)
  rawFits : (alarmText input).length < nameMax + 16
  fits : text.length < 2 * nameMax + 96
  conveys : Conveys text (notificationDoc input.alarm.stateStr [ascii "visual", ascii "sound"])
    (alarmText input)

structure ClearedWritten (input : InputCfg) (text : List Byte) : Prop where
  written : ∀ raw msg json, notificationInto raw msg json input false = some ([text.length], text)
  fits : text.length < 2 * nameMax + 96
  parsed : Json.parse text = some (notificationDoc (ascii "normal") [] [])

theorem nameMeta_written (name : CStr nameMax) : MetaWritten name.bytes (nameMeta name.bytes) := by
  have hroom := (@jsonEscapeInto_terminated (2 * nameMax + 8) (by decide) name.bytes name.noNul
    fun _ => 0#8).2
  have hescaped : 0#8 ∉ jsonEscape (2 * nameMax + 8) name.bytes :=
    noNul_jsonEscapeFrom (2 * nameMax + 8) name.bytes name.noNul 0
  have hlen := nameMetaText_length (jsonEscape (2 * nameMax + 8) name.bytes)
  have hfits : (nameMetaText (jsonEscape (2 * nameMax + 8) name.bytes)).length < 160 := by
    unfold nameMax at hlen hroom ⊢
    omega
  have hmeta : nameMeta name.bytes = nameMetaText (jsonEscape (2 * nameMax + 8) name.bytes) :=
    List.take_of_length_le (Nat.le_sub_one_of_lt hfits)
  rw [hmeta]
  refine ⟨fun nameBuf metaBuf => ?_, hfits,
    conveys_of_reads (fun front body => nameMetaText_reads) (by omega) ?_⟩
  · have hwritten := (@jsonEscapeInto_terminated (2 * nameMax + 8) (by decide) name.bytes
      name.noNul nameBuf).1
    simp only [nameMetaInto, hwritten, Option.bind_eq_bind, Option.bind_some,
      stringIn_storeAll nameBuf _ hescaped hroom, snprintfAt_fits metaBuf _ hfits,
      stringIn_storeAll metaBuf _ (noNul_nameMetaText hescaped) hfits]
    rfl
  · intro hplain
    have hshort := flatMap_escaped_short name.bytes hplain
    have hname := name.fits
    unfold nameMax at hname ⊢
    omega

theorem raisedText_length (state body : List Byte) :
    (raisedText state body).length = state.length + body.length + 53 := by
  have hfront : (ascii "\x7b\"state\":\"").length = 10 := rfl
  have hmiddle : (ascii "\",\"method\":[\"visual\",\"sound\"],\"message\":\"").length = 41 := rfl
  have hback : (ascii "\"\x7d").length = 2 := rfl
  simp only [raisedText, List.length_append, hfront, hmiddle, hback]
  omega

theorem noNul_raisedText {state body : List Byte} (hstate : 0#8 ∉ state) (h : 0#8 ∉ body) :
    0#8 ∉ raisedText state body := by
  simp only [raisedText, List.mem_append, not_or]
  exact ⟨⟨⟨⟨by decide, hstate⟩, by decide⟩, h⟩, by decide⟩

theorem alarmText_spec (input : InputCfg) : 0#8 ∉ alarmText input ∧
    (alarmText input).length ≤ nameMax + 7 ∧ ((∀ c ∈ alarmText input, 0x20#8 ≤ c) →
      ((alarmText input).flatMap escaped).length ≤ 2 * nameMax + 7) := by
  have hmsg := input.alarmMsg.fits
  have hname := input.name.fits
  unfold alarmText
  split_ifs
  · refine ⟨input.alarmMsg.noNul, by omega, fun hplain => ?_⟩
    have hshort := flatMap_escaped_short input.alarmMsg.bytes hplain
    omega
  · have hactive : (ascii " active").length = 7 := rfl
    have hescaped : ((ascii " active").flatMap escaped).length = 7 := by decide
    refine ⟨?_, by rw [List.length_append]; omega, fun hplain => ?_⟩
    · rw [List.mem_append, not_or]
      exact ⟨input.name.noNul, by decide⟩
    · have hshort := flatMap_escaped_short input.name.bytes fun c hc =>
        hplain c (List.mem_append_left _ hc)
      rw [List.flatMap_append, List.length_append]
      omega

theorem raised_written (input : InputCfg) : RaisedWritten input (notificationJson input true) := by
  obtain ⟨hnoNul, hraw, hplainLen⟩ := alarmText_spec input
  obtain ⟨-, hstate, hstateLen⟩ := stateStr_plain input.alarm
  have hroom := (@jsonEscapeInto_terminated (2 * nameMax + 16) (by decide) (alarmText input)
    hnoNul fun _ => 0#8).2
  have hescaped : 0#8 ∉ jsonEscape (2 * nameMax + 16) (alarmText input) :=
    noNul_jsonEscapeFrom (2 * nameMax + 16) (alarmText input) hnoNul 0
  have hlen := raisedText_length input.alarm.stateStr
    (jsonEscape (2 * nameMax + 16) (alarmText input))
  have hmessage : alarmMessage (nameMax + 16) input = alarmText input := by
    unfold alarmMessage alarmText at *
    split_ifs at hraw ⊢
    · exact List.take_of_length_le (by omega)
    · exact List.take_of_length_le (by omega)
  have hfits : (raisedText input.alarm.stateStr
      (jsonEscape (2 * nameMax + 16) (alarmText input))).length < 2 * nameMax + 96 := by
    unfold nameMax at hlen hroom ⊢
    omega
  have hjson : notificationJson input true = raisedText input.alarm.stateStr
      (jsonEscape (2 * nameMax + 16) (alarmText input)) := by
    rw [notificationJson, if_pos rfl, hmessage]
    exact List.take_of_length_le (Nat.le_sub_one_of_lt hfits)
  rw [hjson]
  have hrawFits : (alarmText input).length < nameMax + 16 := by omega
  refine ⟨fun raw msg json => ?_, hrawFits, hfits,
    conveys_of_reads (fun front body h => raisedText_reads h input.alarm) (by omega) ?_⟩
  · have hwritten := (@jsonEscapeInto_terminated (2 * nameMax + 16) (by decide)
      (alarmText input) hnoNul msg).1
    simp only [notificationInto, if_true, hwritten, Option.bind_eq_bind, Option.bind_some,
      snprintfAt_fits raw _ hrawFits, stringIn_storeAll raw _ hnoNul hrawFits,
      stringIn_storeAll msg _ hescaped hroom, snprintfAt_fits json _ hfits,
      stringIn_storeAll json _ (noNul_raisedText hstate hescaped) hfits]
    rfl
  · intro hplain
    have hshort := hplainLen hplain
    unfold nameMax at hshort ⊢
    omega

theorem cleared_written (input : InputCfg) :
    ClearedWritten input (notificationJson input false) := by
  have hfits : clearedText.length < 2 * nameMax + 96 := by decide
  have hjson : notificationJson input false = clearedText := rfl
  rw [hjson]
  refine ⟨fun raw msg json => ?_, hfits, clearedText_reads.parse (by decide)⟩
  simp only [notificationInto, Bool.false_eq_true, if_false, Option.bind_eq_bind, Option.bind_some,
    snprintfAt_fits json _ hfits, stringIn_storeAll json _ (by decide) hfits]
  rfl

def Publish.jsonText : Publish → Option (List Byte)
  | .value _ (.json text) => some text
  | .value _ _ => none
  | .declareMeta _ text _ => some text
  | .putRegister _ _ => none

def unitsText : List Byte := ascii "\x7b\"units\":\"s\"\x7d"

/-- A quote, a backslash and a line feed in a name. -/
example : nameMeta (ascii "a\"\\\n") = nameMetaText (ascii "a\\\"\\\\\\u000a") := by decide

end RelayBoard
