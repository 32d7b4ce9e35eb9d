import RelayBoard.Lib.Json
import RelayBoard.TonePlayer

/-!
# The tone library

`tone_library_parse` and `tone_library_find` of `tone.c`: the named tones of
the settings, and the index a name is played by.
-/

set_option autoImplicit false

namespace RelayBoard
open Lib Lib.Scanning

/-- `TONE_NAME_MAX` -/
def toneNameMax : ℕ := 24

/-- `TONE_MAX_TONES` -/
def toneMaxTones : ℕ := 24

theorem rtttlParse_room {text : List Byte} (h0 : 0#8 ∉ text) (max : ℕ) :
    ∃ notes, rtttlParse (text.length + 2) (some (terminated text)) max = some notes ∧
      notes.length ≤ max := by
  obtain ⟨d, tune, hdefaults, htune, hlen⟩ := readDefaults_total h0
  obtain ⟨notes, hnotes, hle⟩ := readNotes_total htune d max
  have hfuel : (terminated text).length < text.length + 2 := by simp [terminated]
  refine ⟨notes, ?_, hle⟩
  rw [rtttlParse]
  dsimp only
  rw [hdefaults _ hfuel]
  have hshort : (terminated tune).length < text.length + 2 := by
    rw [terminated, List.length_append, List.length_singleton]
    omega
  exact hnotes _ hshort

def rtttlTone (rtttl : List Byte) : Tone where
  notes := (rtttlParse ((cText rtttl).length + 2) (some (terminated (cText rtttl))) 64).getD []
  fits := by
    obtain ⟨notes, hparse, hle⟩ := rtttlParse_room (zero_notMem_cText rtttl) 64
    rw [hparse]
    exact hle

/-- A `tone_t` of the library. -/
structure NamedTone where
  name : List Byte
  tone : Tone
  named : name ≠ [] ∧ name.length ≤ toneNameMax
  playable : tone.notes ≠ []

/-- The `valuestring` of a member that is a string. -/
def stringItem (row : Json.Value) (name : List Byte) : Option (List Byte) :=
  match objectItem (some row) name with
  | some (.string text) => some (cText text)
  | _ => none

/-- The tone of a row that is not skipped. -/
def toneOfRow (row : Json.Value) : Option NamedTone :=
  match stringItem row (ascii "name"), stringItem row (ascii "rtttl") with
  | some name, some rtttl =>
    if h : (name ≠ [] ∧ name.length ≤ toneNameMax) ∧ (rtttlTone rtttl).notes ≠ [] then
      some ⟨name, rtttlTone rtttl, h.1, h.2⟩
    else none
  | _, _ => none

def rowPass (max : ℕ) (out : List NamedTone) (row : Json.Value) : List NamedTone :=
  if max ≤ out.length then out else out ++ (toneOfRow row).toList

/-- `tone_library_parse`; `root` is what `cJSON_Parse` returned. -/
def toneLibraryParse (root : Option Json.Value) (max : ℕ) : List NamedTone :=
  match root with
  | some (.array rows) => rows.foldl (rowPass max) []
  | _ => []

def toneLibraryFind (tones : List NamedTone) (name : List Byte) : Option ℕ :=
  if name = [] then none else tones.findIdx? fun tone => tone.name = name

theorem toneLibraryFind_eq_some_iff {tones : List NamedTone} {name : List Byte} {i : ℕ} :
    toneLibraryFind tones name = some i ↔ ∃ tone, tones[i]? = some tone ∧ tone.name = name ∧
      ∀ j < i, ∀ other, tones[j]? = some other → other.name ≠ name := by
  unfold toneLibraryFind
  split_ifs with hempty
  · refine iff_of_false (by simp) ?_
    rintro ⟨tone, -, hname, -⟩
    exact tone.named.1 (hname.trans hempty)
  · rw [List.findIdx?_eq_some_iff_getElem]
    simp only [decide_eq_true_eq, List.getElem?_eq_some_iff]
    constructor
    · rintro ⟨hi, hname, hbefore⟩
      refine ⟨tones[i], ⟨hi, rfl⟩, hname, ?_⟩
      rintro j hj other ⟨hlen, rfl⟩
      exact hbefore j hj
    · rintro ⟨tone, ⟨hi, rfl⟩, hname, hbefore⟩
      exact ⟨hi, hname, fun j hj => hbefore j hj _ ⟨by omega, rfl⟩⟩

end RelayBoard
