import RelayBoard.Lib.Clock
import RelayBoard.Lib.Runs
import RelayBoard.Lib.Spans
import RelayBoard.Rtttl

/-!
# The tone player

`tone_player.c` and what it uses of `rtttl.c`: one pass over a tone, whose
notes are laid end to end from the time of the start on.
-/

set_option autoImplicit false

namespace RelayBoard
open Lib.Clock Lib.Runs Lib.Spans

/-- The notes of a `tone_t`, no more than `RTTTL_MAX_NOTES`. -/
structure Tone where
  notes : List RtttlNote
  fits : notes.length ≤ 64

def RtttlNote.length (note : RtttlNote) : ℕ := note.durationMs.toNat

def RtttlNote.pitch (note : RtttlNote) : Option (BitVec 16) :=
  if note.freqHz = 0 then none else some note.freqHz

def rtttlDurationMs (notes : List RtttlNote) : BitVec 32 :=
  notes.foldl (fun total note => total + note.durationMs.setWidth 32) 0

/-- What is stored in `*freq_hz` where the function returns true. -/
def rtttlToneAt : List RtttlNote → BitVec 32 → Option (BitVec 16)
  | [], _ => none
  | note :: notes, t =>
    if t < note.durationMs.setWidth 32 then
      if note.freqHz = 0 then none else some note.freqHz
    else rtttlToneAt notes (t - note.durationMs.setWidth 32)

structure TonePlayer where
  tone : Tone
  playing : Bool
  startMs : BitVec 32
  lenMs : BitVec 32

namespace TonePlayer

def tonePlayerStart (p : TonePlayer) (tone : Tone) (now : BitVec 32) : TonePlayer × Bool :=
  if tone.notes = [] then ({ p with playing := false }, false)
  else
    ({ tone := tone, playing := true, startMs := now, lenMs := rtttlDurationMs tone.notes }, true)

def tonePlayerStop (p : TonePlayer) : TonePlayer := { p with playing := false }

def tonePlayerStep (p : TonePlayer) (now : BitVec 32) : TonePlayer × Option (BitVec 16) :=
  if !p.playing then (p, none)
  else
    let t := now - p.startMs
    if p.lenMs ≤ t then ({ p with playing := false }, none)
    else (p, rtttlToneAt p.tone.notes t)

def after (p : TonePlayer) (tone : Tone) (began : ℕ) (times : List ℕ) : TonePlayer :=
  run (fun s u => (s.tonePlayerStep (reading 32 u)).1)
    (p.tonePlayerStart tone (reading 32 began)).1 times

end TonePlayer

theorem toNat_setWidth (d : BitVec 16) : (d.setWidth 32).toNat = d.toNat := by
  rw [BitVec.toNat_setWidth]
  exact Nat.mod_eq_of_lt (by omega)

theorem rtttlToneAt_eq (notes : List RtttlNote) (t : BitVec 32) :
    rtttlToneAt notes t = (find RtttlNote.length notes t.toNat).bind RtttlNote.pitch := by
  induction notes generalizing t with
  | nil => rfl
  | cons note notes ih =>
    have hlt : t < note.durationMs.setWidth 32 ↔ t.toNat < note.length := by
      rw [BitVec.lt_def, toNat_setWidth]
      rfl
    rw [rtttlToneAt, find]
    by_cases h : t.toNat < note.length
    · rw [if_pos h, if_pos (hlt.mpr h)]
      rfl
    · have hsub : (t - note.durationMs.setWidth 32).toNat = t.toNat - note.length := by
        rw [BitVec.toNat_sub_of_le, toNat_setWidth]
        · rfl
        · rw [BitVec.le_def, toNat_setWidth]
          exact Nat.not_lt.mp h
      rw [if_neg h, if_neg (fun hh => h (hlt.mp hh)), ih, hsub]

theorem total_le (notes : List RtttlNote) :
    total RtttlNote.length notes ≤ notes.length * 65535 := by
  induction notes with
  | nil => exact le_rfl
  | cons note notes ih =>
    have hnote : note.length < 2 ^ 16 := note.durationMs.isLt
    rw [total_cons, List.length_cons]
    omega

theorem foldl_duration (notes : List RtttlNote) (sum : BitVec 32)
    (h : sum.toNat + total RtttlNote.length notes < 2 ^ 32) :
    (notes.foldl (fun total note => total + note.durationMs.setWidth 32) sum).toNat =
      sum.toNat + total RtttlNote.length notes := by
  induction notes generalizing sum with
  | nil => rfl
  | cons note notes ih =>
    rw [total_cons] at h ⊢
    have hadd : (sum + note.durationMs.setWidth 32).toNat = sum.toNat + note.length := by
      rw [BitVec.toNat_add, toNat_setWidth]
      exact Nat.mod_eq_of_lt (by rw [RtttlNote.length] at h; omega)
    rw [List.foldl_cons, ih _ (by omega), hadd]
    omega

theorem rtttlDurationMs_toNat (tone : Tone) :
    (rtttlDurationMs tone.notes).toNat = total RtttlNote.length tone.notes := by
  have hle := total_le tone.notes
  have hfits := tone.fits
  rw [rtttlDurationMs, foldl_duration]
  · exact Nat.zero_add _
  · have hzero : (0 : BitVec 32).toNat = 0 := rfl
    rw [hzero]
    omega

section Run

variable {p : TonePlayer} {tone : Tone} {began : ℕ}

structure PlayerInv (tone : Tone) (began : ℕ) (times : List ℕ) (s : TonePlayer) : Prop where
  same : s.tone = tone
  startMs : s.startMs = reading 32 began
  lenMs : s.lenMs.toNat = total RtttlNote.length tone.notes
  playing : s.playing = true ↔ ∀ u ∈ times, u - began < total RtttlNote.length tone.notes

theorem playerInv_start (hnotes : tone.notes ≠ []) :
    (p.tonePlayerStart tone (reading 32 began)).2 = true ∧
      PlayerInv tone began [] (p.tonePlayerStart tone (reading 32 began)).1 := by
  rw [TonePlayer.tonePlayerStart, if_neg hnotes]
  exact ⟨rfl, rfl, rfl, rtttlDurationMs_toNat tone, iff_of_true rfl (by simp)⟩

variable {times : List ℕ} {s : TonePlayer} {now : ℕ}

theorem lenMs_le_iff (h : PlayerInv tone began times s)
    (hnow : began ≤ now ∧ now < began + 2 ^ 32) :
    s.lenMs ≤ reading 32 now - s.startMs ↔ total RtttlNote.length tone.notes ≤ now - began := by
  have helapsed : (now - began) % 2 ^ 32 = now - began := Nat.mod_eq_of_lt (by omega)
  rw [BitVec.le_def, h.lenMs, h.startMs, reading_sub_toNat 32 now began hnow.1, helapsed]

/-- A step at a time before the clock comes round to that of the start. -/
theorem playerInv_step (h : PlayerInv tone began times s)
    (hnow : began ≤ now ∧ now < began + 2 ^ 32) :
    PlayerInv tone began (times ++ [now]) (s.tonePlayerStep (reading 32 now)).1 := by
  have hall : (∀ u ∈ times ++ [now], u - began < total RtttlNote.length tone.notes) ↔
      s.playing = true ∧ now - began < total RtttlNote.length tone.notes := by
    rw [List.forall_mem_append, h.playing]
    simp
  unfold TonePlayer.tonePlayerStep
  cases hplaying : s.playing with
  | false =>
    refine ⟨h.same, h.startMs, h.lenMs, iff_of_false (by simp [hplaying]) fun hh => ?_⟩
    exact absurd (hall.mp hh).1 (by simp [hplaying])
  | true =>
    rw [Bool.not_true, if_neg Bool.false_ne_true]
    dsimp only
    split_ifs with hend
    · refine ⟨h.same, h.startMs, h.lenMs, iff_of_false Bool.false_ne_true fun hh => ?_⟩
      exact absurd (hall.mp hh).2 (Nat.not_lt.mpr ((lenMs_le_iff h hnow).mp hend))
    · refine ⟨h.same, h.startMs, h.lenMs, iff_of_true hplaying (hall.mpr ⟨hplaying, ?_⟩)⟩
      exact Nat.not_le.mp fun hle => hend ((lenMs_le_iff h hnow).mpr hle)

theorem step_sounds (h : PlayerInv tone began times s)
    (hnow : began ≤ now ∧ now < began + 2 ^ 32) :
    (s.tonePlayerStep (reading 32 now)).2 =
      if s.playing then (find RtttlNote.length tone.notes (now - began)).bind RtttlNote.pitch
      else none := by
  unfold TonePlayer.tonePlayerStep
  cases hplaying : s.playing with
  | false => rfl
  | true =>
    rw [Bool.not_true, if_neg Bool.false_ne_true, if_pos rfl]
    dsimp only
    split_ifs with hend
    · rw [find_eq_none ((lenMs_le_iff h hnow).mp hend)]
      rfl
    · have helapsed : (now - began) % 2 ^ 32 = now - began := Nat.mod_eq_of_lt (by omega)
      rw [rtttlToneAt_eq, h.same, h.startMs, reading_sub_toNat 32 now began hnow.1, helapsed]

theorem playerInv_after (hnotes : tone.notes ≠ [])
    (hrange : ∀ u ∈ times, began ≤ u ∧ u < began + 2 ^ 32) :
    PlayerInv tone began times (p.after tone began times) := by
  induction times using List.reverseRecOn with
  | nil => exact (playerInv_start hnotes).2
  | append_singleton times now ih =>
    rw [TonePlayer.after, run_snoc]
    exact playerInv_step (ih fun u hu => hrange u (List.mem_append_left _ hu))
      (hrange now (by simp))

/-- A step after a start and some others sounds the one note in whose span it
is, unless one of them has come to the end; notes without length have no
span. -/
structure PlaysNotes (p : TonePlayer) (tone : Tone) (began : ℕ) (past : List ℕ) (now : ℕ) :
    Prop where
  started : (p.tonePlayerStart tone (reading 32 began)).2 = true
  playing : (p.after tone began past).playing = true ↔
    ∀ u ∈ past, u - began < total RtttlNote.length tone.notes
  sounds : (∀ u ∈ past ++ [now], u - began < total RtttlNote.length tone.notes) →
    ∃ i note, tone.notes[i]? = some note ∧ Covers RtttlNote.length tone.notes i (now - began) ∧
      (∀ j, Covers RtttlNote.length tone.notes j (now - began) → j = i) ∧
      ((p.after tone began past).tonePlayerStep (reading 32 now)).2 = note.pitch
  silent : (∃ u ∈ past ++ [now], total RtttlNote.length tone.notes ≤ u - began) →
    ((p.after tone began past).tonePlayerStep (reading 32 now)).2 = none ∧
      ((p.after tone began past).tonePlayerStep (reading 32 now)).1.playing = false
  lengthless : ∀ i note, tone.notes[i]? = some note → note.durationMs = 0 →
    ¬Covers RtttlNote.length tone.notes i (now - began)

theorem tone_player_plays (p : TonePlayer) (tone : Tone) (hnotes : tone.notes ≠ []) (began : ℕ)
    (past : List ℕ) (now : ℕ) (hrange : ∀ u ∈ past ++ [now], began ≤ u ∧ u < began + 2 ^ 32) :
    PlaysNotes p tone began past now := by
  have hpast : ∀ u ∈ past, began ≤ u ∧ u < began + 2 ^ 32 := fun u hu =>
    hrange u (List.mem_append_left _ hu)
  have hnow := hrange now (by simp)
  have hinv := playerInv_after (p := p) hnotes hpast
  have hnext := playerInv_step hinv hnow
  refine ⟨(playerInv_start hnotes).1, hinv.playing, ?_, ?_, ?_⟩
  · intro hbefore
    obtain ⟨i, ⟨note, hnote, hspan⟩, honly⟩ := existsUnique_covers (hbefore now (by simp))
    refine ⟨i, note, hnote, ⟨note, hnote, hspan⟩, honly, ?_⟩
    rw [step_sounds hinv hnow, if_pos, find_of_covers hnote ⟨note, hnote, hspan⟩]
    · rfl
    · exact hinv.playing.mpr fun u hu => hbefore u (List.mem_append_left _ hu)
  · rintro ⟨u, hu, hend⟩
    have hstopped : ¬(_ = true) := hnext.playing.not.mpr fun hall =>
      absurd (hall u hu) (Nat.not_lt.mpr hend)
    refine ⟨?_, Bool.not_eq_true _ ▸ hstopped⟩
    rw [step_sounds hinv hnow]
    split_ifs with hplaying
    · rcases List.mem_append.mp hu with hu | hu
      · exact absurd (hinv.playing.mp hplaying u hu) (Nat.not_lt.mpr hend)
      · obtain rfl := List.mem_singleton.mp hu
        rw [find_eq_none hend]
        rfl
    · rfl
  · intro i note hnote hzero
    exact not_covers_of_len_eq_zero hnote (by rw [RtttlNote.length, hzero]; rfl) _

/-- A tone with a rest that the clock comes round in. -/
theorem tone_across_wrap_plays :
    (Tone.mk [⟨440, 100⟩, ⟨0, 50⟩, ⟨523, 80⟩] (by decide)).notes ≠ [] ∧
    (∀ u ∈ [2 ^ 32 - 20, 2 ^ 32 + 20] ++ [2 ^ 32 + 60], 2 ^ 32 - 120 ≤ u ∧
      u < 2 ^ 32 - 120 + 2 ^ 32) ∧
    PlaysNotes ⟨⟨[], by decide⟩, false, 0, 0⟩
      ⟨[⟨440, 100⟩, ⟨0, 50⟩, ⟨523, 80⟩], by decide⟩ (2 ^ 32 - 120)
      [2 ^ 32 - 20, 2 ^ 32 + 20] (2 ^ 32 + 60) :=
  have hrange : ∀ u ∈ [2 ^ 32 - 20, 2 ^ 32 + 20] ++ [2 ^ 32 + 60], 2 ^ 32 - 120 ≤ u ∧
      u < 2 ^ 32 - 120 + 2 ^ 32 := by simp
  ⟨by simp, hrange, tone_player_plays _ _ (by simp) _ _ _ hrange⟩

end Run

end RelayBoard
