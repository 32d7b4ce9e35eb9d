import RelayBoard.Indicator

/-!
# One voice at a time

An alarm, a buzzer test and a chirp or preview share one buzzer, and the alarm
and the test one buffer of segments. Whatever the other tasks do, at most one
of the three sounds, and what sounds is said in full by the segments at hand.
-/

set_option autoImplicit false

namespace RelayBoard
open Lib Lib.Runs Lib.Spans

/-- The segments are those of an alarm with these inputs. -/
def Says (inputAlarms : Mask) (segs : List MorseSeg) : Prop :=
  ∃ ip, segs = morseEncode (alarmTextFor inputAlarms ip) maxSegs

namespace IndicatorTask

/-- The segments of the last pass with an alarm are still there. -/
def Remembers (t : IndicatorTask) : Prop := t.alarmWas = true → Says t.alarmInputsWas t.segs

def Said (t : IndicatorTask) : Prop :=
  t.alarmWas = t.alarm ∧ t.alarmInputsWas = t.inputAlarms ∧
    (t.alarm = true → Says t.inputAlarms t.segs)

/-- Nothing plays in a pass that suppresses chirps, no test sounds in an alarm. -/
def Yielding (t : IndicatorTask) : Prop :=
  (t.suppressChirp = true → t.player.playing = false) ∧ (t.alarm = true → t.testing = false)

/-- What a place of the pass may rely on. -/
def At (t : IndicatorTask) : IndicatorPc → Prop
  | .takeTest => t.Remembers ∧ (t.suppressChirp = true → t.player.playing = false)
  | .startTest => t.alarm = false ∧ t.testing = false ∧ t.player.playing = false
  | .message => (t.alarm = true → t.Remembers) ∧ t.Yielding
  | .readClock => t.Said ∧ t.Yielding
  | .takeChirp => t.Said ∧ t.Yielding
  | .copyChirp _ => t.Said ∧ t.quiet = true
  | .takePreview => t.Said ∧ t.Yielding
  | .copyPreview => t.Said ∧ t.quiet = true
  | .readFreq => t.Said ∧ t.Yielding
  | .sound _ => t.Said ∧ t.Yielding
  | .setFreq _ _ => t.Said ∧ t.Yielding
  | .setBusy _ => t.Said ∧ t.Yielding
  | .setBuzzer _ => t.Said ∧ t.Yielding
  | _ => t.Remembers

structure Inv (t : IndicatorTask) : Prop where
  oneVoice : t.testing = true → t.player.playing = false
  test : t.testing = true → (∃ ip, t.segs = morseEncode (testText ip) maxSegs) ∧
    t.testLenMs = morseDurationMs t.segs morseUnitMs
  player : t.player.playing = true → t.player.lenMs = rtttlDurationMs t.player.tone.notes
  place : t.At t.pc

variable {t : IndicatorTask} {sh : IndicatorShared}

theorem Said.remembers (h : t.Said) : t.Remembers := by
  intro hwas
  rw [h.2.1]
  exact h.2.2 (h.1 ▸ hwas)

theorem suppressChirp_iff : t.suppressChirp = true ↔ t.override ≠ .none ∨ t.alarm = true := by
  unfold suppressChirp
  split_ifs with h
  · exact iff_of_true rfl h
  · exact iff_of_false Bool.false_ne_true h

theorem quiet_iff : t.quiet = true ↔
    t.suppressChirp = false ∧ t.testing = false ∧ t.player.playing = false := by
  simp only [quiet, Bool.and_eq_true, Bool.not_eq_true']
  exact and_assoc

theorem alarm_of_quiet (h : t.quiet = true) : t.alarm = false := by
  have hsuppress := (quiet_iff.mp h).1
  cases halarm : t.alarm with
  | false => rfl
  | true => exact absurd (suppressChirp_iff.mpr (.inr halarm)) (by simp [hsuppress])

theorem created_inv (cfg : IndicatorConfig) : (created cfg).Inv where
  oneVoice h := Bool.noConfusion h
  test h := Bool.noConfusion h
  player h := Bool.noConfusion h
  place := fun h => Bool.noConfusion h

theorem lenMs_start (p : TonePlayer) (tone : Tone) (now : BitVec 32)
    (h : (p.tonePlayerStart tone now).1.playing = true) :
    (p.tonePlayerStart tone now).1.lenMs =
      rtttlDurationMs (p.tonePlayerStart tone now).1.tone.notes := by
  unfold TonePlayer.tonePlayerStart at h ⊢
  split_ifs at h ⊢
  rfl

theorem lenMs_step (p : TonePlayer) (now : BitVec 32)
    (hlen : p.playing = true → p.lenMs = rtttlDurationMs p.tone.notes)
    (h : (p.tonePlayerStep now).1.playing = true) :
    (p.tonePlayerStep now).1.lenMs = rtttlDurationMs (p.tonePlayerStep now).1.tone.notes := by
  unfold TonePlayer.tonePlayerStep at h ⊢
  dsimp only at h ⊢
  split_ifs at h ⊢ with hplaying hend
  · exact hlen h
  · exact hlen h

theorem playing_step {p : TonePlayer} (now : BitVec 32) (h : p.playing = false) :
    (p.tonePlayerStep now).1.playing = false := by
  unfold TonePlayer.tonePlayerStep
  rw [h]
  exact h

theorem inv_started (hsaid : t.Said) (hquiet : t.quiet = true) (tone : Tone)
    {pc : IndicatorPc} (hpc : pc = .takePreview ∨ pc = .readFreq) :
    Inv { t with player := (t.player.tonePlayerStart tone t.nowMs).1, pc := pc } := by
  obtain ⟨hsuppress, htesting, -⟩ := quiet_iff.mp hquiet
  have halarm := alarm_of_quiet hquiet
  refine ⟨fun ht => absurd ht (by simp [htesting]), fun ht => absurd ht (by simp [htesting]),
    lenMs_start _ _ _, ?_⟩
  have hyielding : Yielding { t with
      player := (t.player.tonePlayerStart tone t.nowMs).1, pc := pc } :=
    ⟨fun hs => absurd hs (by show ¬(t.suppressChirp = true); simp [hsuppress]),
      fun ha => absurd ha (by simp [halarm])⟩
  rcases hpc with rfl | rfl
  · exact ⟨hsaid, hyielding⟩
  · exact ⟨hsaid, hyielding⟩

theorem step_sound {wantFreq : BitVec 16} (hpc : t.pc = .sound wantFreq) (io : IndicatorIo)
    (nowUs : ℕ) (sh : IndicatorShared) : t.step io nowUs sh = (sh, t.sound nowUs wantFreq) := by
  unfold IndicatorTask.step
  rw [hpc]

theorem sound_inv (h : t.Inv) {wantFreq : BitVec 16} (hpc : t.pc = .sound wantFreq)
    (nowUs : ℕ) : (t.sound nowUs wantFreq).Inv := by
  have hplace := h.place
  rw [hpc] at hplace
  obtain ⟨hsaid, hstopped, htested⟩ := hplace
  unfold IndicatorTask.sound
  dsimp only
  split_ifs with halarm htesting hend
  · exact ⟨h.oneVoice, h.test, h.player, hsaid, hstopped, htested⟩
  · exact ⟨fun ht => Bool.noConfusion ht, fun ht => Bool.noConfusion ht, h.player, hsaid, hstopped,
      fun _ => rfl⟩
  · exact ⟨h.oneVoice, h.test, h.player, hsaid, hstopped, htested⟩
  · refine ⟨fun ht => absurd ht htesting, fun ht => absurd ht htesting, lenMs_step _ _ h.player,
      hsaid, fun hs => playing_step _ (hstopped hs), htested⟩

theorem message_said (h : (t.alarm = true → t.Remembers) ∧ t.Yielding) (io : IndicatorIo)
    (nowUs : ℕ) (hpc : t.pc = .message) : (t.step io nowUs sh).2.Said := by
  unfold IndicatorTask.step
  rw [hpc]
  dsimp only
  split_ifs with hnew
  · exact ⟨rfl, rfl, fun _ => ⟨io.ip, rfl⟩⟩
  · refine ⟨rfl, rfl, fun halarm => ?_⟩
    have hsame : t.alarmWas = true ∧ t.inputAlarms = t.alarmInputsWas := by
      by_contra hne
      exact hnew ⟨halarm, by tauto⟩
    show Says t.inputAlarms t.segs
    rw [hsame.2]
    exact h.1 halarm hsame.1

theorem message_inv (h : t.Inv) (hpc : t.pc = .message) (io : IndicatorIo) (nowUs : ℕ) :
    (t.step io nowUs sh).2.Inv := by
  have hplace := h.place
  rw [hpc] at hplace
  have hsaid : (t.step io nowUs sh).2.Said := message_said hplace io nowUs hpc
  obtain ⟨-, hstopped, htested⟩ := hplace
  unfold IndicatorTask.step at hsaid ⊢
  rw [hpc] at hsaid ⊢
  dsimp only at hsaid ⊢
  split_ifs at hsaid ⊢ with hnew
  · have htesting := htested hnew.1
    exact ⟨h.oneVoice, fun ht => absurd ht (by simp [htesting]), h.player, hsaid, hstopped,
      htested⟩
  · exact ⟨h.oneVoice, h.test, h.player, hsaid, hstopped, htested⟩

/-- The buzzer test gives way to an alarm, and is not begun beside another. -/
theorem takeTest_inv (h : t.Inv) (hpc : t.pc = .takeTest) (io : IndicatorIo) (nowUs : ℕ) :
    (t.step io nowUs sh).2.Inv := by
  have hplace := h.place
  rw [hpc] at hplace
  obtain ⟨hremembers, hstopped⟩ := hplace
  unfold IndicatorTask.step
  rw [hpc]
  dsimp only
  split_ifs with halarm hfree hrequested
  · exact ⟨fun ht => Bool.noConfusion ht, fun ht => Bool.noConfusion ht, h.player,
      fun _ => hremembers, hstopped, fun _ => rfl⟩
  · rw [Bool.and_eq_true, Bool.not_eq_true', Bool.not_eq_true'] at hfree
    exact ⟨h.oneVoice, h.test, h.player, Bool.not_eq_true _ ▸ halarm, hfree⟩
  · exact ⟨h.oneVoice, h.test, h.player, fun ha => absurd ha halarm, hstopped,
      fun ha => absurd ha halarm⟩
  · exact ⟨h.oneVoice, h.test, h.player, fun ha => absurd ha halarm, hstopped,
      fun ha => absurd ha halarm⟩

theorem step_inv (h : t.Inv) (io : IndicatorIo) (nowUs : ℕ) (sh : IndicatorShared) :
    (t.step io nowUs sh).2.Inv := by
  have hplace := h.place
  cases hpc : t.pc with
  | takeTest => exact takeTest_inv h hpc io nowUs
  | message => exact message_inv h hpc io nowUs
  | sound wantFreq =>
    rw [step_sound hpc]
    exact sound_inv h hpc nowUs
  | readEnabled =>
    rw [hpc] at hplace
    unfold IndicatorTask.step
    rw [hpc]
    dsimp only
    split_ifs with hsuppress
    · exact ⟨h.oneVoice, h.test, h.player, hplace⟩
    · exact ⟨h.oneVoice, h.test, h.player, hplace, fun hs => absurd hs hsuppress⟩
  | clearPreview =>
    rw [hpc] at hplace
    unfold IndicatorTask.step
    rw [hpc]
    exact ⟨fun _ => rfl, h.test, fun hp => Bool.noConfusion hp, hplace, fun _ => rfl⟩
  | startTest =>
    rw [hpc] at hplace
    obtain ⟨halarm, -, hplaying⟩ := hplace
    unfold IndicatorTask.step
    rw [hpc]
    exact ⟨fun _ => hplaying, fun _ => ⟨⟨io.ip, rfl⟩, rfl⟩, h.player,
      fun ha => absurd ha (by simp [halarm]), fun _ => hplaying,
      fun ha => absurd ha (by simp [halarm])⟩
  | takeChirp =>
    rw [hpc] at hplace
    unfold IndicatorTask.step
    rw [hpc]
    dsimp only
    split_ifs with hquiet
    · cases sh.chirpRequest with
      | none => exact ⟨h.oneVoice, h.test, h.player, hplace⟩
      | some i => exact ⟨h.oneVoice, h.test, h.player, hplace.1, hquiet⟩
    · exact ⟨h.oneVoice, h.test, h.player, hplace⟩
  | copyChirp i =>
    rw [hpc] at hplace
    obtain ⟨hsaid, hquiet⟩ := hplace
    unfold IndicatorTask.step
    rw [hpc]
    dsimp only
    cases sh.tones[i]? with
    | none =>
      obtain ⟨hsuppress, htesting, hplaying⟩ := quiet_iff.mp hquiet
      exact ⟨h.oneVoice, h.test, h.player, hsaid, fun _ => hplaying, fun _ => htesting⟩
    | some next => exact inv_started hsaid hquiet next.tone (.inl rfl)
  | takePreview =>
    rw [hpc] at hplace
    unfold IndicatorTask.step
    rw [hpc]
    dsimp only
    split_ifs with hquiet hrequested
    · exact ⟨h.oneVoice, h.test, h.player, hplace.1, hquiet⟩
    · exact ⟨h.oneVoice, h.test, h.player, hplace⟩
    · exact ⟨h.oneVoice, h.test, h.player, hplace⟩
  | copyPreview =>
    rw [hpc] at hplace
    unfold IndicatorTask.step
    rw [hpc]
    exact inv_started hplace.1 hplace.2 sh.preview (.inr rfl)
  | setBuzzer tone =>
    rw [hpc] at hplace
    unfold IndicatorTask.step
    rw [hpc]
    exact ⟨h.oneVoice, h.test, h.player, hplace.1.remembers⟩
  | _ =>
    -- the other steps touch neither a voice nor a message
    rw [hpc] at hplace
    unfold IndicatorTask.step
    rw [hpc]
    exact ⟨h.oneVoice, h.test, h.player, hplace⟩

end IndicatorTask

theorem alarmTextFor_message (inputAlarms : Mask) (ip : Option (List Byte)) :
    AlarmMessage (alarmTextFor inputAlarms ip) := by
  have hsize : 16 ≤ indicatorInputAlarmTextMax := by decide
  obtain ⟨text, htext, -⟩ := indicatorAlarmText_cases ip hsize
  unfold alarmTextFor
  split_ifs with hinputs
  · exact .inr ⟨inputAlarms, hinputs, rfl⟩
  · exact .inl ⟨ip, _, hsize, by rw [htext]; rfl⟩

theorem testText_message (ip : Option (List Byte)) : AlarmMessage (testText ip) := by
  obtain ⟨text, htext, -⟩ := indicatorAlarmText_cases ip le_rfl
  exact .inl ⟨ip, 16, le_rfl, by rw [testText, htext]; rfl⟩

/-- What is to sound in a pass: the message of the alarm, over and over with a
pause, the one round of a test, or the note of the tone that plays. -/
structure Sounds (nowUs : ℕ) (wantFreq : BitVec 16) (t : IndicatorTask) (tone : Bool)
    (freq : BitVec 16) : Prop where
  oneVoice : [t.alarm, t.testing, t.player.playing].count true ≤ 1
  alarm : t.alarm = true → freq = wantFreq ∧
    ∃ ip, readBack t.segs = some (alarmTextFor t.inputAlarms ip) ∧
      (tone = true ↔ OnAt t.segs ((elapsedMs nowUs t.alarmStartUs).toNat %
        (total (segLength morseUnitMs) t.segs + 5000)))
  test : t.testing = true → freq = wantFreq ∧ ∃ ip, readBack t.segs = some (testText ip) ∧
    (tone = true ↔ OnAt t.segs (elapsedMs nowUs t.testStartUs).toNat)
  player : t.player.playing = true → ∃ pitch,
    (find RtttlNote.length t.player.tone.notes (t.nowMs - t.player.startMs).toNat).bind
      RtttlNote.pitch = pitch ∧ tone = pitch.isSome ∧ freq = pitch.getD wantFreq
  silent : t.alarm = false → t.testing = false → t.player.playing = false → tone = false

namespace IndicatorTask

variable {t : IndicatorTask}

/-- A player that has not got to its end yet returns the note, at its end none. -/
theorem step_pitch (p : TonePlayer) (now : BitVec 32) (hplaying : p.playing = true)
    (hlen : p.lenMs = rtttlDurationMs p.tone.notes) :
    (p.tonePlayerStep now).2 =
      (find RtttlNote.length p.tone.notes (now - p.startMs).toNat).bind RtttlNote.pitch := by
  unfold TonePlayer.tonePlayerStep
  dsimp only
  split_ifs with hstopped hend
  · simp [hplaying] at hstopped
  · rw [hlen, BitVec.le_def, rtttlDurationMs_toNat] at hend
    rw [find_eq_none hend]
    rfl
  · exact rtttlToneAt_eq _ _

theorem count_voices (h : t.Inv) (hyielding : t.Yielding) :
    [t.alarm, t.testing, t.player.playing].count true ≤ 1 := by
  obtain ⟨hstopped, htested⟩ := hyielding
  cases halarm : t.alarm with
  | true =>
    rw [htested halarm, hstopped (suppressChirp_iff.mpr (.inr halarm))]
    decide
  | false =>
    cases htesting : t.testing with
    | true =>
      rw [h.oneVoice htesting]
      decide
    | false => cases t.player.playing <;> decide

/-- The test's one round: no tone from its end on. -/
theorem test_tone (ip : Option (List Byte)) (elapsed : BitVec 32) :
    (decide (elapsed < morseDurationMs (morseEncode (testText ip) maxSegs) morseUnitMs) &&
      morseToneAt (morseEncode (testText ip) maxSegs) morseUnitMs 0 elapsed) = true ↔
      OnAt (morseEncode (testText ip) maxSegs) elapsed.toNat := by
  have hlt := (testText_message ip).segs.2
  have htotal := morseDurationMs_toNat (by omega :
    total (segLength morseUnitMs) (morseEncode (testText ip) maxSegs) < 2 ^ 32)
  have hround : total (segLength morseUnitMs) (morseEncode (testText ip) maxSegs) +
      (0 : BitVec 32).toNat < 2 ^ 32 := by
    rw [show (0 : BitVec 32).toNat = 0 from rfl]
    omega
  have htone := morseToneAt_iff hround elapsed
  rw [Bool.and_eq_true, decide_eq_true_iff, htone, BitVec.lt_def, htotal]
  constructor
  · rintro ⟨hbefore, hon⟩
    rwa [show (0 : BitVec 32).toNat = 0 from rfl, Nat.add_zero, Nat.mod_eq_of_lt hbefore] at hon
  · rintro ⟨i, seg, hseg, hon, hcovers⟩
    have hbefore : elapsed.toNat <
        total (segLength morseUnitMs) (morseEncode (testText ip) maxSegs) := by
      by_contra hle
      have hnone := find_eq_none (Nat.not_lt.mp hle)
      rw [find_of_covers hseg hcovers] at hnone
      cases hnone
    refine ⟨hbefore, i, seg, hseg, hon, ?_⟩
    rwa [show (0 : BitVec 32).toNat = 0 from rfl, Nat.add_zero, Nat.mod_eq_of_lt hbefore]

theorem sound_sounds (h : t.Inv) {wantFreq : BitVec 16} (hpc : t.pc = .sound wantFreq)
    (nowUs : ℕ) : ∃ tone freq, (t.sound nowUs wantFreq).pc = .setFreq tone freq ∧
      Sounds nowUs wantFreq t tone freq := by
  have hplace := h.place
  rw [hpc] at hplace
  obtain ⟨hsaid, hyielding⟩ := hplace
  have hcount := count_voices h hyielding
  unfold IndicatorTask.sound
  cases halarm : t.alarm with
  | true =>
    rw [if_pos rfl]
    obtain ⟨ip, hsegs⟩ := hsaid.2.2 halarm
    have htesting := hyielding.2 halarm
    have hplaying := hyielding.1 (suppressChirp_iff.mpr (.inr halarm))
    have hmessage := (alarmTextFor_message t.inputAlarms ip).segs
    refine ⟨_, _, rfl, hcount, fun _ => ⟨rfl, ip, ?_⟩, fun ht => absurd ht (by simp [htesting]),
      fun hp => absurd hp (by simp [hplaying]), fun ha => absurd ha (by simp [halarm])⟩
    rw [hsegs]
    exact ⟨hmessage.1, morseToneAt_iff hmessage.2 _⟩
  | false =>
    rw [if_neg Bool.false_ne_true]
    cases htesting : t.testing with
    | true =>
      rw [if_pos rfl]
      obtain ⟨⟨ip, hsegs⟩, hlen⟩ := h.test htesting
      have hplaying := h.oneVoice htesting
      refine ⟨decide (elapsedMs nowUs t.testStartUs < t.testLenMs) &&
        morseToneAt t.segs morseUnitMs 0 (elapsedMs nowUs t.testStartUs), wantFreq, ?_, hcount,
        fun ha => absurd ha (by simp [halarm]), fun _ => ⟨rfl, ip, ?_⟩,
        fun hp => absurd hp (by simp [hplaying]), fun _ ht => absurd ht (by simp [htesting])⟩
      · dsimp only
        split_ifs with hend
        · rw [decide_eq_false (BitVec.not_lt.mpr hend)]
          rfl
        · rw [decide_eq_true (BitVec.not_le.mp hend)]
          rfl
      · rw [hlen, hsegs]
        exact ⟨(testText_message ip).segs.1, test_tone ip _⟩
    | false =>
      rw [if_neg Bool.false_ne_true]
      refine ⟨_, _, rfl, hcount, fun ha => absurd ha (by simp [halarm]),
        fun ht => absurd ht (by simp [htesting]), fun hp => ⟨_, rfl, ?_⟩, fun _ _ hp => ?_⟩
      · rw [step_pitch t.player t.nowMs hp (h.player hp)]
        exact ⟨rfl, rfl⟩
      · rw [TonePlayer.tonePlayerStep, hp]
        rfl

end IndicatorTask

namespace Indicator

variable {τ : Type} [DecidableEq τ]

theorem step_task (s : Indicator τ) (h : s.task.Inv) (a : IndicatorAction τ) :
    (s.step a).task.Inv := by
  cases a with
  | pass io => exact IndicatorTask.step_inv h io s.nowUs s.shared
  | call u c =>
    unfold step
    dsimp only
    split
    · exact h
    · exact h
  | _ => exact h

theorem task_inv (cfg : IndicatorConfig) (nowUs : ℕ) (as : List (IndicatorAction τ)) :
    (run step (start cfg nowUs) as).task.Inv :=
  run_invariant step (I := fun s => s.task.Inv) (P := fun _ _ => True) _
    (IndicatorTask.created_inv cfg) (fun s a h _ => step_task s h a) as fun _ _ => trivial

/-- Whatever the other tasks do between the steps of a pass, at most one of an
alarm, a test and a tone has the buzzer, and what it sounds is right. -/
theorem one_voice_sounds (cfg : IndicatorConfig) (nowUs : ℕ) (as : List (IndicatorAction τ))
    (wantFreq : BitVec 16) (io : IndicatorIo)
    (hpc : (run step (start cfg nowUs) as).task.pc = .sound wantFreq) :
    ∃ tone freq, (run step (start cfg nowUs) (as ++ [.pass io])).task.pc = .setFreq tone freq ∧
      Sounds (run step (start cfg nowUs) as).nowUs wantFreq (run step (start cfg nowUs) as).task
        tone freq := by
  obtain ⟨tone, freq, hnext, hsounds⟩ := IndicatorTask.sound_sounds (task_inv cfg nowUs as) hpc
    (run step (start cfg nowUs) as).nowUs
  refine ⟨tone, freq, ?_, hsounds⟩
  rw [run_snoc]
  show ((run step (start cfg nowUs) as).task.step io _ _).2.pc = _
  rw [IndicatorTask.step_sound hpc]
  exact hnext

def bilgeAlarm : IndicatorConfig where
  ledBrightness := 50
  buzzerOnAlarm := false
  publishSwitchesTree := true
  publishControlsTree := false
  buzzerFreqHz := 2400
  buzzerOnEvent := true
  alarm := fun _ => .alarm
  alarmBuzz := fun i => i.val == 2
  tonePatterns := none
  toneName := fun _ => []

def bilgeIo : IndicatorIo := ⟨0, true, some (ascii "192.168.1.7"), true⟩

/-- The input comes on while a test sounds. -/
def bilgeRun : List (IndicatorAction Bool) :=
  [.started, .call true .testBuzzer] ++ List.replicate 4 (.go true) ++
    List.replicate 17 (.pass bilgeIo) ++ [.call false (.setInputs 4)] ++
    List.replicate 14 (.pass bilgeIo)

theorem one_voice_sounds_bilgeRun :
    (run step (start bilgeAlarm 0) bilgeRun).task.pc = .sound 2400 ∧
    (run step (start bilgeAlarm 0) bilgeRun).task.alarm = true ∧
    ∃ tone freq, (run step (start bilgeAlarm 0) (bilgeRun ++ [.pass bilgeIo])).task.pc =
        .setFreq tone freq ∧
      Sounds (run step (start bilgeAlarm 0) bilgeRun).nowUs 2400
        (run step (start bilgeAlarm 0) bilgeRun).task tone freq := by
  have hpc : (run step (start bilgeAlarm 0) bilgeRun).task.pc = .sound 2400 := by decide +kernel
  exact ⟨hpc, by decide +kernel, one_voice_sounds bilgeAlarm 0 bilgeRun 2400 bilgeIo hpc⟩

end Indicator

end RelayBoard
