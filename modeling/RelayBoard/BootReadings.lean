import RelayBoard.InputOverrides

/-!
# First settled readings

An input that is still bouncing when start-up gives up waiting reads off for the
time being, and its first settled reading is to count as the reading at boot. But
after start-up a relay hears of its input only when the stored reading changes,
and a late reading of off changes nothing.
-/

set_option autoImplicit false

namespace RelayBoard
open BitVec Lib.Runs Lib.Clock

def pollAll (samples : List (ℕ × Mask)) : List SenseOp := samples.map fun p => .poll p.2 p.1

/-- The call takes up the first settled reading of the input. -/
def FirstReading (i : Channel) (past : List (InputSense × SenseOp)) (s : InputSense)
    (op : SenseOp) : Prop := TakesUp i s op ∧ ¬HasSettled i past

instance (i : Channel) (past : List (InputSense × SenseOp)) (s : InputSense) (op : SenseOp) :
    Decidable (FirstReading i past s op) := inferInstanceAs (Decidable (_ ∧ _))

/-- Without saves, an input that has not settled yet reads off. -/
structure Unmoved (cfg : SenseCfg) (s : InputSense) : Prop where
  settings : s.cfg = cfg
  off : s.ready = true → ∀ i, s.late.has i = true → s.stable.has i = false

theorem Unmoved.poll {cfg : SenseCfg} {s : InputSense} (h : Unmoved cfg s) (raw : Mask) (now : Ms) :
    Unmoved cfg (s.inputSensePoll raw now).1 := by
  refine ⟨(s.poll_frame raw now).1.trans h.settings, ?_⟩
  rcases s.poll_cases raw now with ⟨-, -, hpoll⟩ | ⟨-, -, hpoll⟩ | ⟨hon, hpoll⟩ <;> rw [hpoll]
  · exact h.off
  · intro _ i hlate
    change (~~~(s.sample raw now).settled now).has i = true at hlate
    change ((s.sample raw now).settledValue now).has i = false
    rw [has_not, Bool.not_eq_true'] at hlate
    rw [InputSense.has_settledValue, hlate, Bool.false_and]
  · intro _ i hlate
    rw [InputSense.takeUp_late, has_and, has_not, Bool.and_eq_true, Bool.not_eq_true'] at hlate
    rw [InputSense.takeUp_stable, hlate.2, if_neg Bool.false_ne_true]
    exact h.off hon i hlate.1

theorem run_unmoved (cfg : SenseCfg) (first : ℕ × Mask) (samples : List (ℕ × Mask)) :
    Unmoved cfg (senseRun cfg first (pollAll samples)) := by
  induction samples using List.reverseRecOn with
  | nil => exact ⟨rfl, fun hon => absurd hon Bool.false_ne_true⟩
  | append_singleton samples p ih =>
    rw [pollAll, List.map_append, senseRun, List.map_singleton, run_snoc]
    exact ih.poll p.2 (reading 32 p.1)

/-- A settled reading that is taken up is published. -/
theorem published_of_takesUp {s : InputSense} (h : s.Shows) {raw : Mask} {t : ℕ} {i : Channel}
    (htakes : TakesUp i s (.poll raw t)) :
    (s.step (.poll raw t)).published.has i = readInput s.cfg raw i := by
  obtain ⟨hready, hs⟩ := htakes
  rw [(h.step (.poll raw t)).shown hready]
  change (s.inputSensePoll raw (reading 32 t)).1.ready = true at hready
  change (s.inputSensePoll raw (reading 32 t)).1.stable.has i = _
  rcases s.poll_cases raw (reading 32 t) with ⟨hdark, -, hpoll⟩ | ⟨-, -, hpoll⟩ | ⟨-, hpoll⟩
  · rw [hpoll] at hready
    exact absurd (hdark.symm.trans hready) Bool.false_ne_true
  · rw [hpoll]
    change ((s.sample raw (reading 32 t)).settledValue (reading 32 t)).has i = _
    rw [InputSense.has_settledValue, hs, Bool.true_and]
    rfl
  · rw [hpoll, InputSense.takeUp_stable, if_pos hs]
    rfl

/-- A follow link gets the first settled reading of its input exactly if that
comes in the poll that ends start-up, or is on. -/
theorem first_reading_followed_iff (cfg : SenseCfg) (first : ℕ × Mask) (samples : List (ℕ × Mask))
    (raw : Mask) (t : ℕ) (r i : Channel) (hlink : cfg.link r = .follow) (hname : cfg.Names r i)
    (hfirst : FirstReading i (sensePast cfg first (pollAll samples))
      (senseRun cfg first (pollAll samples)) (.poll raw t)) :
    InputAction.of (readInput cfg raw i) ∈
        asked r ((senseRun cfg first (pollAll samples)).calls (.poll raw t)) ↔
      ((senseRun cfg first (pollAll samples)).ready = true → readInput cfg raw i = true) := by
  have h := run_recalls cfg first (pollAll samples)
  obtain ⟨hsettings, hoff⟩ := run_unmoved cfg first samples
  generalize senseRun cfg first (pollAll samples) = s at h hsettings hoff hfirst ⊢
  generalize sensePast cfg first (pollAll samples) = past at h hfirst
  subst hsettings
  have hpublished := published_of_takesUp h.toShows hfirst.1
  cases hready : s.ready with
  | false =>
    rw [(follows_starting past raw t hready r).boot hready hfirst.1.1 i hname, if_pos hfirst.1,
      hlink, hpublished]
    simp [InputLink.action]
  | true =>
    have hlate : s.late.has i = true := by
      have hnever := mt (h.settled i).mpr hfirst.2
      simpa [hready] using hnever
    rw [(h.follows_running raw t hready r).after hready i hname, hlink, hpublished,
      h.shown hready, hoff hready i hlate]
    cases readInput s.cfg raw i <;> simp [InputLink.action]

def firstFollows : SenseCfg :=
  { SenseCfg.schemaDefault with overrideDi := fun r => if r.val = 0 then 1 else 0 }

/-- Input 1 still bounces when start-up has waited 1050 ms; all others are off. -/
def bouncing : List (ℕ × Mask) := [(1020, 0xFE#8), (1040, 0xFF#8), (1060, 0xFE#8)]

/-- It settles on, and the relay is switched on. -/
theorem late_on_followed : InputAction.on ∈
    asked 0 ((senseRun firstFollows (0, 0xFF#8) (pollAll bouncing)).calls (.poll 0xFE#8 1120)) :=
  (first_reading_followed_iff firstFollows (0, 0xFF#8) bouncing 0xFE#8 1120 0 0 rfl rfl
    (by decide +kernel)).mpr (fun _ => by decide)

/-- It settles off, and the relay is left as it is. -/
theorem late_off_not_followed :
    FirstReading 0 (sensePast firstFollows (0, 0xFF#8) (pollAll (bouncing ++ [(1070, 0xFF#8)])))
      (senseRun firstFollows (0, 0xFF#8) (pollAll (bouncing ++ [(1070, 0xFF#8)])))
      (.poll 0xFF#8 1120) ∧
    firstFollows.link 0 = .follow ∧ firstFollows.Names 0 0 ∧
    readInput firstFollows 0xFF#8 0 = false ∧
    asked 0 ((senseRun firstFollows (0, 0xFF#8) (pollAll (bouncing ++ [(1070, 0xFF#8)]))).calls
      (.poll 0xFF#8 1120)) = [] := by
  decide +kernel

end RelayBoard
