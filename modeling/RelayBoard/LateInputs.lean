import RelayBoard.InputOverrides

/-!
# Inputs that have not settled yet

When start-up gives up waiting for an input, the input reads off until it
settles. A poll keeps to that. A save that inverts an input flips its stored
reading without asking whether the input has settled, so a late input then
reads on and its listeners are told so.
-/

set_option autoImplicit false

namespace RelayBoard
open BitVec Lib.Runs Lib.Clock

def SenseCall.TellsOn (i : Channel) : SenseCall → Prop
  | .notify j on mask => (j = i ∧ on = true) ∨ mask.has i = true
  | .override _ _ => False

instance (i : Channel) (c : SenseCall) : Decidable (c.TellsOn i) :=
  match c with
  | .notify _ _ _ => inferInstanceAs (Decidable (_ ∨ _))
  | .override _ _ => inferInstanceAs (Decidable False)

def NeverToldOn (i : Channel) (past : List (InputSense × SenseOp)) : Prop :=
  ∀ e ∈ past, ∀ c ∈ e.1.calls e.2, ¬c.TellsOn i

/-- Once ready, an input that has not settled is late, and off for everyone. -/
def LateReadsOff (s : InputSense) (past : List (InputSense × SenseOp)) : Prop :=
  s.ready = true → ∀ i, ¬HasSettled i past →
    s.late.has i = true ∧ s.stable.has i = false ∧ s.published.has i = false ∧
      NeverToldOn i past

/-- The call inverts no late input of a device that is ready. -/
def SparesLate (s : InputSense) : SenseOp → Prop
  | .poll _ _ => True
  | .save cfg => s.ready = true → ∀ i, s.late.has i = true → cfg.invert i = s.cfg.invert i

instance (s : InputSense) (op : SenseOp) : Decidable (SparesLate s op) :=
  match op with
  | .poll _ _ => inferInstanceAs (Decidable True)
  | .save _ => inferInstanceAs (Decidable (_ → _))

def SenseCall.Carries (mask : Mask) : SenseCall → Prop
  | .notify j on m => m = mask ∧ on = mask.has j
  | .override _ _ => True

theorem notifyInputs_carries (which stable : Mask) :
    ∀ c ∈ notifyInputs which stable, c.Carries stable := by
  intro c hc
  obtain ⟨i, -, rfl⟩ := List.mem_map.mp hc
  exact ⟨rfl, rfl⟩

theorem applyOverride_carries (mask : Mask) (cfg : SenseCfg) (i : Channel) (on boot : Bool) :
    ∀ c ∈ applyOverride cfg i on boot, c.Carries mask := by
  intro c hc
  obtain ⟨r, -, hr⟩ := List.mem_flatMap.mp hc
  cases c with
  | override _ _ => trivial
  | notify _ _ _ =>
    by_cases hnamed : cfg.overrideDi r ≠ i.val + 1
    · rw [if_pos hnamed] at hr
      simp at hr
    · rw [if_neg hnamed] at hr
      cases hlink : cfg.link r <;> simp [hlink] at hr

namespace InputSense

variable (s : InputSense)

theorem startUp_carries (now : Ms) :
    ∀ c ∈ (s.startUp now).2, c.Carries (s.startUp now).1.stable := by
  intro c hc
  rcases List.mem_append.mp hc with hc | hc
  · exact notifyInputs_carries _ _ c hc
  · obtain ⟨i, -, hi⟩ := List.mem_flatMap.mp hc
    exact applyOverride_carries _ _ _ _ _ c hi

theorem takeUp_carries (now : Ms) :
    ∀ c ∈ (s.takeUp now).2, c.Carries (s.takeUp now).1.stable := by
  intro c hc
  rw [takeUp_calls] at hc
  obtain ⟨i, -, hi⟩ := List.mem_flatMap.mp hc
  rcases List.mem_cons.mp hi with rfl | hi
  · exact ⟨rfl, rfl⟩
  · exact applyOverride_carries _ _ _ _ _ c hi

theorem save_carries (cfg : SenseCfg) : ∀ c ∈ (s.inputSenseUpdateConfig cfg).2,
    c.Carries (s.inputSenseUpdateConfig cfg).1.stable := by
  unfold inputSenseUpdateConfig
  dsimp only
  split_ifs
  · simp
  · exact notifyInputs_carries _ _

/-- Nobody is told anything before readiness, and after it only what is stored. -/
theorem calls_carry (op : SenseOp) : ∀ c ∈ s.calls op,
    (s.step op).ready = true ∧ c.Carries (s.step op).stable := by
  intro c hc
  cases op with
  | poll raw t =>
    change c ∈ (s.inputSensePoll raw (reading 32 t)).2 at hc
    change (s.inputSensePoll raw (reading 32 t)).1.ready = true ∧
      c.Carries (s.inputSensePoll raw (reading 32 t)).1.stable
    rcases s.poll_cases raw (reading 32 t) with ⟨-, -, hpoll⟩ | ⟨-, -, hpoll⟩ | ⟨hon, hpoll⟩ <;>
      rw [hpoll] at hc ⊢
    · simp at hc
    · exact ⟨rfl, startUp_carries _ _ c hc⟩
    · exact ⟨(takeUp_frame _ _).2.2.2.2.trans hon, takeUp_carries _ _ c hc⟩
  | save cfg =>
    refine ⟨(s.save_frame cfg).2.2.2.2.trans ?_, s.save_carries cfg c hc⟩
    by_contra hdark
    have hnone : (s.inputSenseUpdateConfig cfg).2 = [] := by
      unfold inputSenseUpdateConfig
      dsimp only
      rw [if_pos (Or.inr (Bool.eq_false_iff.mpr hdark))]
    change c ∈ (s.inputSenseUpdateConfig cfg).2 at hc
    rw [hnone] at hc
    simp at hc

/-- Whoever is told that an input is on finds it on. -/
theorem stable_of_tellsOn (op : SenseOp) {i : Channel} {c : SenseCall} (hc : c ∈ s.calls op)
    (htells : c.TellsOn i) : (s.step op).ready = true ∧ (s.step op).stable.has i = true := by
  obtain ⟨hready, hcarries⟩ := s.calls_carry op c hc
  refine ⟨hready, ?_⟩
  cases c with
  | override _ _ => exact htells.elim
  | notify j on mask =>
    obtain ⟨rfl, rfl⟩ := hcarries
    rcases htells with ⟨rfl, hon⟩ | hmask
    · exact hon
    · exact hmask

/-- An input that has not settled keeps reading off over a call that spares it. -/
theorem stable_of_spared {op : SenseOp} (hspares : SparesLate s op) {i : Channel}
    (hready : (s.step op).ready = true) (hlate : (s.step op).late.has i = true)
    (hbefore : s.ready = true → s.late.has i = true ∧ s.stable.has i = false) :
    (s.step op).stable.has i = false := by
  cases op with
  | poll raw t =>
    change (s.inputSensePoll raw (reading 32 t)).1.ready = true at hready
    change (s.inputSensePoll raw (reading 32 t)).1.late.has i = true at hlate
    change (s.inputSensePoll raw (reading 32 t)).1.stable.has i = false
    rcases s.poll_cases raw (reading 32 t) with ⟨hdark, -, hpoll⟩ | ⟨-, -, hpoll⟩ | ⟨hon, hpoll⟩ <;>
      rw [hpoll] at hready hlate ⊢
    · exact absurd (hdark.symm.trans hready) Bool.false_ne_true
    · change (~~~(s.sample raw _).settled _).has i = true at hlate
      change ((s.sample raw _).settledValue _).has i = false
      rw [has_not, Bool.not_eq_true'] at hlate
      rw [has_settledValue, hlate, Bool.false_and]
    · rw [takeUp_late, has_and, has_not, Bool.and_eq_true, Bool.not_eq_true'] at hlate
      rw [takeUp_stable, hlate.2, if_neg Bool.false_ne_true]
      exact (hbefore hon).2
  | save cfg =>
    have hon : s.ready = true := (s.save_frame cfg).2.2.2.2.symm.trans hready
    obtain ⟨hpending, hoff⟩ := hbefore hon
    change (s.inputSenseUpdateConfig cfg).1.stable.has i = false
    rw [save_stable, if_pos hon, has_xor, hoff, has_flipped, hspares hon i hpending]
    simp

end InputSense

/-- What is known of the inputs that have not settled, at readiness or before. -/
structure Spared (s : InputSense) (past : List (InputSense × SenseOp)) : Prop
    extends Recalls s past where
  off : s.ready = true → ∀ i, ¬HasSettled i past → s.stable.has i = false
  quiet : ∀ i, ¬HasSettled i past → NeverToldOn i past

namespace Spared

variable {s : InputSense} {past : List (InputSense × SenseOp)}

theorem late (h : Spared s past) (hready : s.ready = true) {i : Channel}
    (hnever : ¬HasSettled i past) : s.late.has i = true := by
  have hlate := mt (h.settled i).mpr hnever
  simpa [hready] using hlate

theorem lateReadsOff (h : Spared s past) : LateReadsOff s past := by
  intro hready i hnever
  refine ⟨h.late hready hnever, h.off hready i hnever, ?_, h.quiet i hnever⟩
  rw [h.shown hready]
  exact h.off hready i hnever

theorem step (h : Spared s past) {op : SenseOp} (hspares : SparesLate s op) :
    Spared (s.step op) ((s, op) :: past) := by
  have hrecalls := h.toRecalls.step op
  have hpast : ∀ i, ¬HasSettled i ((s, op) :: past) → ¬HasSettled i past := by
    intro i hnever hsettled
    exact hnever ((hasSettled_cons i s op past).mpr (Or.inr hsettled))
  have hoff : (s.step op).ready = true → ∀ i, ¬HasSettled i ((s, op) :: past) →
      (s.step op).stable.has i = false := by
    intro hready i hnever
    have hlate : (s.step op).late.has i = true := by
      have hunsettled := mt (hrecalls.settled i).mpr hnever
      simpa [hready] using hunsettled
    refine s.stable_of_spared hspares hready hlate (fun hon => ?_)
    exact ⟨h.late hon (hpast i hnever), h.off hon i (hpast i hnever)⟩
  refine ⟨hrecalls, hoff, fun i hnever e he c hc htells => ?_⟩
  rcases List.mem_cons.mp he with rfl | he
  · obtain ⟨hready, hon⟩ := s.stable_of_tellsOn op hc htells
    exact absurd ((hoff hready i hnever).symm.trans hon) Bool.false_ne_true
  · exact h.quiet i (hpast i hnever) e he c hc htells

/-- A late input that still reads off was not inverted. -/
theorem spares_of_step (h : Spared s past) {op : SenseOp}
    (hstep : LateReadsOff (s.step op) ((s, op) :: past)) : SparesLate s op := by
  cases op with
  | poll _ _ => trivial
  | save cfg =>
    intro hready i hlate
    have hnever : ¬HasSettled i past := by
      rw [h.settled, hlate]
      simp
    have hstays : (s.step (.save cfg)).ready = true := (s.save_frame cfg).2.2.2.2.trans hready
    have hnow : ¬HasSettled i ((s, .save cfg) :: past) := by
      rw [hasSettled_cons]
      exact fun hsettles => hsettles.elim id hnever
    have hoff := (hstep hstays i hnow).2.1
    change (s.inputSenseUpdateConfig cfg).1.stable.has i = false at hoff
    rw [InputSense.save_stable, if_pos hready, has_xor, h.off hready i hnever,
      InputSense.has_flipped] at hoff
    simpa using hoff

end Spared

/-- Late inputs read off all along exactly if no save inverts one of them. -/
theorem late_reads_off_iff (cfg : SenseCfg) (first : ℕ × Mask) (ops : List SenseOp) :
    (∀ js, js <+: ops → LateReadsOff (senseRun cfg first js) (sensePast cfg first js)) ↔
      ∀ e ∈ sensePast cfg first ops, SparesLate e.1 e.2 := by
  refine prefixes_iff_history_past InputSense.step (A := fun _ => True) (I := Spared) _ ?_
    (fun _ _ h => h.lateReadsOff) (fun _ _ _ _ h => h.step) (fun _ _ _ _ h => h.spares_of_step)
    ops (fun _ _ => trivial)
  refine ⟨run_recalls cfg first [], fun hready => absurd hready Bool.false_ne_true, ?_⟩
  exact fun _ _ e he => absurd he (List.not_mem_nil)

/-- Start-up gives up on input 1, which bounces, and the input is then inverted. -/
def invertsBouncing : List SenseOp :=
  [.poll 0xFE#8 1020, .poll 0xFF#8 1040, .poll 0xFE#8 1060,
    .save { SenseCfg.schemaDefault with invert := fun i => decide (i.val = 0) }]

theorem inverted_late_reads_on :
    ¬LateReadsOff (senseRun .schemaDefault (0, 0xFF#8) invertsBouncing)
      (sensePast .schemaDefault (0, 0xFF#8) invertsBouncing) := by
  intro h
  have hoff := (h (by decide +kernel) 0 (by decide +kernel)).2.1
  exact absurd hoff (by decide +kernel)

end RelayBoard
