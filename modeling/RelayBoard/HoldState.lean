import RelayBoard.RelayInit

/-!
# The stored hold state

While no save is pending the store holds what a power cut has to restore.
Every change of a coil with a hold policy, and every change of the policies,
raises the flag; only a save that went through lowers it. A pending save is
attempted by the first tick that finds the last attempt long enough ago, on
the clock as the code reads it.
-/

set_option autoImplicit false

namespace RelayBoard
open BitVec Lib.Loops Lib.Runs Lib.Clock

/-- With no save pending, the store restores the coils that hold. -/
def World.Stored (w : World) : Prop :=
  w.s.savePending = false →
    w.env.stored.getD 0#8 &&& holdMask w.s.cfg = w.s.mask &&& holdMask w.s.cfg

def saveDue (w : World) : Bool :=
  w.s.savePending && relayCtrlSaveDelayMs ≤ nowMs w.env - w.s.lastSaveMs

theorem moved_stored {w w' : World} (h : Moved w w') (hw : w.Stored) : w'.Stored := by
  intro hsave
  obtain ⟨hpending, hmask⟩ := h.save hsave
  rw [h.env.stored, h.cfg, hmask]
  exact hw hpending

theorem moved_pending {w w' : World} (h : Moved w w') (hw : w.s.savePending = true) :
    w'.s.savePending = true := by
  rw [← Bool.not_eq_false]
  intro hsave
  rw [(h.save hsave).1] at hw
  cases hw

theorem applyConfig_stored (cfg : DeviceConfig) (w : World) (h : w.Stored) :
    (applyConfig cfg w).Stored := by
  intro hsave
  rw [applyConfig_savePending, Bool.or_eq_false_iff, decide_eq_false_iff_not, ne_eq,
    Decidable.not_not] at hsave
  rw [applyConfig_env, applyConfig_mask, applyConfig_cfg, hsave.2]
  exact h hsave.1

theorem saveHold_saves (w : World) : (saveHold w).env.saves =
      w.env.saves ++ (if saveDue w then [w.s.mask &&& holdMask w.s.cfg] else []) ∧
    (saveHold w).s.lastSaveMs = if saveDue w then nowMs w.env else w.s.lastSaveMs := by
  obtain ⟨r, hr, -⟩ := storeSave_eq (w.s.mask &&& holdMask w.s.cfg) w.env
  have hcond : (w.s.savePending &&
    decide (relayCtrlSaveDelayMs ≤ nowMs w.env - w.s.lastSaveMs)) = saveDue w := rfl
  unfold saveHold
  dsimp only
  rw [hcond, hr]
  cases saveDue w
  · simp
  · cases r <;> simp

theorem saveHold_stored (w : World) (h : w.Stored) : (saveHold w).Stored := by
  obtain ⟨r, hr, -⟩ := storeSave_eq (w.s.mask &&& holdMask w.s.cfg) w.env
  have hcond : (w.s.savePending &&
    decide (relayCtrlSaveDelayMs ≤ nowMs w.env - w.s.lastSaveMs)) = saveDue w := rfl
  unfold saveHold
  dsimp only
  rw [hcond, hr]
  cases hdue : saveDue w
  · exact h
  · cases r with
    | error e =>
      intro hsave
      have hpending : w.s.savePending = false := hsave
      rw [saveDue, hpending] at hdue
      cases hdue
    | ok u =>
      intro _
      change (some (w.s.mask &&& holdMask w.s.cfg)).getD 0#8 &&& holdMask w.s.cfg = _
      rw [Option.getD_some, BitVec.and_assoc, BitVec.and_self]
      rfl

def attemptsSave (e : Entry) : Bool := !(step e.1 e.2).env.saves.isEmpty

def lastAttempt (past : List Entry) : Option ℕ :=
  (past.find? attemptsSave).map fun e => e.2.time

/-- The value of `last_save_ms` after a boot at `t₀` and the calls of `past`. -/
def lastSaveReading (t₀ : ℕ) (past : List Entry) : Ms :=
  match lastAttempt past with
  | some t => reading 32 t
  | none => reading 32 t₀ - relayCtrlSaveDelayMs

structure Holding (t₀ : ℕ) (w : World) (past : List Entry) : Prop where
  stored : w.Stored
  last : w.s.lastSaveMs = lastSaveReading t₀ past

theorem lastSaveReading_cons (t₀ : ℕ) (w : World) (c : Call) (past : List Entry) :
    lastSaveReading t₀ ((w, c) :: past) =
      if (step w c).env.saves = [] then lastSaveReading t₀ past else reading 32 c.time := by
  unfold lastSaveReading lastAttempt
  rw [List.find?_cons, attemptsSave]
  dsimp only
  cases hs : (step w c).env.saves with
  | nil => simp
  | cons m ms => simp

/-- The world in which a tick comes to the store. -/
def beforeSave (w : World) : World := (firePending (timedOut w)).2

theorem tick_saves (w : World) (c : Call) (hop : c.op = .tick) :
    (step w c).env.saves = (if saveDue (beforeSave (w.begin c)) then
      [(step w c).s.mask &&& holdMask w.s.cfg] else []) ∧
    (step w c).s.lastSaveMs =
      (if saveDue (beforeSave (w.begin c)) then reading 32 c.time else w.s.lastSaveMs) := by
  have hm := fired_moved (w.begin c)
  obtain ⟨hsaves, hlast⟩ := saveHold_saves (beforeSave (w.begin c))
  have hstep : step w c = saveHold (beforeSave (w.begin c)) := by
    rw [step, result, hop]
    exact tick_world _
  have hnone : (beforeSave (w.begin c)).env.saves = [] := hm.env.saves
  have hcfg : (beforeSave (w.begin c)).s.cfg = w.s.cfg := hm.cfg
  have hnow : nowMs (beforeSave (w.begin c)).env = reading 32 c.time := hm.nowMs
  have hkept : (beforeSave (w.begin c)).s.lastSaveMs = w.s.lastSaveMs := hm.lastSaveMs
  rw [hstep, saveHold_mask, hsaves, hlast, hnone, hcfg, hnow, hkept]
  exact ⟨rfl, rfl⟩

/-- No other call touches the store. -/
theorem step_unsaved (w : World) (c : Call) (hop : c.op.running = true)
    (htick : c.op.isTick = false) :
    (step w c).env.saves = [] ∧ (step w c).s.lastSaveMs = w.s.lastSaveMs := by
  obtain ⟨op, time, faults, saveErr⟩ := c
  cases op with
  | init cfg => cases hop
  | set channel on src =>
    have hm := (setOrToggle_wrote channel (some on) src
      (w.begin ⟨.set channel on src, time, faults, saveErr⟩)).toMoved
    exact ⟨hm.env.saves, hm.lastSaveMs⟩
  | toggle channel src =>
    have hm := (setOrToggle_wrote channel none src
      (w.begin ⟨.toggle channel src, time, faults, saveErr⟩)).toMoved
    exact ⟨hm.env.saves, hm.lastSaveMs⟩
  | tick => cases htick
  | skLost =>
    have hm := (skLost_wrote (w.begin ⟨.skLost, time, faults, saveErr⟩)).toMoved
    exact ⟨hm.env.saves, hm.lastSaveMs⟩
  | updateConfig cfg =>
    have hm := (resolveConflict_wrote
      (applyConfig cfg (w.begin ⟨.updateConfig cfg, time, faults, saveErr⟩))).toMoved
    exact ⟨hm.env.saves, hm.lastSaveMs.trans (applyConfig_lastSaveMs cfg _)⟩

theorem step_stored (w : World) (c : Call) (hop : c.op.running = true) (h : w.Stored) :
    (step w c).Stored := by
  have hb : (w.begin c).Stored := h
  obtain ⟨op, time, faults, saveErr⟩ := c
  cases op with
  | init cfg => cases hop
  | set channel on src => exact moved_stored (setOrToggle_wrote channel (some on) src _).toMoved hb
  | toggle channel src => exact moved_stored (setOrToggle_wrote channel none src _).toMoved hb
  | tick =>
    change (relayCtrlTick _).1.Stored
    rw [tick_world]
    exact saveHold_stored _ (moved_stored (fired_moved _) hb)
  | skLost => exact moved_stored (skLost_wrote _).toMoved hb
  | updateConfig cfg =>
    change (relayCtrlUpdateConfig cfg _).1.Stored
    rw [updateConfig_world]
    exact moved_stored (resolveConflict_wrote _).toMoved (applyConfig_stored cfg _ hb)

theorem step_holding (t₀ : ℕ) (w : World) (past : List Entry) (c : Call) (h : Holding t₀ w past)
    (hop : c.op.running = true) : Holding t₀ (step w c) ((w, c) :: past) := by
  refine ⟨step_stored w c hop h.stored, ?_⟩
  rw [lastSaveReading_cons, ← h.last]
  cases htick : c.op.isTick
  · obtain ⟨hsaves, hlast⟩ := step_unsaved w c hop htick
    rw [hsaves, hlast, if_pos rfl]
  · obtain ⟨hsaves, hlast⟩ := tick_saves w c (eq_tick_of_isTick htick)
    rw [hsaves, hlast]
    cases saveDue (beforeSave (w.begin c))
    · simp
    · simp

theorem cold_boot_mask (chip : Chip) (stored : Option Mask) (health : HealthKey → Health)
    (cfg : DeviceConfig) (c : Call) (hchip : chip.config ≠ 0x00#8)
    (hstarts : Starts (boot chip stored health) c cfg) :
    (step (boot chip stored health) c).s.mask =
      (clearInterlockConflicts cfg (stored.getD 0#8 &&& holdMask cfg)).1 := by
  have hok := hstarts.ok
  rw [result, hstarts.op] at hok
  rw [step, result, hstarts.op]
  change (relayCtrlInit cfg _).1 = .ok () at hok
  change (relayCtrlInit cfg _).2.s.mask = _
  rcases relayCtrlInit_cases cfg ((boot chip stored health).begin c) with ⟨e, env, -, -, hi⟩ |
    ⟨warm, held, env, wrote, -, -, -, hwarm, hheld, hi⟩
  · rw [hi] at hok
    cases hok
  · obtain rfl : warm = false := by
      rw [← Bool.not_eq_true]
      rintro rfl
      exact hchip ((allOutputs_chip _).2 hwarm)
    rw [hi, booted_mask, hheld rfl]
    rfl

theorem starts_holding {w : World} {c₀ : Call} {cfg : DeviceConfig} (h₀ : Starts w c₀ cfg) :
    Holding c₀.time (step w c₀) [] := by
  obtain ⟨warm, held, env, hsame, -, -, hheld, hs⟩ := h₀.booted
  obtain ⟨health, henv⟩ := booted_env cfg warm held (reading 32 c₀.time) w.s env
  rw [hs]
  -- Nothing pending means a cold boot that switched off no pair.
  refine ⟨fun hsave => ?_, booted_lastSaveMs ..⟩
  rw [booted_savePending, Bool.or_eq_false_iff, decide_eq_false_iff_not, ne_eq,
    Decidable.not_not, eq_zero_iff] at hsave
  obtain ⟨hwarm, hboth⟩ := hsave
  have hstored : (env.showing health).stored = w.env.stored := hsame.stored
  rw [henv, hstored, booted_mask, booted_cfg, ← hheld hwarm]
  apply ext_has
  intro i
  have hi := hboth i
  rw [(clearInterlockConflicts_has cfg _ i).2] at hi
  rw [has_and, has_and, (clearInterlockConflicts_has cfg _ i).1, hi, has_and]
  cases held.has i <;> cases (holdMask cfg).has i <;> rfl

theorem run_holding {w : World} {c₀ : Call} {cfg : DeviceConfig} (h₀ : Starts w c₀ cfg)
    (cs : List Call) (hcs : ∀ c ∈ cs, c.op.running = true) :
    Holding c₀.time (run step (step w c₀) cs) (history step (step w c₀) cs) :=
  run_induction step (I := Holding c₀.time) (P := fun _ c => c.op.running = true) _
    (starts_holding h₀) (fun v past c hv hc => step_holding c₀.time v past c hv hc) cs
    (fun e he => hcs e.2 (input_of_history step _ cs e he))

/-- The time since the last attempt to save at time `t`; a boot at `t₀` counts
as an attempt that lies back by the whole delay. -/
def saveAge (t₀ : ℕ) (past : List Entry) (t : ℕ) : ℕ :=
  match lastAttempt past with
  | some t' => t - t'
  | none => t - t₀ + 5000

theorem lastAttempt_mem {past : List Entry} {t : ℕ} (h : lastAttempt past = some t) :
    ∃ e ∈ past, e.2.time = t := by
  obtain ⟨e, he, rfl⟩ := Option.map_eq_some_iff.mp h
  exact ⟨e, List.mem_of_find?_eq_some he, rfl⟩

theorem saveAge_reading (t₀ : ℕ) (past : List Entry) (t : ℕ) (h₀ : t₀ ≤ t)
    (hpast : ∀ e ∈ past, e.2.time ≤ t) :
    (reading 32 t - lastSaveReading t₀ past).toNat = saveAge t₀ past t % 2 ^ 32 := by
  unfold lastSaveReading saveAge
  cases hl : lastAttempt past with
  | none =>
    have hsub : reading 32 t - (reading 32 t₀ - relayCtrlSaveDelayMs) =
        reading 32 (t - t₀) + relayCtrlSaveDelayMs := by
      rw [sub_sub_eq_add_sub, add_sub_right_comm, reading_sub 32 t t₀ h₀]
      rfl
    dsimp only
    rw [hsub, ← BitVec.toNat_ofNat, BitVec.ofNat_add]
    rfl
  | some t' =>
    obtain ⟨e, he, rfl⟩ := lastAttempt_mem hl
    exact reading_sub_toNat 32 t e.2.time (hpast e he)

/-- While no save is pending a power cut restores the coils that hold; while
one is, each tick saves them exactly if the delay has run out on the clock,
which counts modulo `2 ^ 32`. -/
theorem run_hold_state (w : World) (c₀ : Call) (cfg : DeviceConfig) (h₀ : Starts w c₀ cfg)
    (cs : List Call) (hcs : ∀ c ∈ cs, c.op.running = true) :
    let v := run step (step w c₀) cs
    (v.s.savePending = false → ∀ (chip : Chip) (health : HealthKey → Health) (c : Call),
      chip.config ≠ 0x00#8 → c.op = .init v.s.cfg → c.Reliable →
      (result (boot chip v.env.stored health) c).err = .ok () ∧
      (step (boot chip v.env.stored health) c).s.mask =
        (clearInterlockConflicts v.s.cfg (v.s.mask &&& holdMask v.s.cfg)).1) ∧
    (v.s.savePending = true → ∀ c : Call, c.op = .tick → c₀.time ≤ c.time →
      (∀ d ∈ cs, d.time ≤ c.time) →
      (step v c).env.saves =
        if 5000 ≤ saveAge c₀.time (history step (step w c₀) cs) c.time % 2 ^ 32 then
          [(step v c).s.mask &&& holdMask v.s.cfg] else []) := by
  intro v
  have hI : Holding c₀.time v (history step (step w c₀) cs) := run_holding h₀ cs hcs
  constructor
  · intro hsave chip health c hchip hop hr
    have hstarts : Starts (boot chip v.env.stored health) c v.s.cfg := .of_reliable hop hr
    have hboot := cold_boot_mask chip v.env.stored health v.s.cfg c hchip hstarts
    rw [hI.stored hsave] at hboot
    exact ⟨hstarts.ok, hboot⟩
  · intro hsave c hop hstart hpast
    have hm := fired_moved (v.begin c)
    have hpending : (beforeSave (v.begin c)).s.savePending = true := moved_pending hm hsave
    have hnow : nowMs (beforeSave (v.begin c)).env = reading 32 c.time := hm.nowMs
    have hlast : (beforeSave (v.begin c)).s.lastSaveMs = v.s.lastSaveMs := hm.lastSaveMs
    have hage := saveAge_reading c₀.time (history step (step w c₀) cs) c.time hstart
      (fun e he => hpast e.2 (input_of_history step _ cs e he))
    have hdue : saveDue (beforeSave (v.begin c)) = decide
        (5000 ≤ saveAge c₀.time (history step (step w c₀) cs) c.time % 2 ^ 32) := by
      rw [saveDue, hpending, Bool.true_and, hnow, hlast, hI.last, decide_eq_decide,
        BitVec.le_def, hage]
      rfl
    rw [(tick_saves v c hop).1, hdue]
    simp only [decide_eq_true_eq]

/-- The first tick that comes the delay or more after the last attempt to save
makes the next one. -/
def SavesAfterDelay : Prop :=
  ∀ (w : World) (c₀ : Call) (cfg : DeviceConfig), Starts w c₀ cfg →
    ∀ cs : List Call, (∀ c ∈ cs, c.op.running = true ∧ c.Reliable) →
    ((c₀ :: cs).map Call.time).Pairwise (· ≤ ·) →
    (run step (step w c₀) cs).s.savePending = true →
    ∀ c : Call, c.op = .tick → c.Reliable → (∀ d ∈ c₀ :: cs, d.time ≤ c.time) →
      5000 ≤ saveAge c₀.time (history step (step w c₀) cs) c.time →
      (step (run step (step w c₀) cs) c).env.saves =
        [(step (run step (step w c₀) cs) c).s.mask &&&
          holdMask (run step (step w c₀) cs).s.cfg]

def holdConfig : DeviceConfig :=
  DeviceConfig.schemaDefault.modifyRelay 1 fun r => { r with failsafe := .hold }

/-- A save, and the next change one turn of the clock later. -/
def quietRun : List Call :=
  [.plain (.set 1 true .web) 10, .plain .tick 20, .plain (.set 1 false .web) (2 ^ 32 + 20)]

/-- Ten milliseconds into the next turn of the clock the save of 49 days ago
counts as one of ten milliseconds ago. -/
theorem save_waits_after_wrap : ¬SavesAfterDelay := by
  intro h
  have hsaves := h coldBoot (.plain (.init holdConfig) 0) holdConfig ⟨rfl, by decide +kernel⟩
    quietRun (by decide +kernel) (by decide +kernel) (by decide +kernel)
    (.plain .tick (2 ^ 32 + 30)) rfl (by decide +kernel) (by decide +kernel) (by decide +kernel)
  exact absurd hsaves (by decide +kernel)

/-- A held relay is saved by the first tick after it went on. -/
theorem hold_saved_at_once :
    (step (run step (step coldBoot (.plain (.init holdConfig) 0)) (quietRun.take 1))
      (.plain .tick 20)).env.saves = [1#8] :=
  ((run_hold_state coldBoot (.plain (.init holdConfig) 0) holdConfig ⟨rfl, by decide +kernel⟩
    (quietRun.take 1) (by decide +kernel)).2 (by decide +kernel) (.plain .tick 20) rfl
    (by decide +kernel) (by decide +kernel)).trans (by decide +kernel)

end RelayBoard
