import RelayBoard.DeviceConfig
import RelayBoard.Lib.Clock
import RelayBoard.Lib.Runs

/-!
# Digital inputs

All of `input_sense.c` but the table of listeners, who are all told the same.
The eight inputs are polled, debounced and inverted, and relays that name an
input as their override are driven by it. `s` is written by one task only, so a
call is one step. What the calls do outside is listed in order.
-/

set_option autoImplicit false

namespace RelayBoard
open BitVec Lib.Runs Lib.Clock

def boardDiActiveLow : Bool := true

/-- `STARTUP_GRACE_MS` -/
def startupGraceMs : Ms := 1000#32

inductive InputLink where
  | follow
  | toggle
  deriving DecidableEq, Repr

inductive InputAction where
  | off
  | on
  | toggle
  deriving DecidableEq, Repr

/-- The settings the inputs act on. `overrideDi` is 0 for none, else an input
from 1 to 8. -/
structure SenseCfg where
  invert : Channel → Bool
  overrideDi : Channel → ℕ
  link : Channel → InputLink
  debounceMs : BitVec 16

def SenseCfg.schemaDefault : SenseCfg := ⟨fun _ => false, fun _ => 0, fun _ => .follow, 50#16⟩

inductive SenseCall where
  | notify (i : Channel) (on : Bool) (mask : Mask)
  | override (r : Channel) (action : InputAction)
  deriving DecidableEq, Repr

structure InputSense where
  cfg : SenseCfg
  candidate : Channel → Bool
  candidateSince : Channel → Ms
  stable : Mask
  startMs : Ms
  late : Mask
  published : Mask
  ready : Bool

def energised (level : Bool) : Bool := if boardDiActiveLow then !level else level

def readInput (cfg : SenseCfg) (raw : Mask) (i : Channel) : Bool :=
  energised (raw.has i) != cfg.invert i

def notifyInputs (which stable : Mask) : List SenseCall :=
  ((List.finRange 8).filter fun i => which.has i).map fun i => .notify i (stable.has i) stable

def applyOverride (cfg : SenseCfg) (i : Channel) (on boot : Bool) : List SenseCall :=
  (List.finRange 8).flatMap fun r =>
    if cfg.overrideDi r ≠ i.val + 1 then []
    else
      match cfg.link r with
      | .toggle => if on && !boot then [.override r .toggle] else []
      | .follow => [.override r (if on then .on else .off)]

def inputSenseInit (cfg : SenseCfg) (raw : Mask) (now : Ms) : InputSense where
  cfg := cfg
  candidate := readInput cfg raw
  candidateSince _ := now
  stable := 0#8
  startMs := now
  late := 0#8
  published := 0#8
  ready := false

namespace InputSense

def flipped (s : InputSense) (cfg : SenseCfg) : Mask :=
  collect fun i => cfg.invert i != s.cfg.invert i

def inputSenseUpdateConfig (s : InputSense) (cfg : SenseCfg) : InputSense × List SenseCall :=
  let flipped := s.flipped cfg
  let s :=
    { s with
      cfg := cfg
      candidate := fun i => if flipped.has i then !s.candidate i else s.candidate i }
  if flipped = 0#8 ∨ s.ready = false then (s, [])
  else
    let stable := s.stable ^^^ flipped
    ({ s with stable := stable, published := stable }, notifyInputs flipped stable)

/-- What the first loop of a poll stores. -/
def sample (s : InputSense) (raw : Mask) (now : Ms) : InputSense :=
  { s with
    candidate := readInput s.cfg raw
    candidateSince := fun i =>
      if readInput s.cfg raw i ≠ s.candidate i then now else s.candidateSince i }

def settled (s : InputSense) (now : Ms) : Mask :=
  collect fun i => decide (s.cfg.debounceMs.setWidth 32 ≤ now - s.candidateSince i)

def settledValue (s : InputSense) (now : Ms) : Mask :=
  collect fun i => (s.settled now).has i && s.candidate i

def waiting (s : InputSense) (now : Ms) : Bool :=
  s.settled now != 0xFF#8 &&
    decide (now - s.startMs < s.cfg.debounceMs.setWidth 32 + startupGraceMs)

/-- The poll that ends start-up, once it has sampled the pins. -/
def startUp (s : InputSense) (now : Ms) : InputSense × List SenseCall :=
  let stable := s.settledValue now
  ({ s with stable := stable, late := ~~~s.settled now, published := stable, ready := true },
    notifyInputs 0xFF#8 stable ++
      ((List.finRange 8).filter fun i => (s.settled now).has i).flatMap fun i =>
        applyOverride s.cfg i (stable.has i) true)

def changed (s : InputSense) (now : Ms) : Mask :=
  collect fun i => (s.settled now).has i && s.candidate i != s.stable.has i

/-- A poll after start-up, once it has sampled the pins. -/
def takeUp (s : InputSense) (now : Ms) : InputSense × List SenseCall :=
  let boot := s.late &&& s.settled now
  let changed := s.changed now
  let stable := s.stable ^^^ changed
  let s := { s with late := s.late &&& ~~~s.settled now, stable := stable }
  if changed = 0#8 then (s, [])
  else
    ({ s with published := stable },
      ((List.finRange 8).filter fun i => changed.has i).flatMap fun i =>
        .notify i (stable.has i) stable :: applyOverride s.cfg i (stable.has i) (boot.has i))

def inputSensePoll (s : InputSense) (raw : Mask) (now : Ms) : InputSense × List SenseCall :=
  let s := s.sample raw now
  if s.ready = false then
    if s.waiting now then (s, []) else s.startUp now
  else s.takeUp now

end InputSense

/-- A call of the task that owns the inputs; a poll at the true time `t`. -/
inductive SenseOp where
  | poll (raw : Mask) (t : ℕ)
  | save (cfg : SenseCfg)

namespace InputSense

def perform (s : InputSense) : SenseOp → InputSense × List SenseCall
  | .poll raw t => s.inputSensePoll raw (reading 32 t)
  | .save cfg => s.inputSenseUpdateConfig cfg

def step (s : InputSense) (op : SenseOp) : InputSense := (s.perform op).1

def calls (s : InputSense) (op : SenseOp) : List SenseCall := (s.perform op).2

end InputSense

def senseRun (cfg : SenseCfg) (first : ℕ × Mask) (ops : List SenseOp) : InputSense :=
  run InputSense.step (inputSenseInit cfg first.2 (reading 32 first.1)) ops

def sensePast (cfg : SenseCfg) (first : ℕ × Mask) (ops : List SenseOp) :
    List (InputSense × SenseOp) :=
  history InputSense.step (inputSenseInit cfg first.2 (reading 32 first.1)) ops

namespace InputSense

variable (s : InputSense) (raw : Mask) (now : Ms)

theorem has_settled (i : Channel) : (s.settled now).has i = true ↔
    s.cfg.debounceMs.toNat ≤ (now - s.candidateSince i).toNat := by
  rw [settled, has_collect, decide_eq_true_iff, BitVec.le_def, BitVec.toNat_setWidth,
    Nat.mod_eq_of_lt (by have := s.cfg.debounceMs.isLt; omega)]

theorem has_all (i : Channel) : (0xFF#8).has i = true := by
  revert i
  decide

theorem waiting_iff : s.waiting now = true ↔
    s.settled now ≠ 0xFF#8 ∧ (now - s.startMs).toNat < s.cfg.debounceMs.toNat + 1000 := by
  have hgrace : (s.cfg.debounceMs.setWidth 32 + startupGraceMs).toNat =
      s.cfg.debounceMs.toNat + 1000 := by
    have hd := s.cfg.debounceMs.isLt
    rw [BitVec.toNat_add, BitVec.toNat_setWidth]
    change (s.cfg.debounceMs.toNat % 2 ^ 32 + 1000) % 2 ^ 32 = _
    omega
  rw [waiting, Bool.and_eq_true, bne_iff_ne, decide_eq_true_iff, BitVec.lt_def, hgrace]

@[simp] theorem has_flipped (cfg : SenseCfg) (i : Channel) :
    (s.flipped cfg).has i = (cfg.invert i != s.cfg.invert i) := has_collect _ _

@[simp] theorem has_settledValue (i : Channel) :
    (s.settledValue now).has i = ((s.settled now).has i && s.candidate i) := has_collect _ _

@[simp] theorem has_changed (i : Channel) : (s.changed now).has i =
    ((s.settled now).has i && s.candidate i != s.stable.has i) := has_collect _ _

theorem poll_waits (h : s.ready = false) (hw : (s.sample raw now).waiting now = true) :
    s.inputSensePoll raw now = (s.sample raw now, []) := by
  unfold inputSensePoll
  dsimp only
  rw [if_pos (show (s.sample raw now).ready = false from h), if_pos hw]

theorem poll_starts (h : s.ready = false) (hw : (s.sample raw now).waiting now = false) :
    s.inputSensePoll raw now = (s.sample raw now).startUp now := by
  unfold inputSensePoll
  dsimp only
  rw [if_pos (show (s.sample raw now).ready = false from h), hw, if_neg Bool.false_ne_true]

theorem poll_runs (h : s.ready = true) :
    s.inputSensePoll raw now = (s.sample raw now).takeUp now := by
  unfold inputSensePoll
  dsimp only
  rw [if_neg (show ¬(s.sample raw now).ready = false by simp [sample, h])]

theorem poll_cases :
    (s.ready = false ∧ (s.sample raw now).waiting now = true ∧
      s.inputSensePoll raw now = (s.sample raw now, [])) ∨
    (s.ready = false ∧ (s.sample raw now).waiting now = false ∧
      s.inputSensePoll raw now = (s.sample raw now).startUp now) ∨
    (s.ready = true ∧ s.inputSensePoll raw now = (s.sample raw now).takeUp now) := by
  by_cases h : s.ready = true
  · exact Or.inr (Or.inr ⟨h, s.poll_runs raw now h⟩)
  · have hready := Bool.eq_false_iff.mpr h
    by_cases hw : (s.sample raw now).waiting now = true
    · exact Or.inl ⟨hready, hw, s.poll_waits raw now hready hw⟩
    · have hdone := Bool.eq_false_iff.mpr hw
      exact Or.inr (Or.inl ⟨hready, hdone, s.poll_starts raw now hready hdone⟩)

/-- A settled input reads as its candidate from then on, any other as before. -/
theorem takeUp_stable (i : Channel) : (s.takeUp now).1.stable.has i =
    if (s.settled now).has i = true then s.candidate i else s.stable.has i := by
  have hstable : (s.takeUp now).1.stable = s.stable ^^^ s.changed now := by
    unfold takeUp
    dsimp only
    split_ifs
    · rfl
    · rfl
  rw [hstable, has_xor, has_changed]
  cases (s.settled now).has i <;> cases s.candidate i <;> cases s.stable.has i <;> rfl

theorem takeUp_calls : (s.takeUp now).2 =
    ((List.finRange 8).filter fun i => (s.changed now).has i).flatMap fun i =>
      .notify i ((s.takeUp now).1.stable.has i) (s.takeUp now).1.stable ::
        applyOverride s.cfg i ((s.takeUp now).1.stable.has i)
          ((s.late &&& s.settled now).has i) := by
  unfold takeUp
  dsimp only
  by_cases hc : s.changed now = 0#8
  · rw [if_pos hc, hc]
    simp
  · rw [if_neg hc]

theorem takeUp_late : (s.takeUp now).1.late = s.late &&& ~~~s.settled now := by
  unfold takeUp
  dsimp only
  split_ifs
  · rfl
  · rfl

theorem takeUp_published (h : s.published = s.stable) :
    (s.takeUp now).1.published = (s.takeUp now).1.stable := by
  unfold takeUp
  dsimp only
  split_ifs with hc
  · simp only [hc, BitVec.xor_zero]
    exact h
  · rfl

theorem takeUp_frame : (s.takeUp now).1.cfg = s.cfg ∧
    (s.takeUp now).1.candidate = s.candidate ∧
    (s.takeUp now).1.candidateSince = s.candidateSince ∧ (s.takeUp now).1.startMs = s.startMs ∧
    (s.takeUp now).1.ready = s.ready := by
  unfold takeUp
  dsimp only
  split_ifs
  · exact ⟨rfl, rfl, rfl, rfl, rfl⟩
  · exact ⟨rfl, rfl, rfl, rfl, rfl⟩

theorem save_frame (cfg : SenseCfg) : (s.inputSenseUpdateConfig cfg).1.cfg = cfg ∧
    (s.inputSenseUpdateConfig cfg).1.candidateSince = s.candidateSince ∧
    (s.inputSenseUpdateConfig cfg).1.startMs = s.startMs ∧
    (s.inputSenseUpdateConfig cfg).1.late = s.late ∧
    (s.inputSenseUpdateConfig cfg).1.ready = s.ready := by
  unfold inputSenseUpdateConfig
  dsimp only
  split_ifs
  · exact ⟨rfl, rfl, rfl, rfl, rfl⟩
  · exact ⟨rfl, rfl, rfl, rfl, rfl⟩

theorem save_candidate (cfg : SenseCfg) (i : Channel) :
    (s.inputSenseUpdateConfig cfg).1.candidate i = (s.candidate i ^^ (s.flipped cfg).has i) := by
  have hcandidate : (s.inputSenseUpdateConfig cfg).1.candidate i =
      if (s.flipped cfg).has i then !s.candidate i else s.candidate i := by
    unfold inputSenseUpdateConfig
    dsimp only
    by_cases hquiet : s.flipped cfg = 0#8 ∨ s.ready = false
    · rw [if_pos hquiet]
    · rw [if_neg hquiet]
  rw [hcandidate]
  cases (s.flipped cfg).has i <;> cases s.candidate i <;> rfl

/-- Once ready, a save flips the readings of the inputs it inverts. -/
theorem save_stable (cfg : SenseCfg) : (s.inputSenseUpdateConfig cfg).1.stable =
    if s.ready = true then s.stable ^^^ s.flipped cfg else s.stable := by
  unfold inputSenseUpdateConfig
  dsimp only
  cases hready : s.ready with
  | false => rw [if_pos (Or.inr rfl), if_neg Bool.false_ne_true]
  | true =>
    by_cases hflipped : s.flipped cfg = 0#8
    · rw [if_pos (Or.inl hflipped), if_pos rfl, hflipped, BitVec.xor_zero]
    · rw [if_neg (by simp [hflipped]), if_pos rfl]

theorem save_published (cfg : SenseCfg) (h : s.ready = true → s.published = s.stable) :
    (s.inputSenseUpdateConfig cfg).1.published =
      if s.ready = true then s.published ^^^ s.flipped cfg else s.published := by
  unfold inputSenseUpdateConfig
  dsimp only
  cases hready : s.ready with
  | false => rw [if_pos (Or.inr rfl), if_neg Bool.false_ne_true]
  | true =>
    by_cases hflipped : s.flipped cfg = 0#8
    · rw [if_pos (Or.inl hflipped), if_pos rfl, hflipped, BitVec.xor_zero]
    · rw [if_neg (by simp [hflipped]), if_pos rfl, h hready]

theorem poll_frame : (s.inputSensePoll raw now).1.cfg = s.cfg ∧
    (s.inputSensePoll raw now).1.candidate = readInput s.cfg raw ∧
    (s.inputSensePoll raw now).1.candidateSince = (s.sample raw now).candidateSince ∧
    (s.inputSensePoll raw now).1.startMs = s.startMs := by
  rcases s.poll_cases raw now with ⟨-, -, hpoll⟩ | ⟨-, -, hpoll⟩ | ⟨-, hpoll⟩ <;> rw [hpoll]
  · exact ⟨rfl, rfl, rfl, rfl⟩
  · exact ⟨rfl, rfl, rfl, rfl⟩
  · have hframe := (s.sample raw now).takeUp_frame now
    exact ⟨hframe.1, hframe.2.1, hframe.2.2.1, hframe.2.2.2.1⟩

/-- A poll that leaves the inputs not ready has only sampled the pins. -/
theorem poll_of_dark (h : (s.inputSensePoll raw now).1.ready = false) :
    s.ready = false ∧ (s.sample raw now).waiting now = true ∧
      s.inputSensePoll raw now = (s.sample raw now, []) := by
  rcases s.poll_cases raw now with hwaits | ⟨-, -, hpoll⟩ | ⟨hready, hpoll⟩
  · exact hwaits
  · rw [hpoll] at h
    exact absurd h.symm Bool.false_ne_true
  · rw [hpoll, ((s.sample raw now).takeUp_frame now).2.2.2.2] at h
    exact absurd (h.symm.trans hready) Bool.false_ne_true

/-- Nothing is published before readiness, and after it the readings are. -/
structure Shows (s : InputSense) : Prop where
  dark : s.ready = false → s.published = 0#8
  shown : s.ready = true → s.published = s.stable

theorem Shows.step {s : InputSense} (h : s.Shows) (op : SenseOp) : (s.step op).Shows := by
  cases op with
  | poll raw t =>
    change (s.inputSensePoll raw (reading 32 t)).1.Shows
    rcases s.poll_cases raw (reading 32 t) with ⟨-, -, hpoll⟩ | ⟨-, -, hpoll⟩ | ⟨hon, hpoll⟩ <;>
      rw [hpoll]
    · exact ⟨h.dark, h.shown⟩
    · exact ⟨fun hdark => absurd hdark.symm Bool.false_ne_true, fun _ => rfl⟩
    · refine ⟨fun hdark => ?_, fun _ => takeUp_published _ _ (h.shown hon)⟩
      rw [((s.sample raw (reading 32 t)).takeUp_frame (reading 32 t)).2.2.2.2] at hdark
      exact absurd (hdark.symm.trans hon) Bool.false_ne_true
  | save cfg =>
    have hready := (s.save_frame cfg).2.2.2.2
    change (s.inputSenseUpdateConfig cfg).1.Shows
    refine ⟨fun hdark => ?_, fun hon => ?_⟩
    · rw [hready] at hdark
      rw [s.save_published cfg h.shown, if_neg (by simp [hdark]), h.dark hdark]
    · rw [hready] at hon
      rw [s.save_published cfg h.shown, save_stable, if_pos hon, if_pos hon, h.shown hon]

end InputSense

end RelayBoard
