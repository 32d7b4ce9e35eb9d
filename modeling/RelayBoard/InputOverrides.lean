import RelayBoard.InputSense
import RelayBoard.Lib.Journal

/-!
# What the inputs ask of the relays

A relay is asked for something only in a poll, and by the input it names. Every
settled reading counts that is taken up at readiness or after it; an input has
had its first one exactly if it is no longer late.
-/

set_option autoImplicit false

namespace RelayBoard
open BitVec Lib.Runs Lib.Clock Lib.Journal

def SenseCall.asks (r : Channel) : SenseCall → Option InputAction
  | .override q action => if q = r then some action else none
  | .notify _ _ _ => none

def asked (r : Channel) (calls : List SenseCall) : List InputAction :=
  calls.filterMap (SenseCall.asks r)

def SenseCfg.Names (cfg : SenseCfg) (r i : Channel) : Prop := cfg.overrideDi r = i.val + 1

instance (cfg : SenseCfg) (r i : Channel) : Decidable (cfg.Names r i) :=
  inferInstanceAs (Decidable (_ = _))

def InputAction.of (on : Bool) : InputAction := if on then .on else .off

/-- What a link makes of a reading of its input. -/
def InputLink.action (link : InputLink) (on boot : Bool) : List InputAction :=
  match link with
  | .follow => [.of on]
  | .toggle => if on && !boot then [.toggle] else []

theorem asked_append (r : Channel) (xs ys : List SenseCall) :
    asked r (xs ++ ys) = asked r xs ++ asked r ys := List.filterMap_append

theorem asked_notifyInputs (r : Channel) (which stable : Mask) :
    asked r (notifyInputs which stable) = [] := by
  rw [asked, notifyInputs, List.filterMap_map, List.filterMap_eq_nil_iff]
  exact fun _ _ => rfl

theorem names_inj {cfg : SenseCfg} {r i j : Channel} (hi : cfg.Names r i) (hj : cfg.Names r j) :
    i = j := by
  have hij := hi.symm.trans hj
  exact Fin.ext (by omega)

theorem asked_applyOverride (cfg : SenseCfg) (r i : Channel) (on boot : Bool) :
    asked r (applyOverride cfg i on boot) =
      if cfg.Names r i then (cfg.link r).action on boot else [] := by
  rw [asked, applyOverride, filterMap_flatMap_own _ _ _ r (List.mem_finRange r)
    (List.nodup_finRange 8)]
  · by_cases hr : cfg.Names r i
    · have hnamed : ¬cfg.overrideDi r ≠ i.val + 1 := not_not_intro hr
      rw [if_neg hnamed, if_pos hr]
      cases cfg.link r with
      | follow => simp [InputLink.action, SenseCall.asks, InputAction.of]
      | toggle => cases on <;> cases boot <;> simp [InputLink.action, SenseCall.asks]
    · have hother : cfg.overrideDi r ≠ i.val + 1 := hr
      rw [if_pos hother, if_neg hr]
      rfl
  · intro q _ hq
    by_cases hn : cfg.overrideDi q ≠ i.val + 1
    · rw [if_pos hn]
      rfl
    · rw [if_neg hn]
      cases cfg.link q with
      | follow => simp [SenseCall.asks, hq]
      | toggle => cases on <;> cases boot <;> simp [SenseCall.asks, hq]

/-- Of the inputs a loop passes, a relay hears the one it names. -/
theorem asked_passes (cfg : SenseCfg) (r : Channel) (p : Channel → Bool)
    (part : Channel → List SenseCall) (on boot : Channel → Bool)
    (hpart : ∀ i, asked r (part i) = asked r (applyOverride cfg i (on i) (boot i))) :
    (∀ i, cfg.Names r i → asked r (((List.finRange 8).filter p).flatMap part) =
      if p i = true then (cfg.link r).action (on i) (boot i) else []) ∧
    ((∀ i, ¬cfg.Names r i) → asked r (((List.finRange 8).filter p).flatMap part) = []) := by
  simp only [asked_applyOverride] at hpart
  constructor
  · intro i hi
    have hother : ∀ j, j ≠ i → asked r (part j) = [] := by
      intro j hj
      rw [hpart, if_neg (fun hn => hj (names_inj hn hi))]
    by_cases hp : p i = true
    · rw [asked, filterMap_flatMap_own _ _ _ i
        (List.mem_filter.mpr ⟨List.mem_finRange i, hp⟩) ((List.nodup_finRange 8).filter _)
        (fun j _ hj => hother j hj), if_pos hp]
      exact (hpart i).trans (if_pos hi)
    · rw [if_neg hp, asked, List.filterMap_flatMap, List.flatMap_eq_nil_iff]
      intro j hj
      exact hother j (fun hji => hp (hji ▸ (List.mem_filter.mp hj).2))
  · intro hnone
    rw [asked, List.filterMap_flatMap, List.flatMap_eq_nil_iff]
    exact fun j _ => (hpart j).trans (if_neg (hnone j))

theorem asked_takeUp (s : InputSense) (now : Ms) (r : Channel) :
    (∀ i, s.cfg.Names r i → asked r (s.takeUp now).2 =
      if (s.changed now).has i = true then
        (s.cfg.link r).action ((s.takeUp now).1.stable.has i)
          ((s.late &&& s.settled now).has i)
      else []) ∧
    ((∀ i, ¬s.cfg.Names r i) → asked r (s.takeUp now).2 = []) := by
  rw [InputSense.takeUp_calls]
  exact asked_passes s.cfg r _ _ (fun i => (s.takeUp now).1.stable.has i) _ (fun _ => rfl)

theorem asked_startUp (s : InputSense) (now : Ms) (r : Channel) :
    (∀ i, s.cfg.Names r i → asked r (s.startUp now).2 =
      if (s.settled now).has i = true then
        (s.cfg.link r).action ((s.startUp now).1.stable.has i) true
      else []) ∧
    ((∀ i, ¬s.cfg.Names r i) → asked r (s.startUp now).2 = []) := by
  unfold InputSense.startUp
  dsimp only
  rw [asked_append, asked_notifyInputs, List.nil_append]
  exact asked_passes s.cfg r _ _ (fun i => (s.settledValue now).has i) (fun _ => true)
    (fun _ => rfl)

/-- The call takes up a settled reading of the input. -/
def TakesUp (i : Channel) (s : InputSense) : SenseOp → Prop
  | .poll raw t => (s.step (.poll raw t)).ready = true ∧
      ((s.sample raw (reading 32 t)).settled (reading 32 t)).has i = true
  | .save _ => False

instance (i : Channel) (s : InputSense) (op : SenseOp) : Decidable (TakesUp i s op) :=
  match op with
  | .poll _ _ => inferInstanceAs (Decidable (_ ∧ _))
  | .save _ => inferInstanceAs (Decidable False)

/-- The input has had its first settled reading. -/
def HasSettled (i : Channel) (past : List (InputSense × SenseOp)) : Prop :=
  ∃ e ∈ past, TakesUp i e.1 e.2

instance (i : Channel) (past : List (InputSense × SenseOp)) : Decidable (HasSettled i past) :=
  inferInstanceAs (Decidable (∃ e ∈ past, TakesUp i e.1 e.2))

/-- What a poll asks of relay `r`: nothing while start-up waits, and nothing if
nothing changes; what the input it names has settled at when start-up ends; and
from then on what a change of that input makes of its link. -/
structure Follows (past : List (InputSense × SenseOp)) (s : InputSense) (raw : Mask) (t : ℕ)
    (r : Channel) : Prop where
  unlinked : (∀ i, ¬s.cfg.Names r i) → asked r (s.calls (.poll raw t)) = []
  waiting : (s.step (.poll raw t)).ready = false → s.calls (.poll raw t) = []
  boot : s.ready = false → (s.step (.poll raw t)).ready = true → ∀ i, s.cfg.Names r i →
    asked r (s.calls (.poll raw t)) =
      if TakesUp i s (.poll raw t) then
        (s.cfg.link r).action ((s.step (.poll raw t)).published.has i) true
      else []
  after : s.ready = true → ∀ i, s.cfg.Names r i →
    asked r (s.calls (.poll raw t)) =
      if (s.step (.poll raw t)).published.has i = s.published.has i then []
      else
        (s.cfg.link r).action ((s.step (.poll raw t)).published.has i)
          (decide (¬HasSettled i past))
  quiet : s.ready = true → (s.step (.poll raw t)).published = s.published →
    s.calls (.poll raw t) = []

def OverridesFollow (past : List (InputSense × SenseOp)) (s : InputSense) : SenseOp → Prop
  | .poll raw t => ∀ r, Follows past s raw t r
  | .save cfg => ∀ r, asked r (s.calls (.save cfg)) = []

/-- `late` tells whose first settled reading is still to come. -/
structure Recalls (s : InputSense) (past : List (InputSense × SenseOp)) : Prop
    extends s.Shows where
  settled : ∀ i, HasSettled i past ↔ s.ready = true ∧ s.late.has i = false

theorem hasSettled_cons (i : Channel) (s : InputSense) (op : SenseOp)
    (past : List (InputSense × SenseOp)) :
    HasSettled i ((s, op) :: past) ↔ TakesUp i s op ∨ HasSettled i past := by
  simp [HasSettled]

theorem Recalls.step {s : InputSense} {past : List (InputSense × SenseOp)} (h : Recalls s past)
    (op : SenseOp) : Recalls (s.step op) ((s, op) :: past) := by
  refine ⟨h.toShows.step op, fun i => ?_⟩
  rw [hasSettled_cons, h.settled]
  cases op with
  | poll raw t =>
    change ((s.inputSensePoll raw (reading 32 t)).1.ready = true ∧ _) ∨ _ ↔
      (s.inputSensePoll raw (reading 32 t)).1.ready = true ∧
        (s.inputSensePoll raw (reading 32 t)).1.late.has i = false
    rcases s.poll_cases raw (reading 32 t) with ⟨hdark, -, hpoll⟩ | ⟨hdark, -, hpoll⟩ | ⟨hon, hpoll⟩
    · rw [hpoll]
      change (s.ready = true ∧ _) ∨ _ ↔ s.ready = true ∧ _
      simp [hdark]
    · rw [hpoll]
      change (true = true ∧ _) ∨ _ ↔ true = true ∧
        (~~~(s.sample raw (reading 32 t)).settled (reading 32 t)).has i = false
      simp [hdark]
    · have hready : ((s.sample raw (reading 32 t)).takeUp (reading 32 t)).1.ready = true :=
        ((s.sample raw (reading 32 t)).takeUp_frame (reading 32 t)).2.2.2.2.trans hon
      rw [hpoll, InputSense.takeUp_late, hready, hon, has_and, has_not]
      change _ ↔ _ ∧ (s.late.has i && _) = false
      cases ((s.sample raw (reading 32 t)).settled (reading 32 t)).has i <;>
        cases s.late.has i <;> simp
  | save cfg =>
    obtain ⟨-, -, -, hlate, hready⟩ := s.save_frame cfg
    change False ∨ _ ↔ (s.inputSenseUpdateConfig cfg).1.ready = true ∧
      (s.inputSenseUpdateConfig cfg).1.late.has i = false
    rw [hlate, hready, false_or]

theorem run_recalls (cfg : SenseCfg) (first : ℕ × Mask) (ops : List SenseOp) :
    Recalls (senseRun cfg first ops) (sensePast cfg first ops) := by
  refine run_induction InputSense.step (I := Recalls) (P := fun _ _ => True) _ ?_
    (fun s past op h _ => h.step op) ops (fun _ _ => trivial)
  refine ⟨⟨fun _ => rfl, fun hon => absurd hon Bool.false_ne_true⟩, fun i => ?_⟩
  simp [HasSettled, inputSenseInit]

theorem follows_starting {s : InputSense} (past : List (InputSense × SenseOp)) (raw : Mask) (t : ℕ)
    (hdark : s.ready = false) (r : Channel) : Follows past s raw t r := by
  by_cases hw : (s.sample raw (reading 32 t)).waiting (reading 32 t) = true
  · have hpoll := s.poll_waits raw (reading 32 t) hdark hw
    have hcalls : s.calls (.poll raw t) = [] := congrArg Prod.snd hpoll
    have hready : (s.step (.poll raw t)).ready = false :=
      (congrArg (fun p => p.1.ready) hpoll).trans hdark
    refine ⟨fun _ => by rw [hcalls]; rfl, fun _ => hcalls, fun _ hon => ?_, fun hon => ?_,
      fun _ _ => hcalls⟩
    · exact absurd (hready.symm.trans hon) Bool.false_ne_true
    · exact absurd (hdark.symm.trans hon) Bool.false_ne_true
  · have hpoll := s.poll_starts raw (reading 32 t) hdark (Bool.eq_false_iff.mpr hw)
    have hcalls : s.calls (.poll raw t) =
        ((s.sample raw (reading 32 t)).startUp (reading 32 t)).2 := congrArg Prod.snd hpoll
    have hready : (s.step (.poll raw t)).ready = true := congrArg (fun p => p.1.ready) hpoll
    have hpublished : (s.step (.poll raw t)).published =
        ((s.sample raw (reading 32 t)).startUp (reading 32 t)).1.stable :=
      congrArg (fun p => p.1.published) hpoll
    obtain ⟨hnamed, hunlinked⟩ := asked_startUp (s.sample raw (reading 32 t)) (reading 32 t) r
    refine ⟨?_, ?_, ?_, ?_, ?_⟩
    · rw [hcalls]
      exact hunlinked
    · intro hwaits
      exact absurd (hwaits.symm.trans hready) Bool.false_ne_true
    · intro _ _ i hi
      rw [hcalls, hnamed i hi, hpublished]
      exact if_congr (by simp [TakesUp, hready]) rfl rfl
    · intro hon
      exact absurd (hdark.symm.trans hon) Bool.false_ne_true
    · intro hon
      exact absurd (hdark.symm.trans hon) Bool.false_ne_true

namespace Recalls

variable {s : InputSense} {past : List (InputSense × SenseOp)}

theorem published_iff (h : Recalls s past) (raw : Mask) (now : Ms) (hon : s.ready = true)
    (i : Channel) : (s.inputSensePoll raw now).1.published.has i = s.published.has i ↔
      ((s.sample raw now).changed now).has i = false := by
  have hshown : (s.sample raw now).published = (s.sample raw now).stable := h.shown hon
  rw [s.poll_runs raw now hon, InputSense.takeUp_published _ _ hshown, InputSense.takeUp_stable,
    InputSense.has_changed, h.shown hon]
  change (if _ then (s.sample raw now).candidate i else s.stable.has i) = s.stable.has i ↔
    (_ && (s.sample raw now).candidate i != s.stable.has i) = false
  cases ((s.sample raw now).settled now).has i <;> cases (s.sample raw now).candidate i <;>
    cases s.stable.has i <;> simp

/-- A settled input was late exactly if this is its first settled reading. -/
theorem boot_eq (h : Recalls s past) (hon : s.ready = true) {settled : Mask} {i : Channel}
    (hs : settled.has i = true) :
    (s.late &&& settled).has i = decide (¬HasSettled i past) := by
  rw [has_and, hs, Bool.and_true, Bool.eq_iff_iff, decide_eq_true_iff, h.settled]
  simp [hon]

theorem follows_running (h : Recalls s past) (raw : Mask) (t : ℕ) (hon : s.ready = true)
    (r : Channel) : Follows past s raw t r := by
  have hpoll := s.poll_runs raw (reading 32 t) hon
  have hcalls : s.calls (.poll raw t) = ((s.sample raw (reading 32 t)).takeUp (reading 32 t)).2 :=
    congrArg Prod.snd hpoll
  have hready : (s.step (.poll raw t)).ready = true :=
    (congrArg (fun p => p.1.ready) hpoll).trans
      (((s.sample raw (reading 32 t)).takeUp_frame (reading 32 t)).2.2.2.2.trans hon)
  have hpublished : (s.step (.poll raw t)).published =
      ((s.sample raw (reading 32 t)).takeUp (reading 32 t)).1.stable :=
    ((h.toShows.step (.poll raw t)).shown hready).trans (congrArg (fun p => p.1.stable) hpoll)
  have hchanged := h.published_iff raw (reading 32 t) hon
  obtain ⟨hnamed, hunlinked⟩ := asked_takeUp (s.sample raw (reading 32 t)) (reading 32 t) r
  refine ⟨?_, ?_, ?_, ?_, ?_⟩
  · rw [hcalls]
    exact hunlinked
  · intro hdark
    exact absurd (hdark.symm.trans hready) Bool.false_ne_true
  · intro hdark
    exact absurd (hdark.symm.trans hon) Bool.false_ne_true
  · intro _ i hi
    rw [hcalls, hnamed i hi, hpublished]
    change (if _ then (s.cfg.link r).action _ _ else _) = _
    rw [← hpublished]
    by_cases hsame : (s.step (.poll raw t)).published.has i = s.published.has i
    · rw [if_pos hsame, if_neg (by rw [(hchanged i).mp hsame]; exact Bool.false_ne_true)]
    · have hone := Bool.eq_true_of_not_eq_false (fun hno => hsame ((hchanged i).mpr hno))
      rw [if_neg hsame, if_pos hone]
      rw [InputSense.has_changed, Bool.and_eq_true] at hone
      rw [← h.boot_eq hon hone.1]
      rfl
  · intro _ hsame
    have hnone : (s.sample raw (reading 32 t)).changed (reading 32 t) = 0#8 := by
      rw [eq_zero_iff]
      exact fun i => (hchanged i).mp (congrArg (fun m => m.has i) hsame)
    rw [hcalls, InputSense.takeUp_calls, hnone]
    simp

end Recalls

theorem asked_save (s : InputSense) (cfg : SenseCfg) (r : Channel) :
    asked r (s.calls (.save cfg)) = [] := by
  change asked r (s.inputSenseUpdateConfig cfg).2 = []
  unfold InputSense.inputSenseUpdateConfig
  dsimp only
  split_ifs
  · rfl
  · exact asked_notifyInputs r _ _

/-- In every run, what the next call asks of the relays is what their links make
of the changes it takes up. -/
theorem run_overrides_follow (cfg : SenseCfg) (first : ℕ × Mask) (ops : List SenseOp)
    (op : SenseOp) :
    OverridesFollow (sensePast cfg first ops) (senseRun cfg first ops) op := by
  have h := run_recalls cfg first ops
  cases op with
  | poll raw t =>
    intro r
    cases hready : (senseRun cfg first ops).ready with
    | false => exact follows_starting _ raw t hready r
    | true => exact h.follows_running raw t hready r
  | save saved => exact asked_save _ saved

def pumpSwitch : SenseCfg :=
  { SenseCfg.schemaDefault with overrideDi := fun r => if r.val = 2 then 1 else 0 }

/-- The input goes on once start-up is over. -/
theorem run_overrides_follow_pumpSwitch :
    asked 2 ((senseRun pumpSwitch (0, 0xFF#8) [.poll 0xFF#8 60, .poll 0xFE#8 100]).calls
      (.poll 0xFE#8 160)) = [.on] := by
  have hpoll := run_overrides_follow pumpSwitch (0, 0xFF#8) [.poll 0xFF#8 60, .poll 0xFE#8 100]
    (.poll 0xFE#8 160) 2
  exact (hpoll.after (by decide +kernel) 0 rfl).trans (by decide +kernel)

end RelayBoard
