import RelayBoard.Lib.Clock
import RelayBoard.Lib.Debounce
import RelayBoard.Lib.Runs

/-!
# The BOOT button

`button_logic.c`. A press is debounced, timed from the update that accepts it,
and acted on at the update that accepts its end. A button that is held at
start-up is ignored until it has been let go.
-/

set_option autoImplicit false

namespace RelayBoard
open Lib.Runs Lib.Clock Lib.Debounce

def buttonPortalMs : ℕ := 5000

def buttonResetMs : ℕ := 15000

def buttonDebounceTicks : ℕ := 3

inductive ButtonFeedback where
  | none
  | portal
  | reset
  deriving DecidableEq, Repr

inductive ButtonAction where
  | none
  | portal
  | reset
  deriving DecidableEq, Repr

structure ButtonState where
  ignoring : Bool
  raw : Bool
  sameCount : ℕ
  debounced : Bool
  wasPressed : Bool
  pressStartMs : BitVec 32
  deriving DecidableEq, Repr

def buttonLogicInit (pressedNow : Bool) : ButtonState where
  ignoring := pressedNow
  raw := pressedNow
  sameCount := buttonDebounceTicks
  debounced := pressedNow
  wasPressed := pressedNow
  pressStartMs := 0#32

def heldFeedback (heldMs : ℕ) : ButtonFeedback :=
  if buttonResetMs ≤ heldMs then .reset else if buttonPortalMs ≤ heldMs then .portal else .none

def heldAction (heldMs : ℕ) : ButtonAction :=
  if buttonResetMs ≤ heldMs then .reset else if buttonPortalMs ≤ heldMs then .portal else .none

/-- An update with the raw level, at the true time `t`. -/
structure ButtonSample where
  pressed : Bool
  t : ℕ
  deriving DecidableEq, Repr

namespace ButtonState

def debounce (st : ButtonState) (rawPressed : Bool) : ButtonState :=
  let st := if rawPressed = st.raw then st else { st with raw := rawPressed, sameCount := 0 }
  if st.sameCount < buttonDebounceTicks then
    if buttonDebounceTicks ≤ st.sameCount + 1 then
      { st with sameCount := st.sameCount + 1, debounced := st.raw }
    else { st with sameCount := st.sameCount + 1 }
  else st

def buttonLogicUpdate (st : ButtonState) (rawPressed : Bool) (now : BitVec 32) :
    ButtonState × ButtonAction × ButtonFeedback :=
  let st := st.debounce rawPressed
  let pressed := st.debounced
  if st.ignoring then
    ({ st with ignoring := if !pressed then false else st.ignoring, wasPressed := pressed },
      .none, .none)
  else
    let st := if pressed && !st.wasPressed then { st with pressStartMs := now } else st
    let heldMs := (now - st.pressStartMs).toNat
    let feedback := if pressed then heldFeedback heldMs else .none
    let action := if !pressed && st.wasPressed then heldAction heldMs else .none
    ({ st with wasPressed := pressed }, action, feedback)

def step (st : ButtonState) (x : ButtonSample) : ButtonState :=
  (st.buttonLogicUpdate x.pressed (reading 32 x.t)).1

def action (st : ButtonState) (x : ButtonSample) : ButtonAction :=
  (st.buttonLogicUpdate x.pressed (reading 32 x.t)).2.1

def feedback (st : ButtonState) (x : ButtonSample) : ButtonFeedback :=
  (st.buttonLogicUpdate x.pressed (reading 32 x.t)).2.2

end ButtonState

def buttonRun (pressedNow : Bool) (xs : List ButtonSample) : ButtonState :=
  run ButtonState.step (buttonLogicInit pressedNow) xs

def buttonPast (pressedNow : Bool) (xs : List ButtonSample) : List (ButtonState × ButtonSample) :=
  history ButtonState.step (buttonLogicInit pressedNow) xs

/-- When the press that goes on began, if it began after start-up: the time of
the update that accepted it. -/
def pressStart : List (ButtonState × ButtonSample) → Option ℕ
  | [] => none
  | e :: past =>
    if (e.1.step e.2).debounced then
      if e.1.debounced then pressStart past else some e.2.t
    else none

namespace ButtonState

variable (st : ButtonState)

def debouncer : Debouncer Bool := ⟨st.raw, st.sameCount, st.debounced⟩

theorem debounce_debouncer (rawPressed : Bool) :
    (st.debounce rawPressed).debouncer = st.debouncer.sample buttonDebounceTicks rawPressed := by
  unfold debounce Debouncer.sample debouncer
  dsimp only
  split_ifs <;> rfl

theorem debounce_frame (rawPressed : Bool) :
    (st.debounce rawPressed).ignoring = st.ignoring ∧
      (st.debounce rawPressed).wasPressed = st.wasPressed ∧
      (st.debounce rawPressed).pressStartMs = st.pressStartMs := by
  unfold debounce
  dsimp only
  split_ifs <;> exact ⟨rfl, rfl, rfl⟩

section Update

variable (rawPressed : Bool) (now : BitVec 32)

theorem update_ignoring (h : st.ignoring = true) : st.buttonLogicUpdate rawPressed now =
    ({ st.debounce rawPressed with
        ignoring := (st.debounce rawPressed).debounced
        wasPressed := (st.debounce rawPressed).debounced }, .none, .none) := by
  have hignoring := (st.debounce_frame rawPressed).1.trans h
  unfold buttonLogicUpdate
  generalize st.debounce rawPressed = d at hignoring
  obtain ⟨ignoring, raw, count, pressed, was, start⟩ := d
  obtain rfl : ignoring = true := hignoring
  cases pressed <;> rfl

theorem update_press (h : st.ignoring = false) (hwas : st.wasPressed = false)
    (hpressed : (st.debounce rawPressed).debounced = true) :
    st.buttonLogicUpdate rawPressed now =
      ({ st.debounce rawPressed with pressStartMs := now, wasPressed := true }, .none, .none) := by
  obtain ⟨hignoring, hwas', -⟩ := st.debounce_frame rawPressed
  unfold buttonLogicUpdate
  generalize st.debounce rawPressed = d at hignoring hwas' hpressed
  obtain ⟨ignoring, raw, count, pressed, was, start⟩ := d
  obtain rfl : ignoring = false := hignoring.trans h
  obtain rfl : was = false := hwas'.trans hwas
  obtain rfl : pressed = true := hpressed
  have hheld : heldFeedback (now - now).toNat = .none := by
    rw [BitVec.sub_self]
    rfl
  exact congrArg (fun shown => (_, ButtonAction.none, shown)) hheld

theorem update_hold (h : st.ignoring = false) (hwas : st.wasPressed = true)
    (hpressed : (st.debounce rawPressed).debounced = true) :
    st.buttonLogicUpdate rawPressed now =
      ({ st.debounce rawPressed with wasPressed := true }, .none,
        heldFeedback (now - st.pressStartMs).toNat) := by
  obtain ⟨hignoring, hwas', hstart⟩ := st.debounce_frame rawPressed
  unfold buttonLogicUpdate
  rw [← hstart]
  generalize st.debounce rawPressed = d at hignoring hwas' hpressed
  obtain ⟨ignoring, raw, count, pressed, was, start⟩ := d
  obtain rfl : ignoring = false := hignoring.trans h
  obtain rfl : was = true := hwas'.trans hwas
  obtain rfl : pressed = true := hpressed
  rfl

theorem update_release (h : st.ignoring = false) (hwas : st.wasPressed = true)
    (hpressed : (st.debounce rawPressed).debounced = false) :
    st.buttonLogicUpdate rawPressed now =
      ({ st.debounce rawPressed with wasPressed := false },
        heldAction (now - st.pressStartMs).toNat, .none) := by
  obtain ⟨hignoring, hwas', hstart⟩ := st.debounce_frame rawPressed
  unfold buttonLogicUpdate
  rw [← hstart]
  generalize st.debounce rawPressed = d at hignoring hwas' hpressed
  obtain ⟨ignoring, raw, count, pressed, was, start⟩ := d
  obtain rfl : ignoring = false := hignoring.trans h
  obtain rfl : was = true := hwas'.trans hwas
  obtain rfl : pressed = false := hpressed
  rfl

theorem update_idle (h : st.ignoring = false) (hwas : st.wasPressed = false)
    (hpressed : (st.debounce rawPressed).debounced = false) :
    st.buttonLogicUpdate rawPressed now =
      ({ st.debounce rawPressed with wasPressed := false }, .none, .none) := by
  obtain ⟨hignoring, hwas', -⟩ := st.debounce_frame rawPressed
  unfold buttonLogicUpdate
  generalize st.debounce rawPressed = d at hignoring hwas' hpressed
  obtain ⟨ignoring, raw, count, pressed, was, start⟩ := d
  obtain rfl : ignoring = false := hignoring.trans h
  obtain rfl : was = false := hwas'.trans hwas
  obtain rfl : pressed = false := hpressed
  rfl

theorem update_frame : (st.buttonLogicUpdate rawPressed now).1.debouncer =
      (st.debounce rawPressed).debouncer ∧
    (st.buttonLogicUpdate rawPressed now).1.wasPressed = (st.debounce rawPressed).debounced := by
  unfold buttonLogicUpdate
  dsimp only
  split_ifs <;> exact ⟨rfl, rfl⟩

end Update

theorem step_debouncer (x : ButtonSample) :
    (st.step x).debouncer = st.debouncer.sample buttonDebounceTicks x.pressed := by
  rw [← debounce_debouncer]
  exact (st.update_frame x.pressed (reading 32 x.t)).1

theorem step_debounced (x : ButtonSample) :
    (st.step x).debounced = (st.debounce x.pressed).debounced :=
  congrArg Debouncer.level (st.update_frame x.pressed (reading 32 x.t)).1

theorem step_ignoring (h : st.ignoring = true) (x : ButtonSample) :
    (st.step x).ignoring = (st.step x).debounced ∧
      st.action x = .none ∧ st.feedback x = .none := by
  rw [st.step_debounced, step, action, feedback, st.update_ignoring _ _ h]
  exact ⟨rfl, rfl, rfl⟩

end ButtonState

/-- What the state knows of the samples so far. -/
structure ButtonTracks (first : Bool) (s : ButtonState) (past : List (ButtonState × ButtonSample)) :
    Prop where
  knows : s.debouncer.Knows buttonDebounceTicks first (past.map fun e => e.2.pressed)
  was : s.wasPressed = s.debounced
  ignored : s.ignoring = true → s.debounced = true ∧ pressStart past = none
  idle : s.debounced = false → pressStart past = none
  started : s.ignoring = false → s.debounced = true →
    ∃ t₀, pressStart past = some t₀ ∧ s.pressStartMs = reading 32 t₀

theorem pressStart_cons (e : ButtonState × ButtonSample)
    (past : List (ButtonState × ButtonSample)) : pressStart (e :: past) =
      if (e.1.step e.2).debounced then
        if e.1.debounced then pressStart past else some e.2.t
      else none := rfl

theorem pressStart_mem {past : List (ButtonState × ButtonSample)} {t₀ : ℕ}
    (h : pressStart past = some t₀) : ∃ e ∈ past, e.2.t = t₀ := by
  induction past with
  | nil => cases h
  | cons e past ih =>
    rw [pressStart_cons] at h
    split_ifs at h
    · obtain ⟨d, hd, ht⟩ := ih h
      exact ⟨d, List.mem_cons_of_mem e hd, ht⟩
    · exact ⟨e, List.mem_cons_self .., Option.some.inj h⟩

namespace ButtonTracks

variable {first : Bool} {s : ButtonState} {past : List (ButtonState × ButtonSample)}

theorem cases (h : ButtonTracks first s past) :
    (s.debounced = false ∧ s.ignoring = false ∧ pressStart past = none) ∨
    (s.debounced = true ∧ s.ignoring = true ∧ pressStart past = none) ∨
    ∃ t₀, s.debounced = true ∧ s.ignoring = false ∧ pressStart past = some t₀ ∧
      s.pressStartMs = reading 32 t₀ := by
  cases hignoring : s.ignoring with
  | true => exact Or.inr (Or.inl ⟨(h.ignored hignoring).1, rfl, (h.ignored hignoring).2⟩)
  | false =>
    cases hdebounced : s.debounced with
    | false => exact Or.inl ⟨rfl, rfl, h.idle hdebounced⟩
    | true =>
      obtain ⟨t₀, ht₀, hstart⟩ := h.started hignoring hdebounced
      exact Or.inr (Or.inr ⟨t₀, rfl, rfl, ht₀, hstart⟩)

theorem step_idle (h : ButtonTracks first s past) (hignoring : s.ignoring = false)
    (hdebounced : s.debounced = false) (x : ButtonSample) :
    (s.step x).ignoring = false ∧
      ((s.step x).debounced = true → (s.step x).pressStartMs = reading 32 x.t) ∧
      s.action x = .none ∧ s.feedback x = .none := by
  have hframe := (s.debounce_frame x.pressed).1.trans hignoring
  have hwas := h.was.trans hdebounced
  rw [s.step_debounced, ButtonState.step, ButtonState.action, ButtonState.feedback]
  cases hpressed : (s.debounce x.pressed).debounced with
  | false =>
    rw [s.update_idle _ _ hignoring hwas hpressed]
    exact ⟨hframe, fun hon => absurd hon Bool.false_ne_true, rfl, rfl⟩
  | true =>
    rw [s.update_press _ _ hignoring hwas hpressed]
    exact ⟨hframe, fun _ => rfl, rfl, rfl⟩

/-- An update while a press goes on that began at `t₀`: the time since decides
what is shown, and what is done if it ends here. -/
theorem step_pressed (h : ButtonTracks first s past) (hignoring : s.ignoring = false)
    (hdebounced : s.debounced = true) {t₀ : ℕ} (hstart : s.pressStartMs = reading 32 t₀)
    (x : ButtonSample) :
    (s.step x).ignoring = false ∧ (s.step x).pressStartMs = reading 32 t₀ ∧
      s.action x = (if (s.step x).debounced then .none
        else heldAction (reading 32 x.t - reading 32 t₀).toNat) ∧
      s.feedback x = if (s.step x).debounced
        then heldFeedback (reading 32 x.t - reading 32 t₀).toNat else .none := by
  obtain ⟨hframe, -, hkept⟩ := s.debounce_frame x.pressed
  rw [hignoring] at hframe
  rw [hstart] at hkept
  have hwas := h.was.trans hdebounced
  rw [s.step_debounced, ButtonState.step, ButtonState.action, ButtonState.feedback]
  cases hpressed : (s.debounce x.pressed).debounced with
  | false =>
    rw [s.update_release _ _ hignoring hwas hpressed, hstart]
    exact ⟨hframe, hkept, rfl, rfl⟩
  | true =>
    rw [s.update_hold _ _ hignoring hwas hpressed, hstart]
    exact ⟨hframe, hkept, rfl, rfl⟩

theorem step (h : ButtonTracks first s past) (x : ButtonSample) :
    ButtonTracks first (s.step x) ((s, x) :: past) := by
  have hknows : (s.step x).debouncer.Knows buttonDebounceTicks first
      (((s, x) :: past).map fun e => e.2.pressed) := by
    rw [s.step_debouncer]
    exact h.knows.sample (by decide) x.pressed
  have hwas : (s.step x).wasPressed = (s.step x).debounced :=
    ((s.update_frame x.pressed _).2).trans (s.step_debounced x).symm
  have hidle : (s.step x).debounced = false → pressStart ((s, x) :: past) = none := by
    intro hoff
    rw [pressStart_cons, hoff, if_neg Bool.false_ne_true]
  rcases h.cases with ⟨hoff, hignoring, -⟩ | ⟨hon, hignoring, hnone⟩ |
    ⟨t₀, hon, hignoring, hsome, hstart⟩
  · obtain ⟨hstays, hbegins, -, -⟩ := h.step_idle hignoring hoff x
    refine ⟨hknows, hwas, fun hyes => ?_, hidle, fun _ hon => ⟨x.t, ?_, hbegins hon⟩⟩
    · exact absurd (hstays.symm.trans hyes) Bool.false_ne_true
    · rw [pressStart_cons, hon, hoff]
      rfl
  · obtain ⟨hstays, -, -⟩ := s.step_ignoring hignoring x
    refine ⟨hknows, hwas, fun hyes => ⟨hstays.symm.trans hyes, ?_⟩, hidle, fun hno hyes => ?_⟩
    · simp [pressStart_cons, hon, hnone]
    · exact absurd (hno.symm.trans (hstays.trans hyes)) Bool.false_ne_true
  · obtain ⟨hstays, hkept, -, -⟩ := h.step_pressed hignoring hon hstart x
    refine ⟨hknows, hwas, fun hyes => ?_, hidle, fun _ hyes => ⟨t₀, ?_, hkept⟩⟩
    · exact absurd (hstays.symm.trans hyes) Bool.false_ne_true
    · rw [pressStart_cons, hyes, hon]
      exact hsome

end ButtonTracks

theorem run_buttonTracks (pressedNow : Bool) (xs : List ButtonSample) :
    ButtonTracks pressedNow (buttonRun pressedNow xs) (buttonPast pressedNow xs) := by
  refine run_induction ButtonState.step (I := ButtonTracks pressedNow) (P := fun _ _ => True) _ ?_
    (fun s past x h _ => h.step x) xs (fun _ _ => trivial)
  refine ⟨Debouncer.knows_start _ _, rfl, fun hyes => ⟨hyes, rfl⟩, fun _ => rfl, ?_⟩
  intro hno hyes
  exact absurd (hno.symm.trans hyes) Bool.false_ne_true

/-- An update with the sample `x`. The level changes on the third of three
samples running, and then only. An action ends a press that began after
start-up, and between two actions a press begins. The time since its start
decides on the action at its end. -/
structure ButtonSafe (first : Bool) (past : List (ButtonState × ButtonSample)) (s : ButtonState)
    (x : ButtonSample) : Prop where
  level : (s.step x).debounced ≠ s.debounced ↔ x.pressed ≠ s.debounced ∧
    Debouncer.Fresh 3 first (x.pressed :: past.map fun e => e.2.pressed) x.pressed
  acts : s.action x ≠ .none → s.debounced = true ∧ (s.step x).debounced = false ∧
    (pressStart past).isSome = true ∧
    ∃ d ∈ past, d.1.debounced = false ∧ (d.1.step d.2).debounced = true
  once : s.action x ≠ .none → ∀ later e earlier, past = later ++ e :: earlier →
    e.1.action e.2 ≠ .none →
    ∃ d ∈ later, d.1.debounced = false ∧ (d.1.step d.2).debounced = true
  timed : ∀ t₀ ∈ pressStart past, x.t < t₀ + 2 ^ 32 → (s.step x).debounced = false →
    (s.action x = .reset ↔ 15000 ≤ x.t - t₀) ∧
      (s.action x = .portal ↔ 5000 ≤ x.t - t₀ ∧ x.t - t₀ < 15000)

theorem heldAction_iff (heldMs : ℕ) : (heldAction heldMs = .reset ↔ 15000 ≤ heldMs) ∧
    (heldAction heldMs = .portal ↔ 5000 ≤ heldMs ∧ heldMs < 15000) := by
  unfold heldAction buttonResetMs buttonPortalMs
  split_ifs
  · exact ⟨iff_of_true rfl (by omega), iff_of_false (by decide) (by omega)⟩
  · exact ⟨iff_of_false (by decide) (by omega), iff_of_true rfl (by omega)⟩
  · exact ⟨iff_of_false (by decide) (by omega), iff_of_false (by decide) (by omega)⟩

theorem exists_begin {past : List (ButtonState × ButtonSample)}
    (h : (pressStart past).isSome = true) :
    ∃ d ∈ past, d.1.debounced = false ∧ (d.1.step d.2).debounced = true := by
  induction past with
  | nil => cases h
  | cons d past ih =>
    rw [pressStart_cons] at h
    split_ifs at h with hon hbefore
    · obtain ⟨b, hb, hbegins⟩ := ih h
      exact ⟨b, List.mem_cons_of_mem d hb, hbegins⟩
    · exact ⟨d, List.mem_cons_self .., Bool.eq_false_iff.mpr hbefore, hon⟩
    · cases h

theorem begins_after (later earlier : List (ButtonState × ButtonSample))
    {e : ButtonState × ButtonSample} (hoff : (e.1.step e.2).debounced = false)
    (h : (pressStart (later ++ e :: earlier)).isSome = true) :
    ∃ d ∈ later, d.1.debounced = false ∧ (d.1.step d.2).debounced = true := by
  induction later with
  | nil =>
    rw [List.nil_append, pressStart_cons, hoff, if_neg Bool.false_ne_true] at h
    cases h
  | cons d later ih =>
    rw [List.cons_append, pressStart_cons] at h
    split_ifs at h with hon hbefore
    · obtain ⟨b, hb, hbegins⟩ := ih h
      exact ⟨b, List.mem_cons_of_mem d hb, hbegins⟩
    · exact ⟨d, List.mem_cons_self .., Bool.eq_false_iff.mpr hbefore, hon⟩
    · cases h

namespace ButtonTracks

variable {first : Bool} {s : ButtonState} {past : List (ButtonState × ButtonSample)}

theorem acts (h : ButtonTracks first s past) {x : ButtonSample} (hact : s.action x ≠ .none) :
    s.debounced = true ∧ (s.step x).debounced = false ∧ (pressStart past).isSome = true := by
  rcases h.cases with ⟨hoff, hignoring, -⟩ | ⟨-, hignoring, -⟩ | ⟨t₀, hon, hignoring, hsome, hstart⟩
  · exact absurd (h.step_idle hignoring hoff x).2.2.1 hact
  · exact absurd (s.step_ignoring hignoring x).2.1 hact
  · refine ⟨hon, ?_, by rw [hsome]; rfl⟩
    rw [(h.step_pressed hignoring hon hstart x).2.2.1] at hact
    cases hstep : (s.step x).debounced with
    | false => rfl
    | true => exact absurd (if_pos hstep) hact

theorem pressed_of_start (h : ButtonTracks first s past) {t₀ : ℕ}
    (hsome : pressStart past = some t₀) :
    s.debounced = true ∧ s.ignoring = false ∧ s.pressStartMs = reading 32 t₀ := by
  rcases h.cases with ⟨-, -, hnone⟩ | ⟨-, -, hnone⟩ | ⟨t, hon, hignoring, hsome', hstart⟩
  · exact absurd (hnone.symm.trans hsome) (by simp)
  · exact absurd (hnone.symm.trans hsome) (by simp)
  · obtain rfl : t = t₀ := Option.some.inj (hsome'.symm.trans hsome)
    exact ⟨hon, hignoring, hstart⟩

theorem times (h : ButtonTracks first s past) {t₀ : ℕ} (hsome : pressStart past = some t₀)
    {x : ButtonSample} (hle : t₀ ≤ x.t) (hturn : x.t < t₀ + 2 ^ 32) :
    s.action x = (if (s.step x).debounced then .none else heldAction (x.t - t₀)) ∧
      s.feedback x = if (s.step x).debounced then heldFeedback (x.t - t₀) else .none := by
  obtain ⟨hon, hignoring, hstart⟩ := h.pressed_of_start hsome
  have hpressed := (h.step_pressed hignoring hon hstart x).2.2
  rwa [reading_sub_toNat 32 x.t t₀ hle, Nat.mod_eq_of_lt (by omega)] at hpressed

end ButtonTracks

/-- In every run, whatever the samples, each update is safe. -/
theorem run_button_safe (pressedNow : Bool) (xs : List ButtonSample) (x : ButtonSample)
    (horder : ((xs ++ [x]).map ButtonSample.t).Pairwise (· ≤ ·)) :
    ButtonSafe pressedNow (buttonPast pressedNow xs) (buttonRun pressedNow xs) x := by
  have h := run_buttonTracks pressedNow xs
  refine ⟨?_, fun hact => ?_, fun hact later e earlier hsplit hbefore => ?_,
    fun t₀ hsome hturn hoff => ?_⟩
  · have hlevel := Debouncer.level_changes_iff (by decide) h.knows x.pressed
    rw [← ButtonState.step_debouncer] at hlevel
    exact hlevel
  · obtain ⟨hon, hoff, hstart⟩ := h.acts hact
    exact ⟨hon, hoff, hstart, exists_begin hstart⟩
  · have hsuffix : e :: earlier <:+ buttonPast pressedNow xs := ⟨later, hsplit.symm⟩
    obtain ⟨js, ks, hxs, hstate, hearlier⟩ := entry_of_suffix hsuffix
    have hthen := run_buttonTracks pressedNow js
    rw [← show e.1 = buttonRun pressedNow js from hstate] at hthen
    refine begins_after later earlier (hthen.acts hbefore).2.1 ?_
    rw [← hsplit]
    exact (h.acts hact).2.2
  · obtain ⟨e, he, ht⟩ := pressStart_mem hsome
    have hle : t₀ ≤ x.t := by
      rw [List.map_append] at horder
      rw [← ht]
      exact (List.pairwise_append.mp horder).2.2 e.2.t
        (List.mem_map_of_mem (input_of_history ButtonState.step _ xs e he)) x.t (by simp)
    rw [(h.times hsome hle hturn).1, hoff, if_neg Bool.false_ne_true]
    exact heldAction_iff (x.t - t₀)

/-- The button bounces at start-up, is pressed at 20 ms and held for 16 s. -/
def longPress : List ButtonSample :=
  [⟨true, 0⟩, ⟨true, 10⟩, ⟨true, 20⟩, ⟨true, 8000⟩, ⟨false, 16000⟩, ⟨true, 16010⟩, ⟨false, 16020⟩,
    ⟨false, 16030⟩]

theorem long_press_resets : (buttonRun false longPress).action ⟨false, 16040⟩ = .reset :=
  ((run_button_safe false longPress ⟨false, 16040⟩ (by decide)).timed 20 (by decide +kernel)
    (by decide) (by decide +kernel)).1.mpr (by decide)

end RelayBoard
