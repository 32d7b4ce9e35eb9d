import RelayBoard.RelayInit

/-!
# When a coil goes on

A turn-on is carried out at once by a command, or by the tick its dead time
ends in. `turnsOn` says so in terms of a call's result, and it is exactly what
the event `on` of the abstract relay stands for.
-/

set_option autoImplicit false

namespace RelayBoard
open BitVec Lib.Runs Lib.Clock Relay

/-- The call carries out a turn-on of relay `i`: a command to it that succeeds
and leaves the coil on with nothing pending, or a tick that fires its
pending-on. -/
def turnsOn (w : World) (c : Call) (i : Channel) : Bool :=
  if (c.op.commandTo i).isSome then
    (result w c).err.isOk && (step w c).s.mask.has i && !(step w c).s.pendingOn.has i
  else c.op.isTick && (fired (w.begin c)).has i

/-- A command to relay `i` that asks for its coil to be on, or off. -/
def requests (level : Bool) (w : World) (c : Call) (i : Channel) : Bool :=
  match c.op.commandTo i with
  | some k => coilRequest i k.onReq w.s == level
  | none => false

/-- The same, answered with `ESP_OK`. -/
def commanded (level : Bool) (w : World) (c : Call) (i : Channel) : Bool :=
  requests level w c i && (result w c).err.isOk

theorem coilOff_isOk {i : Channel} {w : World} (h : (coilOff i w).1.isOk = true) :
    (coilOff i w).2.s.mask.has i = false := by
  obtain ⟨env, -, ⟨fault, hc⟩ | ⟨e, -, hc⟩⟩ := coilOff_spec i w <;> rw [hc] at h ⊢
  · simp
  · cases h

theorem isOk_iff (r : EspResult Unit) : r.isOk = true ↔ r = .ok () := by
  rcases r with e | _
  · constructor <;> intro h <;> cases h
  · exact ⟨fun _ => rfl, fun _ => rfl⟩

theorem deferOn_pending (i : Channel) (partnerBit : Mask) (src : RelaySource) (w : World)
    (hok : (deferOn i partnerBit src w).1 = .ok ()) :
    (deferOn i partnerBit src w).2.s.pendingOn.has i = true := by
  unfold deferOn at hok ⊢
  dsimp only at hok ⊢
  split at hok
  · simp
  · cases hok

theorem coilOn_direct (i : Channel) (src : RelaySource) (w : World)
    (hok : (coilOn i src w).1 = .ok ()) (hpend : (coilOn i src w).2.s.pendingOn.has i = false) :
    coilOn i src w = directOn i (interlockPartnerBit w.s.cfg i) w := by
  unfold coilOn at hok hpend ⊢
  dsimp only at hok hpend ⊢
  split_ifs at hok hpend ⊢ with hp hq
  · rw [deferOn_pending i _ src w hok] at hpend
    cases hpend
  · rfl
  · simp [hpend] at hq

/-- A command turns its relay on exactly if it succeeds and leaves the coil on
with nothing pending. -/
theorem command_on_iff (i : Channel) (k : Command) (w : World) (h : w.s.Steady) :
    Event.on ∈ commandEvents i k w i ↔ ((command i k w).1.isOk &&
      (command i k w).2.s.mask.has i && !(command i k w).2.s.pendingOn.has i) = true := by
  have ha := (command_acts i k w h).relay i
  unfold commandEvents at ha ⊢
  dsimp only at ha ⊢
  cases hreq : coilRequest i k.onReq w.s
  · have hoff : command i k w = coilOff i w := by rw [command, hreq]; rfl
    constructor
    · intro hmem
      simp at hmem
    · intro hr
      rw [Bool.and_eq_true, Bool.and_eq_true, hoff] at hr
      rw [coilOff_isOk hr.1.1] at hr
      cases hr.1.2
  · have hon : command i k w = coilOn i k.src w := by rw [command, hreq]; rfl
    cases hok : (command i k w).1.isOk
    · simp
    · have hrun : (coilOn i k.src w).1 = .ok () := by
        rw [← hon]
        exact (isOk_iff _).mp hok
      simp only [hreq, hok, Bool.not_true, Bool.false_eq_true, if_false, if_true] at ha ⊢
      by_cases hp : PartnerOn w.s.cfg w.s.mask i
      · have hdefer : coilOn i k.src w = deferOn i (interlockPartnerBit w.s.cfg i) k.src w := by
          rw [coilOn, if_pos ⟨partnerBit_ne_zero hp, (partnerOn_iff _ _ i).mpr hp⟩]
        rw [hdefer] at hrun hon
        have hpend := deferOn_pending i _ k.src w hrun
        rw [← hon] at hpend
        simp [hp, hpend]
      · rw [if_neg hp] at ha ⊢
        cases hq : w.s.pendingOn.has i
        · rw [hq] at ha
          simp only [Bool.false_eq_true, if_false] at ha ⊢
          have hc : (command i k w).2.s.mask.has i = _ := congrArg coil ha
          have hpend : (command i k w).2.s.pendingOn.has i = _ := congrArg pending ha
          rw [hc, hpend]
          cases hbit : (interlockPartnerBit w.s.cfg i).has i <;>
            simp [cancelled, hbit, applyAll, apply, on, cancel, hq]
        · have hidle : (command i k w).2.s.pendingOn.has i = true := by
            rw [hq] at ha
            have h1 := congrArg pending ha
            simpa [applyAll, hq] using h1
          simp [hidle]

theorem setOrToggleEvents_channel (i : Channel) (onReq : Option Bool) (src : RelaySource)
    (w : World) : setOrToggleEvents (i.val + 1) onReq src w =
      commandEvents i ⟨i.val + 1, onReq, src⟩ w := by
  have hi := i.isLt
  funext j
  rw [setOrToggleEvents, dif_pos (by omega)]
  rfl

theorem effects_commandTo {op : Op} {i : Channel} {k : Command} (w : World)
    (h : op.commandTo i = some k) : effects op w = commandEvents i k w := by
  obtain ⟨hk, hch⟩ := commandTo_eq_some h
  cases op with
  | set channel on src =>
    cases hk
    obtain rfl : channel = i.val + 1 := hch
    exact setOrToggleEvents_channel i (some on) src w
  | toggle channel src =>
    cases hk
    obtain rfl : channel = i.val + 1 := hch
    exact setOrToggleEvents_channel i none src w
  | init cfg => cases hk
  | tick => cases hk
  | skLost => cases hk
  | updateConfig cfg => cases hk

theorem setOrToggleEvents_refused {channel : ℕ} (h : ∀ i : Channel, channel ≠ i.val + 1)
    (onReq : Option Bool) (src : RelaySource) (w : World) (j : Channel) :
    setOrToggleEvents channel onReq src w j = [] := by
  rw [setOrToggleEvents, dif_neg]
  intro hc
  obtain ⟨i, hi⟩ := (exists_index (by omega) : ∃ i : Channel, channel = i.val + 1)
  exact h i hi

theorem effects_refused {op : Op} {k : Command} (w : World) (hk : op.command = some k)
    (h : ∀ i, op.commandTo i = none) (j : Channel) : effects op w j = [] := by
  have hch : ∀ i : Channel, k.channel ≠ i.val + 1 := by
    intro i hi
    have hto : op.commandTo i = some k := by
      rw [Op.commandTo, hk]
      simp [hi]
    rw [h i] at hto
    cases hto
  cases op with
  | set channel on src =>
    cases hk
    exact setOrToggleEvents_refused hch (some on) src w j
  | toggle channel src =>
    cases hk
    exact setOrToggleEvents_refused hch none src w j
  | init cfg => cases hk
  | tick => cases hk
  | skLost => cases hk
  | updateConfig cfg => cases hk

theorem isTick_of_command {op : Op} {k : Command} (h : op.command = some k) :
    op.isTick = false := by
  cases op with
  | tick => cases h
  | _ => rfl

/-- The kinds of calls: a command to a relay, a refused one, and the rest. -/
theorem running_cases (op : Op) (h : op.running = true) :
    (∃ i k, op.commandTo i = some k) ∨
    ((∃ k, op.command = some k) ∧ ∀ i, op.commandTo i = none) ∨
    op = .tick ∨ op = .skLost ∨ ∃ cfg, op = .updateConfig cfg := by
  rcases hk : op.command with _ | k
  · cases op with
    | init cfg => cases h
    | set channel on src => cases hk
    | toggle channel src => cases hk
    | tick => simp
    | skLost => simp
    | updateConfig cfg => simp
  · by_cases hto : ∃ i k, op.commandTo i = some k
    · exact Or.inl hto
    · refine Or.inr (Or.inl ⟨⟨k, rfl⟩, fun i => ?_⟩)
      rw [← Option.not_isSome_iff_eq_none, Option.isSome_iff_exists]
      exact fun hi => hto ⟨i, hi⟩

/-- A command addressed elsewhere does not switch relay `j` on. -/
theorem on_not_mem_commandEvents {i j : Channel} (hj : j ≠ i) (k : Command) (w : World) :
    Event.on ∉ commandEvents i k w j := by
  unfold commandEvents
  dsimp only
  split_ifs <;> simp

/-- The event `on` is what `turnsOn` reads off the result. -/
theorem on_mem_effects (w : World) (c : Call) (h : w.s.Steady) (hop : c.op.running = true)
    (i : Channel) : Event.on ∈ effects c.op (w.begin c) i ↔ turnsOn w c i = true := by
  unfold turnsOn
  cases hto : c.op.commandTo i with
  | some k =>
    rw [effects_commandTo _ hto, command_on_iff i k (w.begin c) h]
    have hres := perform_commandTo (w.begin c) hto
    simp only [step, result, hres, Option.isSome_some, if_true]
  | none =>
    simp only [Option.isSome_none, Bool.false_eq_true, if_false]
    rcases running_cases c.op hop with ⟨j, k, hj⟩ | ⟨⟨k, hk⟩, hnone⟩ | ht | hl | ⟨cfg, hu⟩
    · have hne : i ≠ j := by
        rintro rfl
        rw [hj] at hto
        cases hto
      have ht := isTick_of_command (commandTo_eq_some hj).1
      simp [effects_commandTo _ hj, on_not_mem_commandEvents hne, ht]
    · have ht := isTick_of_command hk
      simp [effects_refused _ hk hnone, ht]
    · simp only [ht, effects, tickEvents, Op.isTick, Bool.true_and]
      split_ifs with hf hb <;> simp [hf]
    · simp [hl, effects, skLostEvents, Op.isTick]
    · simp only [hu, effects, updateEvents, Op.isTick]
      split_ifs <;> simp

/-- The relay once new settings, if the call brings any, have been taken over. -/
def reconfigured (w : World) (c : Call) (i : Channel) : Relay :=
  match c.op with
  | .updateConfig cfg => (w.s.relay i).reconfigure (reading 32 c.time) (cfg.relays i)
  | _ => w.s.relay i

theorem reconfigure_not_mem_commandEvents (i j : Channel) (k : Command) (w : World)
    (cfg : RelayCfg) : Event.reconfigure cfg ∉ commandEvents i k w j := by
  unfold commandEvents
  dsimp only
  split_ifs <;> simp

theorem reconfigure_not_mem_setOrToggle (channel : ℕ) (onReq : Option Bool) (src : RelaySource)
    (w : World) (j : Channel) (cfg : RelayCfg) :
    Event.reconfigure cfg ∉ setOrToggleEvents channel onReq src w j := by
  unfold setOrToggleEvents
  split_ifs
  · exact reconfigure_not_mem_commandEvents _ _ _ _ _
  · simp

/-- Settings first, then events of which `turnsOn` tells whether they switch
the relay on. -/
theorem step_relay_from (w : World) (c : Call) (h : w.s.Steady) (hop : c.op.running = true)
    (i : Channel) : ∃ es, (∀ cfg, Event.reconfigure cfg ∉ es) ∧
      (Event.on ∈ es ↔ turnsOn w c i = true) ∧
      (step w c).s.relay i = (reconfigured w c i).applyAll (reading 32 c.time) es := by
  have hon := on_mem_effects w c h hop i
  have hrel := step_relay w c hop h i
  obtain ⟨op, time, faults, saveErr⟩ := c
  cases op with
  | init cfg => cases hop
  | updateConfig cfg =>
    refine ⟨_, ?_, ?_, hrel⟩
    · intro cfg'
      split_ifs <;> simp
    · rw [← hon]
      simp [effects, updateEvents]
  | set channel on src =>
    exact ⟨_, reconfigure_not_mem_setOrToggle channel (some on) src _ i, hon, hrel⟩
  | toggle channel src =>
    exact ⟨_, reconfigure_not_mem_setOrToggle channel none src _ i, hon, hrel⟩
  | tick =>
    refine ⟨_, fun cfg => ?_, hon, hrel⟩
    simp only [effects, tickEvents]
    split_ifs <;> simp
  | skLost => exact ⟨_, fun cfg => by simp [effects, skLostEvents], hon, hrel⟩

theorem step_timer (timer : Timer) (w : World) (c : Call) (h : w.s.Steady)
    (hop : c.op.running = true) (i : Channel)
    (hrun : timer.running ((step w c).s.relay i) = true) :
    (turnsOn w c i = true → timer.ends ((step w c).s.relay i) =
      reading 32 c.time + timer.length ((step w c).s.cfg.relays i)) ∧
    (turnsOn w c i = false → timer.running (reconfigured w c i) = true ∧
      timer.ends ((step w c).s.relay i) = timer.ends (reconfigured w c i)) := by
  obtain ⟨es, hcfg, hon, hrel⟩ := step_relay_from w c h hop i
  have hset : (step w c).s.cfg.relays i = (reconfigured w c i).cfg :=
    (congrArg Relay.cfg hrel).trans (cfg_of_applyAll hcfg)
  rw [hset]
  rw [hrel] at hrun ⊢
  obtain ⟨h1, h2⟩ := timer_of_applyAll timer hcfg hrun
  rw [hon] at h1 h2
  exact ⟨h1, fun hn => h2 (by simp [hn])⟩

end RelayBoard
