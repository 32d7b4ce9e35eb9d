import RelayBoard.Commands
import RelayBoard.InputOverrides
import RelayBoard.IoTask

/-!
# What switches a relay on

The I/O task's own commands come from an input linked to the relay or from a
schedule that names it. A relay for which there is neither, and which no other
task commands, does not go on: ticks, settings saves and the fail-safe carry
out or take back what a command has left, and add nothing to it.
-/

set_option autoImplicit false

namespace RelayBoard
open BitVec Lib.Runs Relay

/-- No input is linked to relay `r` and no schedule names it. -/
structure IoSettings.Unused (r : Channel) (settings : IoSettings) : Prop where
  inputs : ∀ i, ¬settings.sense.Names r i
  schedules : ∀ e, (settings.schedules e).relay ≠ r.val + 1

def Op.Spares (r : Channel) (op : Op) : Prop := op.running = true ∧ op.commandTo r = none

variable {r : Channel} {w : World} {c : Call}

theorem set_spares {channel : ℕ} {on : Bool} {src : RelaySource} (h : channel ≠ r.val + 1) :
    Op.Spares r (.set channel on src) := ⟨rfl, by simp [Op.commandTo, Op.command, h]⟩

theorem toggle_spares {channel : ℕ} {src : RelaySource} (h : channel ≠ r.val + 1) :
    Op.Spares r (.toggle channel src) := ⟨rfl, by simp [Op.commandTo, Op.command, h]⟩

structure Resting (r : Channel) (w : World) : Prop where
  steady : w.s.Steady
  off : w.s.mask.has r = false
  idle : w.s.pendingOn.has r = false

/-- No other relay's command, no tick, save or fail-safe switches it on, or has
it wait to go on. -/
theorem step_resting (h : Resting r w) (hop : c.op.Spares r) : Resting r (step w c) := by
  have hacts := step_acts w c hop.1 h.steady
  refine ⟨hacts.steady h.steady, ?_, ?_⟩ <;> rw [← Bool.not_eq_true]
  · intro hon
    rcases step_energises w c h.steady hop.1 h.off hon with hto | ⟨-, hp⟩
    · rw [hop.2] at hto
      cases hto
    · exact absurd (hp.symm.trans h.idle) Bool.noConfusion
  · intro hp
    rcases hacts.pending_of hp with hold | ⟨dead, src, hd⟩
    · exact absurd (hold.symm.trans h.idle) Bool.noConfusion
    · have hdefers := defers_of_mem w c hop.1 hd
      simp [defers, commanded, requests, hop.2] at hdefers

theorem asked_poll {s : InputSense} (h : ∀ i, ¬s.cfg.Names r i) (raw : Mask) (now : Ms) :
    asked r (s.inputSensePoll raw now).2 = [] := by
  unfold InputSense.inputSensePoll
  dsimp only
  split_ifs
  · rfl
  · exact (asked_startUp (s.sample raw now) now r).2 h
  · exact (asked_takeUp (s.sample raw now) now r).2 h

theorem spares_of_override {calls : List SenseCall} (h : asked r calls = []) {call : SenseCall}
    (hcall : call ∈ calls) {op : Op} (hop : call.relayOp = some op) : op.Spares r := by
  cases call with
  | notify i on mask => cases hop
  | override q action =>
    obtain rfl := Option.some.inj hop
    have hne : q.val + 1 ≠ r.val + 1 := by
      intro hq
      obtain rfl : q = r := Fin.ext (by omega)
      have hnone := List.filterMap_eq_nil_iff.mp h _ hcall
      simp [SenseCall.asks] at hnone
    cases action with
    | toggle => exact toggle_spares hne
    | on => exact set_spares hne
    | off => exact set_spares hne

theorem spares_of_schedule {δ : Type} {sunTimes : ℤ → ℕ → ℕ → δ → δ → SunTimes}
    {s : ScheduleEval} {t : ScheduleTick δ} (h : ∀ e, (t.schedules e).relay ≠ r.val + 1)
    {out : ScheduleOut} (hout : out ∈ (s.scheduleEvalTick sunTimes t).2) {op : Op}
    (hop : out.relayOp = some op) : op.Spares r := by
  cases out with
  | health report => cases hop
  | setRelay entry relay on =>
    obtain rfl := Option.some.inj hop
    have hrelay : relay = (t.schedules entry).relay := by
      unfold ScheduleEval.scheduleEvalTick at hout
      split_ifs at hout <;> simp at hout
      · exact hout.2.1
      · exact hout.2.1
    exact set_spares fun heq => h entry (hrelay.symm.trans heq)

namespace IoTask

variable {δ : Type} (sunTimes : ℤ → ℕ → ℕ → δ → δ → SunTimes) {s : IoTask}

/-- Settings that are loaded leave relay `r` unused, and no other task commands
it. -/
def LeavesOut (r : Channel) : IoAction δ → Prop
  | .io x => ∀ settings, x.loaded = some settings → settings.Unused r
  | .command _ channel _ _ => channel ≠ r.val + 1
  | _ => True

/-- Relay `r` is at rest, and neither the settings nor what the task still has
to do concern it. -/
structure LeftOut (r : Channel) (s : IoTask) : Prop where
  relays : Resting r s.relays
  inputs : ∀ i, ¬s.inputs.cfg.Names r i
  settings : s.settings.Unused r
  pending : ∀ op ∈ s.pending, op.Spares r

theorem buttonPoll_leftOut (h : s.LeftOut r) (x : IoReads δ) : (s.buttonPoll x).LeftOut r := by
  unfold buttonPoll
  dsimp only
  split_ifs
  · exact h
  · split
    · exact ⟨h.relays, h.inputs, h.settings, h.pending⟩
    · exact ⟨h.relays, h.inputs, h.settings, h.pending⟩
    · refine ⟨?_, h.inputs, h.settings, h.pending⟩
      unfold World.clearHoldState
      split_ifs
      · exact ⟨h.relays.steady, h.relays.off, h.relays.idle⟩
      · exact h.relays

theorem scheduleTick_leftOut (h : s.LeftOut r) (x : IoReads δ) :
    (s.scheduleTick sunTimes x).1.LeftOut r := by
  unfold scheduleTick
  dsimp only
  split_ifs
  · exact h
  · refine ⟨h.relays, h.inputs, h.settings, fun op hop => ?_⟩
    obtain ⟨out, hout, hop⟩ := List.mem_filterMap.mp hop
    exact spares_of_schedule h.settings.schedules hout hop

theorem enter_leftOut (h : s.LeftOut r) (x : IoReads δ) (hx : LeavesOut r (.io x)) :
    (s.enter sunTimes x).LeftOut r := by
  unfold enter
  cases s.pc with
  | kick =>
    dsimp only
    split_ifs
    · exact h
    · exact ⟨h.relays, h.inputs, h.settings, h.pending⟩
  | wake =>
    dsimp only
    split
    · rename_i settings _ hloaded
      refine ⟨h.relays, h.inputs, hx settings hloaded, fun op hop => ?_⟩
      obtain rfl := List.mem_singleton.mp hop
      exact ⟨rfl, rfl⟩
    · exact ⟨h.relays, h.inputs, h.settings, h.pending⟩
  | updateInputs =>
    refine ⟨h.relays, ?_, h.settings, h.pending⟩
    have hcfg : (s.inputs.inputSenseUpdateConfig s.settings.sense).1.cfg = s.settings.sense := by
      unfold InputSense.inputSenseUpdateConfig
      dsimp only
      split_ifs <;> rfl
    dsimp only
    rw [hcfg]
    exact h.settings.inputs
  | updateBridge => exact ⟨h.relays, h.inputs, h.settings, h.pending⟩
  | tick =>
    refine ⟨h.relays, h.inputs, h.settings, fun op hop => ?_⟩
    obtain rfl := List.mem_singleton.mp hop
    exact ⟨rfl, rfl⟩
  | poll =>
    refine ⟨h.relays, ?_, h.settings, fun op hop => ?_⟩
    · dsimp only
      rw [(s.inputs.poll_frame x.pins _).1]
      exact h.inputs
    · obtain ⟨call, hcall, hop⟩ := List.mem_filterMap.mp hop
      exact spares_of_override (asked_poll h.inputs x.pins _) hcall hop
  | button =>
    have hpoll := buttonPoll_leftOut h x
    exact ⟨hpoll.relays, hpoll.inputs, hpoll.settings, hpoll.pending⟩
  | skTick =>
    refine ⟨h.relays, h.inputs, h.settings, fun op hop => ?_⟩
    dsimp only at hop
    split_ifs at hop
    · obtain rfl := List.mem_singleton.mp hop
      exact ⟨rfl, rfl⟩
    · cases hop
  | schedule =>
    have htick := scheduleTick_leftOut sunTimes h x
    exact ⟨htick.relays, htick.inputs, htick.settings, htick.pending⟩

theorem step_leftOut (h : s.LeftOut r) (a : IoAction δ) (ha : LeavesOut r a) :
    (s.step sunTimes a).LeftOut r := by
  cases a with
  | io x =>
    unfold step
    dsimp only
    split
    · rename_i op rest hpending
      refine ⟨step_resting h.relays (h.pending op (by simp [hpending])), h.inputs, h.settings,
        fun o ho => h.pending o ?_⟩
      rw [hpending]
      exact List.mem_cons_of_mem op ho
    · exact enter_leftOut sunTimes h x ha
  | command who channel on x =>
    exact ⟨step_resting h.relays (set_spares ha), h.inputs, h.settings, h.pending⟩
  | streamChanged connected time => exact ⟨h.relays, h.inputs, h.settings, h.pending⟩
  | configChange => exact ⟨h.relays, h.inputs, h.settings, h.pending⟩

/-- A relay that is off, with no turn-on waiting, no input linked to it and no
schedule that names it, stays off until a task commands it: not a fault of the
expander, a saved setting, a partner, the button or the SignalK-loss timer
switches it on. -/
theorem unused_stays_off (s : IoTask) (h : s.LeftOut r) (as : List (IoAction δ))
    (has : ∀ a ∈ as, LeavesOut r a) : (run (step sunTimes) s as).relays.s.mask.has r = false := by
  have hrun : (run (step sunTimes) s as).LeftOut r :=
    run_invariant (step sunTimes) s h (fun _ a ht ha => step_leftOut sunTimes ht a ha) as
      fun e he => has e.2 (input_of_history _ _ _ e he)
  exact hrun.relays.off

/-- Relay 3, while relay 1 is commanded on. -/
theorem unused_stays_off_relayThree :
    (run (step noSun) (idle (RelayBoard.step coldBoot (.plain (.init .schemaDefault) 0)))
      [.io (plainReads 5), .command .sk 1 true (plainReads 6), .io (plainReads 7),
        .io (plainReads 8)]).relays.s.mask.has 2 = false := by
  refine unused_stays_off noSun _ ⟨⟨?_, by decide +kernel, by decide +kernel⟩, by decide +kernel,
    ⟨by decide +kernel, by decide +kernel⟩, by simp [idle]⟩ _ fun a ha => ?_
  · refine fun i => ⟨?_, ?_⟩ <;> revert i <;> decide +kernel
  · simp only [List.mem_cons, List.not_mem_nil, or_false] at ha
    rcases ha with rfl | rfl | rfl | rfl <;> simp [LeavesOut, plainReads]

end IoTask

end RelayBoard
