import RelayBoard.TurnOn

/-!
# What the expander holds

`s.mask` is meant to be the state last confirmed on the chip. A write that
fails after taking effect leaves the two apart, and since an unchanged target
is not written, an answer of `ESP_OK` then says nothing about the coil. After
a boot that went through, the two stay together for as long as no commit fails
with its target on the chip, and then every answer is right.
-/

set_option autoImplicit false

namespace RelayBoard
open BitVec Lib.Runs Lib.Clock

/-- The coil of relay `i` as the expander drives it: its output bit, if the
configuration register has the pin as an output. -/
def Chip.drives (chip : Chip) (i : Channel) (on : Bool) : Prop :=
  (fromReg chip.output).has i = on ∧ chip.config.has i = false

instance (chip : Chip) (i : Channel) (on : Bool) : Decidable (chip.drives i on) :=
  inferInstanceAs (Decidable (_ ∧ _))

/-- The coil level a reported value stands for. -/
def coilLevel (cfg : DeviceConfig) (i : Channel) (on : Bool) : Bool := on != (cfg.relays i).wiredNc

/-- A commit that reports success leaves the target's bit on the chip if it
differs from the mask's, else the bit that was there. -/
theorem commitLocked_chip (target : Mask) (w : World) (i : Channel)
    (hok : (commitLocked target w).1 = .ok ()) :
    (commitLocked target w).2.env.chip.config = w.env.chip.config ∧
    (fromReg (commitLocked target w).2.env.chip.output).has i =
      if target = w.s.mask then (fromReg w.env.chip.output).has i else target.has i := by
  rcases commitLocked_cases target w with ⟨ht, h⟩ | ⟨ht, hr, health, h⟩ | ⟨ht, e, health, hr, h⟩
  · rw [h, if_pos ht]
    exact ⟨rfl, rfl⟩
  · rw [h, if_neg ht]
    refine ⟨attempts_config _ _, ?_⟩
    have ho : ((w.env.attempts (toReg target)).showing health).chip.output = toReg target :=
      attempts_output _ _ hr
    rw [ho]
    rfl
  · rw [h] at hok
    cases hok

theorem coilOff_commit (i : Channel) (w : World) :
    (coilOff i w).1 = (commitLocked (w.s.mask &&& ~~~single i)
      { w with s.pendingOn := w.s.pendingOn &&& ~~~single i }).1 ∧
    (coilOff i w).2.env = (commitLocked (w.s.mask &&& ~~~single i)
      { w with s.pendingOn := w.s.pendingOn &&& ~~~single i }).2.env := by
  unfold coilOff
  dsimp only
  split <;> rename_i hc <;> rw [hc] <;> exact ⟨rfl, rfl⟩

theorem directOn_commit (i : Channel) (partnerBit : Mask) (w : World) :
    (directOn i partnerBit w).1 = (commitLocked (w.s.mask ||| single i) w).1 ∧
    (directOn i partnerBit w).2.env = (commitLocked (w.s.mask ||| single i) w).2.env := by
  unfold directOn
  dsimp only
  split <;> rename_i hc <;> rw [hc]
  · split_ifs <;> exact ⟨rfl, rfl⟩
  · exact ⟨rfl, rfl⟩

theorem target_eq_mask (i : Channel) (target mask : Mask)
    (h : ∀ j, j ≠ i → target.has j = mask.has j) : target = mask ↔ mask.has i = target.has i := by
  constructor
  · rintro rfl
    rfl
  · intro hi
    apply ext_has
    intro j
    by_cases hj : j = i
    · rw [hj, hi]
    · exact h j hj

/-- A command that is answered with success and leaves nothing pending is
carried out on the chip, unless the mask already shows it. -/
theorem command_chip (i : Channel) (k : Command) (w : World)
    (hok : (command i k w).1 = .ok ()) (hpend : (command i k w).2.s.pendingOn.has i = false) :
    (command i k w).2.env.chip.config = w.env.chip.config ∧
    (fromReg (command i k w).2.env.chip.output).has i =
      if w.s.mask.has i = coilRequest i k.onReq w.s then (fromReg w.env.chip.output).has i
      else coilRequest i k.onReq w.s := by
  cases hreq : coilRequest i k.onReq w.s
  · have hoff : command i k w = coilOff i w := by rw [command, hreq]; rfl
    rw [hoff, (coilOff_commit i w).1] at hok
    rw [hoff, (coilOff_commit i w).2]
    have hchip := commitLocked_chip _ _ i hok
    have htarget := target_eq_mask i (w.s.mask &&& ~~~single i) w.s.mask
      (fun j hj => by simp [hj])
    have hbit : (w.s.mask &&& ~~~single i).has i = false := by simp
    rw [hbit] at hchip htarget
    refine ⟨hchip.1, hchip.2.trans ?_⟩
    simp only [htarget]
  · have hon : command i k w = coilOn i k.src w := by rw [command, hreq]; rfl
    rw [hon] at hok hpend ⊢
    have hdirect := coilOn_direct i k.src w hok hpend
    rw [hdirect, (directOn_commit i _ w).1] at hok
    rw [hdirect, (directOn_commit i _ w).2]
    have hchip := commitLocked_chip _ _ i hok
    have htarget := target_eq_mask i (w.s.mask ||| single i) w.s.mask (fun j hj => by simp [hj])
    have hbit : (w.s.mask ||| single i).has i = true := by simp
    rw [hbit] at hchip htarget
    refine ⟨hchip.1, hchip.2.trans ?_⟩
    simp only [htarget]

/-- The bit of relay `i` is as the mask has it, or the command changes it, and
the pin is an output. -/
def BitTrusted (w : World) (i : Channel) (on : Bool) : Prop :=
  w.env.chip.config.has i = false ∧
    (w.s.mask.has i = coilLevel w.s.cfg i on →
      (fromReg w.env.chip.output).has i = w.s.mask.has i)

instance (w : World) (i : Channel) (on : Bool) : Decidable (BitTrusted w i on) :=
  inferInstanceAs (Decidable (_ ∧ _))

theorem set_drives_iff (w : World) (c : Call) (i : Channel) (on : Bool) (src : RelaySource)
    (hop : c.op = .set (i.val + 1) on src) (hok : (result w c).err = .ok ())
    (hpend : (step w c).s.pendingOn.has i = false) :
    (step w c).env.chip.drives i (coilLevel w.s.cfg i on) ↔ BitTrusted w i on := by
  have hto : c.op.commandTo i = some ⟨i.val + 1, some on, src⟩ := by
    rw [hop]
    simp [Op.commandTo, Op.command]
  have hres := perform_commandTo (w.begin c) hto
  unfold step at hpend ⊢
  unfold result at hok hpend ⊢
  rw [hres] at hok hpend ⊢
  obtain ⟨hcfg, hbit⟩ := command_chip i ⟨i.val + 1, some on, src⟩ (w.begin c) hok hpend
  unfold Chip.drives BitTrusted
  rw [hcfg, hbit]
  change (if w.s.mask.has i = coilLevel w.s.cfg i on then (fromReg w.env.chip.output).has i
    else coilLevel w.s.cfg i on) = _ ∧ w.env.chip.config.has i = false ↔ _
  split_ifs with hm
  · rw [hm]
    tauto
  · tauto

/-- Relay 1's turn-on reaches the expander twice and is reported failed; the
turn-off then finds nothing to write. -/
def unwrittenOffRun : List Call :=
  [.plain (.init .schemaDefault) 0,
    ⟨.set 1 true .web, 10, [.taken .timeout, .taken .timeout], none⟩]

theorem off_answered_ok_while_energised :
    ¬∀ (chip : Chip) (stored : Option Mask) (health : HealthKey → Health) (cs : List Call),
      ∀ e ∈ history step (boot chip stored health) cs,
        ∀ (i : Channel) (on : Bool) (src : RelaySource), e.2.op = .set (i.val + 1) on src →
          (result e.1 e.2).err = .ok () → (step e.1 e.2).s.pendingOn.has i = false →
          (step e.1 e.2).env.chip.drives i (coilLevel e.1.s.cfg i on) := by
  intro h
  have hoff := h ⟨0x00#8, 0xff#8⟩ none (fun _ => .normal)
    (unwrittenOffRun ++ [.plain (.set 1 false .web) 20])
    (run step coldBoot unwrittenOffRun, .plain (.set 1 false .web) 20)
    (by rw [history_snoc]; exact List.mem_cons_self ..) 0 false .web rfl (by decide +kernel)
    (by decide +kernel)
  exact absurd hoff (by decide +kernel)

/-- The expander drives exactly the coils of `s.mask`. -/
def World.Agrees (w : World) : Prop := w.env.chip = ⟨toReg w.s.mask, 0x00#8⟩

theorem perform_sync (op : Op) (hop : op.running = true) (w : World) (h : w.InSync) :
    (perform op w).world.InSync := by
  cases op with
  | init cfg => cases hop
  | set channel on src => exact (setOrToggle_wrote channel (some on) src w).sync h
  | toggle channel src => exact (setOrToggle_wrote channel none src w).sync h
  | tick =>
    have hkeep := saveHold_keeps (firePending (timedOut w)).2 World.InSync (fun _ _ _ _ _ => rfl)
    have hfired := (fired_moved w).sync h
    rw [← hkeep] at hfired
    exact hfired
  | skLost => exact (skLost_wrote w).sync h
  | updateConfig cfg =>
    refine (resolveConflict_wrote (applyConfig cfg w)).sync ⟨h.1, ?_⟩
    rw [applyConfig_mask]
    exact h.2

theorem step_agrees (w : World) (c : Call) (hop : c.op.running = true)
    (hstray : noStray c.faults = true) (h : w.Agrees) : (step w c).Agrees :=
  (perform_sync c.op hop (w.begin c) ⟨hstray, h⟩).2

theorem Starts.agrees {w : World} {c : Call} {cfg : DeviceConfig} (h : Starts w c cfg) :
    (step w c).Agrees := by
  obtain ⟨warm, held, env, -, -, hchip, -, hs⟩ := h.booted
  obtain ⟨health, henv⟩ := booted_env cfg warm held (reading 32 c.time) w.s env
  rw [hs, World.Agrees, henv, booted_mask]
  exact hchip

/-- After a boot that went through, whatever came before it, the answers are
right in every run in which no commit fails with its target on the chip. -/
theorem run_set_drives (w : World) (c₀ : Call) (cfg : DeviceConfig) (h₀ : Starts w c₀ cfg)
    (cs : List Call) (hcs : ∀ c ∈ cs, c.op.running = true ∧ noStray c.faults = true) :
    ∀ e ∈ history step (step w c₀) cs,
      ∀ (i : Channel) (on : Bool) (src : RelaySource), e.2.op = .set (i.val + 1) on src →
        (result e.1 e.2).err = .ok () → (step e.1 e.2).s.pendingOn.has i = false →
        (step e.1 e.2).env.chip.drives i (coilLevel e.1.s.cfg i on) := by
  intro e he i on src hop hok hpend
  obtain ⟨js, ks, hcs', hrun⟩ := (mem_history_iff step _ cs e).mp he
  have hagrees : e.1.Agrees := by
    rw [hrun]
    refine run_invariant step
      (P := fun _ c => c.op.running = true ∧ noStray c.faults = true)
      _ h₀.agrees (fun t c ht hc => step_agrees t c hc.1 hc.2 ht) js (fun d hd => ?_)
    apply hcs
    rw [hcs']
    exact List.mem_append_left _ (input_of_history step _ js d hd)
  refine (set_drives_iff e.1 e.2 i on src hop hok hpend).mpr ⟨?_, fun _ => ?_⟩
  · rw [hagrees]
    exact has_zero i
  · rw [hagrees]
    rfl

/-- Relay 1's turn-on takes effect and is answered with a timeout; the retry
goes through. -/
def repairedOnRun : List Call := [⟨.set 1 true .web, 10, [.taken .timeout], none⟩]

theorem run_set_drives_repaired :
    (step (run step (step coldBoot (.plain (.init .schemaDefault) 0)) repairedOnRun)
      (.plain (.set 1 false .web) 20)).env.chip.drives 0 false :=
  run_set_drives coldBoot (.plain (.init .schemaDefault) 0) .schemaDefault
    ⟨rfl, by decide +kernel⟩ (repairedOnRun ++ [.plain (.set 1 false .web) 20])
    (by decide +kernel)
    (run step (step coldBoot (.plain (.init .schemaDefault) 0)) repairedOnRun,
      .plain (.set 1 false .web) 20)
    (by rw [history_snoc]; exact List.mem_cons_self ..) 0 false .web rfl (by decide +kernel)
    (by decide +kernel)

end RelayBoard
