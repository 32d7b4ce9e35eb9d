import RelayBoard.RelaySteps

/-!
# Starting up

`relay_ctrl_init` either fails, with the bookkeeping cleared and the coils as
it knew them, or ends in a steady state that holds the restored coils.
-/

set_option autoImplicit false

namespace RelayBoard
open BitVec Lib.Loops Lib.Runs Lib.Clock Relay

structure Accessed (env env' : Env) (wrote : List (Reg × Mask)) : Prop where
  same : SameStore env env'
  writes : env'.writes = env.writes ++ wrote

theorem Accessed.trans {a b c : Env} {u v : List (Reg × Mask)} (h : Accessed a b u)
    (k : Accessed b c v) : Accessed a c (u ++ v) :=
  ⟨h.same.trans k.same, by rw [k.writes, h.writes, List.append_assoc]⟩

theorem readReg_accessed (reg : Reg) (env : Env) : Accessed env (readReg reg env).2 [] := by
  obtain ⟨time, chip, faults, stored, saveErr, health, writes, saves⟩ := env
  rcases faults with _ | ⟨a, rest⟩
  · exact ⟨.refl _, by simp [readReg, nextAccess]⟩
  · cases a <;> exact ⟨⟨rfl, rfl, rfl, rfl, fun h a ha => h a (List.mem_cons_of_mem _ ha)⟩,
      by simp [readReg, nextAccess]⟩

theorem readReg_reliable (reg : Reg) (env : Env) (h : env.Reliable) :
    (readReg reg env).1 = .ok (env.chip.get reg) := by
  obtain ⟨time, chip, faults, stored, saveErr, health, writes, saves⟩ := env
  rcases faults with _ | ⟨a, rest⟩
  · rfl
  · obtain rfl : a = .done := h a (List.mem_cons_self ..)
    rfl

theorem readReg_chip (reg : Reg) (env : Env) : (readReg reg env).2.chip = env.chip ∧
    ∀ v, (readReg reg env).1 = .ok v → v = env.chip.get reg := by
  obtain ⟨time, chip, faults, stored, saveErr, health, writes, saves⟩ := env
  rcases faults with _ | ⟨a, rest⟩
  · exact ⟨rfl, fun v hv => by cases hv; rfl⟩
  · cases a <;> exact ⟨rfl, fun v hv => by cases hv <;> rfl⟩

theorem writeReg_accessed (reg : Reg) (v : Mask) (env : Env) :
    Accessed env (writeReg reg v env).2 [(reg, v)] := by
  obtain ⟨time, chip, faults, stored, saveErr, health, writes, saves⟩ := env
  rcases faults with _ | ⟨a, rest⟩
  · exact ⟨⟨rfl, rfl, rfl, rfl, id⟩, rfl⟩
  · cases a <;> exact ⟨⟨rfl, rfl, rfl, rfl, fun h a ha => h a (List.mem_cons_of_mem _ ha)⟩, rfl⟩

theorem writeReg_reliable (reg : Reg) (v : Mask) (env : Env) (h : env.Reliable) :
    (writeReg reg v env).1 = .ok () := by
  obtain ⟨time, chip, faults, stored, saveErr, health, writes, saves⟩ := env
  rcases faults with _ | ⟨a, rest⟩
  · rfl
  · obtain rfl : a = .done := h a (List.mem_cons_self ..)
    rfl

theorem writeReg_chip (reg : Reg) (v : Mask) (env : Env) (h : (writeReg reg v env).1 = .ok ()) :
    (writeReg reg v env).2.chip = env.chip.set reg v := by
  obtain ⟨time, chip, faults, stored, saveErr, health, writes, saves⟩ := env
  rcases faults with _ | ⟨a, rest⟩
  · rfl
  · cases a
    · rfl
    · cases h
    · cases h

theorem written_accessed (v : Mask) (env : Env) : Accessed env (env.written v) [(.output, v)] :=
  ⟨written_same v env, rfl⟩

/-- The final write of a boot: the outputs, and on a cold boot the directions. -/
def bootWrite (warm : Bool) (v : Mask) (env : Env) : EspResult Unit × Env :=
  if warm then tca9554WriteOutputs v env else tca9554InitOutputs v env

theorem bootWrite_accessed (warm : Bool) (v : Mask) (env : Env) : ∃ wrote,
    Accessed env (bootWrite warm v env).2 wrote ∧
    ∀ e ∈ wrote, e = (.output, v) ∨ e.1 = .config := by
  unfold bootWrite tca9554InitOutputs
  rw [writeOutputs_eq]
  cases warm
  · rcases hw : writeResult env.faults with e | _
    · exact ⟨_, written_accessed v env, by simp⟩
    · exact ⟨_, (written_accessed v env).trans (writeReg_accessed .config 0x00#8 _), by simp⟩
  · exact ⟨_, written_accessed v env, by simp⟩

/-- A boot that goes through leaves the outputs as written and every pin an
output. -/
theorem bootWrite_chip (warm : Bool) (v : Mask) (env : Env)
    (hwarm : warm = true → env.chip.config = 0x00#8) (h : (bootWrite warm v env).1 = .ok ()) :
    (bootWrite warm v env).2.chip = ⟨v, 0x00#8⟩ := by
  unfold bootWrite tca9554InitOutputs at h ⊢
  rw [writeOutputs_eq] at h ⊢
  have hset : writeResult env.faults = .ok () → (env.written v).chip = env.chip.set .output v := by
    intro hok
    rw [Env.written, writeResult_reaches _ hok]
    rfl
  cases warm
  · rcases hw : writeResult env.faults with e | _ <;> rw [hw] at h
    · cases h
    · have hc := writeReg_chip .config 0x00#8 _ h
      rw [hset hw] at hc
      exact hc
  · have hok : writeResult env.faults = .ok () := h
    have hc := hset hok
    rw [Chip.set, hwarm rfl] at hc
    exact hc

theorem bootWrite_reliable (warm : Bool) (v : Mask) (env : Env) (h : env.Reliable) :
    (bootWrite warm v env).1 = .ok () := by
  unfold bootWrite tca9554InitOutputs
  rw [writeOutputs_eq, writeResult_reliable _ h]
  cases warm
  · exact writeReg_reliable _ _ _ ((written_same v env).reliable h)
  · rfl

theorem allOutputs_accessed (env : Env) : Accessed env (tca9554AllOutputs env).2 [] := by
  have h := readReg_accessed .config env
  unfold tca9554AllOutputs
  split <;> rename_i hr <;> rw [hr] at h <;> exact h

theorem allOutputs_chip (env : Env) : (tca9554AllOutputs env).2.chip = env.chip ∧
    ((tca9554AllOutputs env).1 = .ok true → env.chip.config = 0x00#8) := by
  have h := readReg_chip .config env
  unfold tca9554AllOutputs
  split <;> rename_i hr <;> rw [hr] at h
  · refine ⟨h.1, fun hok => ?_⟩
    have hcfg : _ = env.chip.config := h.2 _ rfl
    rw [← hcfg]
    simpa using hok
  · exact ⟨h.1, fun hok => by cases hok⟩

theorem allOutputs_reliable (env : Env) (h : env.Reliable) :
    (tca9554AllOutputs env).1 = .ok (env.chip.config = 0x00#8) := by
  have hr := readReg_reliable .config env h
  unfold tca9554AllOutputs
  split <;> rename_i hc <;> rw [hc] at hr
  · cases hr
    rfl
  · cases hr

theorem bootHeld_accessed (warm : Bool) (env : Env) : Accessed env (bootHeld warm env).2 [] := by
  have h := readReg_accessed .output env
  unfold bootHeld tca9554ReadOutputs
  split_ifs
  · split <;> rename_i hr <;> rw [hr] at h <;> exact h
  · split <;> exact ⟨.refl _, (List.append_nil _).symm⟩

theorem bootHeld_chip (warm : Bool) (env : Env) : (bootHeld warm env).2.chip = env.chip := by
  have h := (readReg_chip .output env).1
  unfold bootHeld tca9554ReadOutputs
  split_ifs
  · split <;> rename_i hr <;> rw [hr] at h <;> exact h
  · split <;> rfl

theorem bootHeld_reliable (warm : Bool) (env : Env) (h : env.Reliable) :
    ∃ held, (bootHeld warm env).1 = .ok held := by
  have hr := readReg_reliable .output env h
  unfold bootHeld tca9554ReadOutputs
  split_ifs
  · split <;> rename_i hc <;> rw [hc] at hr
    · cases hr
    · exact ⟨_, rfl⟩
  · split
    · exact ⟨_, rfl⟩
    · exact ⟨_, rfl⟩

theorem bootHeld_cold (env : Env) : bootHeld false env = (.ok (env.stored.getD 0#8), env) := by
  unfold bootHeld storeLoad
  rcases hs : env.stored with _ | m <;> simp

/-- The bookkeeping as `relay_ctrl_init` starts it. -/
@[simps]
def St.cleared (cfg : DeviceConfig) (now : Ms) (s : St) : St :=
  { s with
    cfg := cfg
    pulsing := 0#8
    limited := 0#8
    pendingOn := 0#8
    savePending := false
    lastSaveMs := now - relayCtrlSaveDelayMs }

/-- What a successful boot ends with, given the coils it found. -/
def booted (cfg : DeviceConfig) (warm : Bool) (held : Mask) (s : St) (env : Env) : World :=
  let boot := clearInterlockConflicts cfg (held &&& holdMask cfg)
  let w := trackMaxOnLocked 0#8 0#8 ⟨{ s with mask := boot.1 }, env⟩
  reportInterlockHealth boot.2 { w with s.savePending := warm || boot.2 ≠ 0#8 }

/-- The two ways `relay_ctrl_init` can end. -/
theorem relayCtrlInit_cases (cfg : DeviceConfig) (w : World) :
    (∃ e env, ¬w.env.Reliable ∧ SameStore w.env env ∧ relayCtrlInit cfg w =
      (.error e, reportFault e ⟨w.s.cleared cfg (nowMs w.env), env⟩)) ∨
    (∃ warm held env wrote, Accessed w.env env wrote ∧
      (∀ e ∈ wrote, e.1 = .config ∨
        e = (.output, toReg (clearInterlockConflicts cfg (held &&& holdMask cfg)).1)) ∧
      env.chip = ⟨toReg (clearInterlockConflicts cfg (held &&& holdMask cfg)).1, 0x00#8⟩ ∧
      (tca9554AllOutputs w.env).1 = .ok warm ∧ (warm = false → held = w.env.stored.getD 0#8) ∧
      relayCtrlInit cfg w =
        (.ok (), booted cfg warm held (w.s.cleared cfg (nowMs w.env)) env)) := by
  have hall := allOutputs_accessed w.env
  have hallr := allOutputs_reliable w.env
  have hallc := allOutputs_chip w.env
  unfold relayCtrlInit
  dsimp only
  -- The three uses of the expander in turn; an error in any ends the boot.
  rcases ha : tca9554AllOutputs w.env with ⟨e | warm, env₁⟩ <;> rw [ha] at hall hallr hallc
  · refine Or.inl ⟨e, env₁, fun h => ?_, hall.same, rfl⟩
    cases hallr h
  · have hheld := bootHeld_accessed warm env₁
    have hheldr := bootHeld_reliable warm env₁
    have hheldc := bootHeld_chip warm env₁
    dsimp only
    rcases hb : bootHeld warm env₁ with ⟨e | held, env₂⟩ <;> rw [hb] at hheld hheldr hheldc
    · refine Or.inl ⟨e, env₂, fun h => ?_, (hall.trans hheld).same, rfl⟩
      obtain ⟨held, hh⟩ := hheldr (hall.same.reliable h)
      cases hh
    · dsimp only
      have hwrite := bootWrite_accessed warm
        (toReg (clearInterlockConflicts cfg (held &&& holdMask cfg)).1) env₂
      have hwriter := bootWrite_reliable warm
        (toReg (clearInterlockConflicts cfg (held &&& holdMask cfg)).1) env₂
      have hwritec := bootWrite_chip warm
        (toReg (clearInterlockConflicts cfg (held &&& holdMask cfg)).1) env₂
      unfold bootWrite at hwrite hwriter hwritec
      obtain ⟨wrote, hacc, hwrote⟩ := hwrite
      have hread : Accessed w.env env₂ [] := hall.trans hheld
      rcases hw : (if warm then
        tca9554WriteOutputs (toReg (clearInterlockConflicts cfg (held &&& holdMask cfg)).1) env₂
        else
        tca9554InitOutputs (toReg (clearInterlockConflicts cfg (held &&& holdMask cfg)).1) env₂)
        with ⟨e | _, env₃⟩ <;> rw [hw] at hacc hwriter hwritec
      · refine Or.inl ⟨e, env₃, fun h => ?_, (hread.trans hacc).same, rfl⟩
        cases hwriter (hread.same.reliable h)
      · refine Or.inr ⟨warm, held, env₃, wrote, hread.trans hacc, fun e he => (hwrote e he).symm,
          hwritec (fun hwarm => ?_) rfl, rfl, fun hwarm => ?_, rfl⟩
        · rw [hheldc, hallc.1]
          exact hallc.2 (by rw [hwarm])
        · rw [hwarm, bootHeld_cold] at hb
          cases hb
          rw [hall.same.stored]

theorem relayCtrlInit_ok (cfg : DeviceConfig) (w : World) (h : w.env.Reliable) :
    (relayCtrlInit cfg w).1 = .ok () := by
  rcases relayCtrlInit_cases cfg w with ⟨e, env, hnr, -⟩ | ⟨_, _, _, _, -, -, -, -, -, hi⟩
  · exact absurd h hnr
  · rw [hi]

theorem has_holdMask (cfg : DeviceConfig) (i : Channel) :
    (holdMask cfg).has i = decide (effectiveFailsafe (cfg.relays i) = .hold) := by
  rw [holdMask, has_collect]

theorem not_hold {cfg : DeviceConfig} {i : Channel}
    (h : effectiveFailsafe (cfg.relays i) = .defaultSafe) : (holdMask cfg).has i = false := by
  rw [has_holdMask, h]
  rfl

/-- A momentary relay is never restored. -/
theorem momentary_of_hold {cfg : DeviceConfig} {i : Channel} (h : (holdMask cfg).has i = true) :
    (cfg.relays i).momentary = false := by
  rw [has_holdMask, decide_eq_true_iff, effectiveFailsafe] at h
  split_ifs at h with hm
  simpa [RelayCfg.momentary] using hm

def Relay.idle (cfg : RelayCfg) (r : Relay) : Relay :=
  { r with cfg := cfg, coil := false, pulsing := false, limited := false, pending := false }

theorem idle_steady (cfg : RelayCfg) (r : Relay) : (r.idle cfg).Steady := by
  simp [Relay.idle, Steady]

section Booted

variable (cfg : DeviceConfig) (warm : Bool) (held : Mask) (now : Ms) (s : St) (env : Env)

@[simp] theorem booted_cfg : (booted cfg warm held (s.cleared cfg now) env).s.cfg = cfg := by
  simp [booted]

@[simp] theorem booted_mask : (booted cfg warm held (s.cleared cfg now) env).s.mask =
    (clearInterlockConflicts cfg (held &&& holdMask cfg)).1 := by
  simp [booted]

@[simp] theorem booted_pendingOn :
    (booted cfg warm held (s.cleared cfg now) env).s.pendingOn = 0#8 := by
  simp [booted]

@[simp] theorem booted_pulsing :
    (booted cfg warm held (s.cleared cfg now) env).s.pulsing = 0#8 := by
  simp [booted]

@[simp] theorem booted_lastSaveMs : (booted cfg warm held (s.cleared cfg now) env).s.lastSaveMs =
    now - relayCtrlSaveDelayMs := by
  simp [booted]

@[simp] theorem booted_savePending :
    (booted cfg warm held (s.cleared cfg now) env).s.savePending =
      (warm || (clearInterlockConflicts cfg (held &&& holdMask cfg)).2 ≠ 0#8) := by
  simp [booted]

theorem booted_env : ∃ health,
    (booted cfg warm held (s.cleared cfg now) env).env = env.showing health := by
  unfold booted
  dsimp only
  exact reportInterlockHealth_env _ _

@[simp] theorem booted_writes :
    (booted cfg warm held (s.cleared cfg now) env).env.writes = env.writes := by
  obtain ⟨health, h⟩ := booted_env cfg warm held now s env
  rw [h]
  rfl

/-- At boot a restored coil goes on as by a command. -/
theorem booted_relay (i : Channel) :
    (booted cfg warm held (s.cleared cfg now) env).s.relay i =
      ((s.relay i).idle (cfg.relays i)).applyAll (nowMs env)
        (if (clearInterlockConflicts cfg (held &&& holdMask cfg)).1.has i then [.on] else []) := by
  have hlatching : (clearInterlockConflicts cfg (held &&& holdMask cfg)).1.has i = true →
      (cfg.relays i).momentary = false := by
    intro h
    rw [(clearInterlockConflicts_has cfg _ i).1] at h
    simp only [has_and, Bool.and_eq_true] at h
    exact momentary_of_hold h.1.2
  have hr : (booted cfg warm held (s.cleared cfg now) env).s.relay i =
      ({ s.cleared cfg now with
        mask := (clearInterlockConflicts cfg (held &&& holdMask cfg)).1 }.relay i).track
        (nowMs env) false false := by
    unfold booted
    rw [reportInterlockHealth_s]
    change (trackMaxOnLocked _ _ _).s.relay i = _
    rw [trackMaxOnLocked_relay, has_zero]
  rw [hr]
  cases hc : (clearInterlockConflicts cfg (held &&& holdMask cfg)).1.has i
  · rw [track_off _ _ _ _ hc]
    apply Relay.ext <;> simp [applyAll, Relay.idle, hc]
  · have hm := hlatching hc
    unfold track
    by_cases hl : (cfg.relays i).limit = 0#32
    · apply Relay.ext <;> simp [applyAll, apply, on, Relay.idle, hc, hl, hm]
    · apply Relay.ext <;> simp [applyAll, apply, on, Relay.idle, hc, hl, hm]

theorem booted_steady : (booted cfg warm held (s.cleared cfg now) env).s.Steady := by
  intro i
  rw [booted_relay]
  exact applyAll_steady _ _ _ (idle_steady _ _)

end Booted

/-- A call of `relay_ctrl_init` that returns `ESP_OK`. -/
structure Starts (w : World) (c : Call) (cfg : DeviceConfig) : Prop where
  op : c.op = .init cfg
  ok : (result w c).err = .ok ()

theorem Starts.of_reliable {w : World} {c : Call} {cfg : DeviceConfig} (hop : c.op = .init cfg)
    (hr : c.Reliable) : Starts w c cfg := by
  refine ⟨hop, ?_⟩
  rw [result, hop]
  exact relayCtrlInit_ok cfg (w.begin c) hr

theorem Starts.booted {w : World} {c : Call} {cfg : DeviceConfig} (h : Starts w c cfg) :
    ∃ warm held env, SameStore (w.begin c).env env ∧ (w.begin c).env.writes = [] ∧
      env.chip = ⟨toReg (clearInterlockConflicts cfg (held &&& holdMask cfg)).1, 0x00#8⟩ ∧
      (warm = false → held = w.env.stored.getD 0#8) ∧
      step w c = booted cfg warm held (w.s.cleared cfg (reading 32 c.time)) env := by
  have hok := h.ok
  unfold result at hok
  rw [h.op] at hok
  have hstep : step w c = (relayCtrlInit cfg (w.begin c)).2 := by
    rw [step, result, h.op]
    rfl
  rcases relayCtrlInit_cases cfg (w.begin c) with ⟨e, env, -, -, hi⟩ |
    ⟨warm, held, env, wrote, hacc, -, hchip, -, hheld, hi⟩
  · have herr : (relayCtrlInit cfg (w.begin c)).1 = .ok () := hok
    rw [hi] at herr
    cases herr
  · exact ⟨warm, held, env, hacc.same, rfl, hchip, hheld, by rw [hstep, hi]; rfl⟩

theorem Starts.steady {w : World} {c : Call} {cfg : DeviceConfig} (h : Starts w c cfg) :
    (step w c).s.Steady := by
  obtain ⟨warm, held, env, -, -, -, -, hs⟩ := h.booted
  rw [hs]
  exact booted_steady cfg warm held _ _ env

/-- The first boot, whether it succeeds or not, leaves a steady state with
nothing pending. -/
theorem boot_steady (chip : Chip) (stored : Option Mask) (health : HealthKey → Health) (c : Call)
    (cfg : DeviceConfig) (hop : c.op = .init cfg) :
    (step (boot chip stored health) c).s.Steady ∧
      (step (boot chip stored health) c).s.pendingOn = 0#8 ∧
      (step (boot chip stored health) c).s.cfg = cfg := by
  have hstep : step (boot chip stored health) c =
      (relayCtrlInit cfg ((boot chip stored health).begin c)).2 := by
    rw [step, result, hop]
    rfl
  rw [hstep]
  rcases relayCtrlInit_cases cfg ((boot chip stored health).begin c) with ⟨e, env, -, -, hi⟩ |
    ⟨warm, held, env, wrote, -, -, -, -, -, hi⟩
  · rw [hi]
    refine ⟨fun i => ?_, rfl, rfl⟩
    simp [reportFault, boot, St.zero, Steady, World.begin]
  · rw [hi]
    exact ⟨booted_steady cfg warm held _ _ env, by simp, by simp⟩

end RelayBoard
