import RelayBoard.Interlock

/-!
# The state after a boot

With an expander that answers, `relay_ctrl_init` takes the coils from the chip
if that kept its set-up and from the store otherwise, keeps the hold relays'
of them, switches off the pairs and writes the rest once. On a cold boot the
pins become outputs after that write.
-/

set_option autoImplicit false

namespace RelayBoard
open BitVec Lib.Loops Lib.Runs

def isWarm (env : Env) : Bool := decide (env.chip.config = 0x00#8)

def bootSource (env : Env) : Mask :=
  if isWarm env then fromReg env.chip.output else env.stored.getD 0#8

def bootFound (cfg : DeviceConfig) (env : Env) : Mask := bootSource env &&& holdMask cfg

def bootWrites (warm : Bool) (v : Mask) : List (Reg × Mask) :=
  (.output, v) :: if warm then [] else [(.config, 0x00#8)]

section Reliable

variable (env : Env)

theorem bootHeld_value (warm : Bool) (h : env.Reliable) : (bootHeld warm env).1 =
    .ok (if warm then fromReg env.chip.output else env.stored.getD 0#8) := by
  cases warm with
  | true =>
    have hr := readReg_reliable .output env h
    unfold bootHeld tca9554ReadOutputs
    rw [if_pos rfl]
    split <;> rename_i hc <;> rw [hc] at hr
    · cases hr
    · cases hr
      rfl
  | false =>
    rw [bootHeld_cold]
    rfl

theorem bootWrite_writes (warm : Bool) (v : Mask) (h : env.Reliable) :
    Accessed env (bootWrite warm v env).2 (bootWrites warm v) := by
  unfold bootWrite tca9554InitOutputs
  rw [writeOutputs_eq, writeResult_reliable _ h]
  cases warm with
  | true => exact written_accessed v env
  | false => exact (written_accessed v env).trans (writeReg_accessed .config 0x00#8 _)

theorem relayCtrlInit_reliable (cfg : DeviceConfig) (w : World) (h : w.env.Reliable) :
    ∃ env, Accessed w.env env
        (bootWrites (isWarm w.env) (toReg (clearInterlockConflicts cfg (bootFound cfg w.env)).1)) ∧
      env.chip = ⟨toReg (clearInterlockConflicts cfg (bootFound cfg w.env)).1, 0x00#8⟩ ∧
      relayCtrlInit cfg w = (.ok (),
        booted cfg (isWarm w.env) (bootSource w.env) (w.s.cleared cfg (nowMs w.env)) env) := by
  have hall := allOutputs_accessed w.env
  have hallr := allOutputs_reliable w.env h
  have hallc := allOutputs_chip w.env
  unfold relayCtrlInit
  dsimp only
  rcases ha : tca9554AllOutputs w.env with ⟨result, env₁⟩
  rw [ha] at hall hallr hallc
  obtain rfl : result = .ok (isWarm w.env) := hallr
  have hstored : env₁.stored = w.env.stored := hall.same.stored
  have hchip : env₁.chip = w.env.chip := hallc.1
  have h₁ : env₁.Reliable := hall.same.reliable h
  have hheld := bootHeld_accessed (isWarm w.env) env₁
  have hheldc := bootHeld_chip (isWarm w.env) env₁
  have hheldr := bootHeld_value env₁ (isWarm w.env) h₁
  rw [hchip, hstored] at hheldr
  dsimp only
  rcases hb : bootHeld (isWarm w.env) env₁ with ⟨result, env₂⟩
  rw [hb] at hheld hheldc hheldr
  obtain rfl : result = .ok (bootSource w.env) := hheldr
  have hread : Accessed w.env env₂ [] := hall.trans hheld
  have h₂ : env₂.Reliable := hread.same.reliable h
  have hwrite := bootWrite_writes env₂ (isWarm w.env)
    (toReg (clearInterlockConflicts cfg (bootFound cfg w.env)).1) h₂
  have hwriter := bootWrite_reliable (isWarm w.env)
    (toReg (clearInterlockConflicts cfg (bootFound cfg w.env)).1) env₂ h₂
  have hwritec := bootWrite_chip (isWarm w.env)
    (toReg (clearInterlockConflicts cfg (bootFound cfg w.env)).1) env₂
    (fun hwarm => by rw [hheldc, hchip]; exact of_decide_eq_true hwarm) hwriter
  dsimp only
  unfold bootWrite bootFound at hwrite hwriter hwritec
  rcases hw : (if isWarm w.env then
      tca9554WriteOutputs
        (toReg (clearInterlockConflicts cfg (bootSource w.env &&& holdMask cfg)).1) env₂
    else
      tca9554InitOutputs
        (toReg (clearInterlockConflicts cfg (bootSource w.env &&& holdMask cfg)).1) env₂)
    with ⟨result, env₃⟩
  rw [hw] at hwrite hwriter hwritec
  obtain rfl : result = .ok () := hwriter
  exact ⟨env₃, hread.trans hwrite, hwritec, rfl⟩

end Reliable

section Restored

variable (cfg : DeviceConfig) (source : Mask) (i : Channel)

/-- The coils of a boot, each from what was found of it and of its partner. -/
theorem restored_has :
    (clearInterlockConflicts cfg (source &&& holdMask cfg)).1.has i =
      (source.has i && (holdMask cfg).has i &&
        !(decide (PartnerOn cfg (source &&& holdMask cfg) i))) := by
  rw [(clearInterlockConflicts_has cfg _ i).1, has_and]
  cases source.has i && (holdMask cfg).has i <;> simp

variable {cfg source i}

theorem restored_safe
    (h : (cfg.relays i).mode = .momentary ∨ (cfg.relays i).failsafe = .defaultSafe) :
    (clearInterlockConflicts cfg (source &&& holdMask cfg)).1.has i = false := by
  have hsafe : effectiveFailsafe (cfg.relays i) = .defaultSafe := by
    unfold effectiveFailsafe
    split
    · rfl
    · rename_i hlatching
      exact h.resolve_left hlatching
  rw [restored_has, not_hold hsafe, Bool.and_false, Bool.false_and]

theorem restored_hold (h : effectiveFailsafe (cfg.relays i) = .hold)
    (hno : ¬((source &&& holdMask cfg).has i = true ∧
      PartnerOn cfg (source &&& holdMask cfg) i)) :
    (clearInterlockConflicts cfg (source &&& holdMask cfg)).1.has i = source.has i := by
  have hhold : (holdMask cfg).has i = true := by rw [has_holdMask, h]; rfl
  rw [has_and, hhold, Bool.and_true] at hno
  rw [restored_has, hhold, Bool.and_true]
  cases hi : source.has i with
  | true =>
    have hpartner : ¬PartnerOn cfg (source &&& holdMask cfg) i := fun hon => hno ⟨hi, hon⟩
    simp [hpartner]
  | false => rfl

theorem restored_pair {j : Channel} (hp : Paired cfg) (hij : Partner cfg i j)
    (hi : (source &&& holdMask cfg).has i = true) (hj : (source &&& holdMask cfg).has j = true) :
    (clearInterlockConflicts cfg (source &&& holdMask cfg)).1.has i = false ∧
      (clearInterlockConflicts cfg (source &&& holdMask cfg)).1.has j = false := by
  have hon : PartnerOn cfg (source &&& holdMask cfg) i := ⟨j, hij, hj⟩
  have hback : PartnerOn cfg (source &&& holdMask cfg) j := ⟨i, hp.symm i j hij, hi⟩
  rw [restored_has, restored_has]
  simp [hon, hback]

/-- A hold coil that is not restored as found was one of a pair. -/
theorem conflict_of_restored (h : effectiveFailsafe (cfg.relays i) = .hold)
    (hne : source.has i ≠ (clearInterlockConflicts cfg (source &&& holdMask cfg)).1.has i) :
    (clearInterlockConflicts cfg (source &&& holdMask cfg)).2 ≠ 0#8 := by
  rw [ne_zero_iff]
  refine ⟨i, ?_⟩
  rw [(clearInterlockConflicts_has cfg _ i).2, Bool.and_eq_true, decide_eq_true_iff]
  by_contra hno
  exact hne (restored_hold h hno).symm

end Restored

/-- After a boot with an expander that answers: the outputs are the mask; only
hold relays are on, as found, but both of a pair found on are off; the outputs
are written once, before the pins are turned to outputs, which a warm boot
leaves out; and a save is pending if the store has other hold coils. -/
theorem boot_state (w : World) (c : Call) (cfg : DeviceConfig) (hop : c.op = .init cfg)
    (hr : c.Reliable) (hp : Paired cfg) :
    let w' := step w c
    let found := bootFound cfg w.env
    (result w c).err = .ok () ∧
    fromReg w'.env.chip.output = w'.s.mask ∧
    (∀ i, (cfg.relays i).mode = .momentary ∨ (cfg.relays i).failsafe = .defaultSafe →
      w'.s.mask.has i = false) ∧
    (∀ i, effectiveFailsafe (cfg.relays i) = .hold → ¬(found.has i = true ∧ PartnerOn cfg found i) →
      w'.s.mask.has i = (bootSource w.env).has i) ∧
    (∀ i j, Partner cfg i j → found.has i = true → found.has j = true →
      w'.s.mask.has i = false ∧ w'.s.mask.has j = false) ∧
    w'.env.writes = bootWrites (isWarm w.env) (toReg w'.s.mask) ∧
    ∀ i, effectiveFailsafe (cfg.relays i) = .hold →
      (w.env.stored.getD 0#8).has i ≠ w'.s.mask.has i → w'.s.savePending = true := by
  intro w' found
  obtain ⟨env, hacc, hchip, hinit⟩ := relayCtrlInit_reliable cfg (w.begin c) hr
  obtain ⟨health, henv⟩ := booted_env cfg (isWarm w.env) (bootSource w.env)
    (nowMs (w.begin c).env) w.s env
  have hresult : (result w c).err = (relayCtrlInit cfg (w.begin c)).1 ∧
      w' = (relayCtrlInit cfg (w.begin c)).2 := by
    constructor
    · rw [result, hop]
      rfl
    · change step w c = _
      rw [step, result, hop]
      rfl
  rw [hinit] at hresult
  obtain ⟨herr, hw'⟩ := hresult
  have hmask : w'.s.mask =
      (clearInterlockConflicts cfg (bootSource w.env &&& holdMask cfg)).1 := by
    rw [hw']
    exact booted_mask ..
  have hshown : w'.env = env.showing health := by rw [hw']; exact henv
  refine ⟨herr, ?_, fun i hsafe => ?_, fun i hhold hno => ?_, fun i j hij hi hj => ?_, ?_,
    fun i hhold hne => ?_⟩
  · rw [hshown, hmask]
    change fromReg env.chip.output = _
    rw [hchip]
    rfl
  · rw [hmask]
    exact restored_safe hsafe
  · rw [hmask]
    exact restored_hold hhold hno
  · rw [hmask]
    exact restored_pair hp hij hi hj
  · rw [hshown, hmask]
    exact hacc.writes
  · rw [hw', booted_savePending, Bool.or_eq_true, decide_eq_true_iff]
    by_cases hwarm : isWarm w.env = true
    · exact .inl hwarm
    · have hsource : bootSource w.env = w.env.stored.getD 0#8 := if_neg hwarm
      rw [← hsource, hmask] at hne
      exact .inr (conflict_of_restored hhold hne)

def holdPair : DeviceConfig :=
  ((DeviceConfig.zero.pair 1 2).modifyRelay 1 fun r => { r with failsafe := .hold }).modifyRelay 2
    (fun r => { r with failsafe := .hold }) |>.modifyRelay 3 fun r => { r with failsafe := .hold }

/-- A cold boot with relays 1, 2 and 3 stored: the pair goes off, relay 3 on. -/
theorem boot_state_pair :
    (step (boot ⟨0xff#8, 0xff#8⟩ (some 0x07#8) fun _ => .normal)
      ⟨.init holdPair, 0, [], none⟩).s.mask = 0x04#8 ∧
    (step (boot ⟨0xff#8, 0xff#8⟩ (some 0x07#8) fun _ => .normal)
      ⟨.init holdPair, 0, [], none⟩).env.writes = [(.output, 0x04#8), (.config, 0x00#8)] := by
  have hstate := boot_state (boot ⟨0xff#8, 0xff#8⟩ (some 0x07#8) fun _ => .normal)
    ⟨.init holdPair, 0, [], none⟩ holdPair rfl (by decide) (by decide +kernel)
  have hmask : (step (boot ⟨0xff#8, 0xff#8⟩ (some 0x07#8) fun _ => .normal)
      ⟨.init holdPair, 0, [], none⟩).s.mask = 0x04#8 := by decide +kernel
  obtain ⟨-, -, -, -, -, hwrites, -⟩ := hstate
  rw [hmask] at hwrites
  exact ⟨hmask, hwrites⟩

end RelayBoard
