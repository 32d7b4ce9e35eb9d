import RelayBoard.RelaySteps

/-!
# What listeners are told

The notices of a call as a function of the coils before and after it. All
calls but the tick compare two reported masks; the tick reports its pulse
ends and its maximum on-times that way and every coil it switched on after a
dead time by itself.
-/

set_option autoImplicit false

namespace RelayBoard
open BitVec Lib.Loops

/-- A listener call taken over into a mask kept elsewhere. -/
def Notice.apply (m : Mask) (n : Notice) : Mask :=
  if n.on then m ||| single n.relay else m &&& ~~~single n.relay

def applyNotices (m : Mask) (ns : List Notice) : Mask := ns.foldl Notice.apply m

/-- Each notice reports another value than the notices before it have left. -/
def Changing : Mask → List Notice → Prop
  | _, [] => True
  | m, n :: ns => m.has n.relay ≠ n.on ∧ Changing (n.apply m) ns

instance decidableChanging : (m : Mask) → (ns : List Notice) → Decidable (Changing m ns)
  | _, [] => inferInstanceAs (Decidable True)
  | m, n :: ns =>
    have := decidableChanging (n.apply m) ns
    inferInstanceAs (Decidable (_ ∧ _))

theorem apply_has (m : Mask) (n : Notice) (i : Channel) :
    (n.apply m).has i = if i = n.relay then n.on else m.has i := by
  unfold Notice.apply
  by_cases hi : i = n.relay
  · cases hon : n.on <;> simp [hi]
  · cases hon : n.on <;> simp [hi]

theorem applyNotices_append (m : Mask) (xs ys : List Notice) :
    applyNotices m (xs ++ ys) = applyNotices (applyNotices m xs) ys := List.foldl_append

theorem changing_append (m : Mask) (xs ys : List Notice) :
    Changing m (xs ++ ys) ↔ Changing m xs ∧ Changing (applyNotices m xs) ys := by
  induction xs generalizing m with
  | nil => simp [Changing, applyNotices]
  | cons x xs ih =>
    rw [List.cons_append, Changing, ih, Changing]
    tauto

section OneEach

variable (f : Channel → Notice) (hf : ∀ i, (f i).relay = i)
include hf

theorem applyNotices_map (is : List Channel) (m : Mask) (i : Channel) :
    (applyNotices m (is.map f)).has i = if i ∈ is then (f i).on else m.has i := by
  induction is generalizing m with
  | nil => rfl
  | cons j is ih =>
    rw [List.map_cons, applyNotices, List.foldl_cons]
    change (applyNotices _ (is.map f)).has i = _
    rw [ih, apply_has, hf]
    by_cases hmem : i ∈ is
    · simp [hmem]
    · by_cases hij : i = j
      · simp [hij]
      · simp [hmem, hij]

theorem changing_map (is : List Channel) (hn : is.Nodup) (m : Mask) :
    Changing m (is.map f) ↔ ∀ i ∈ is, m.has i ≠ (f i).on := by
  induction is generalizing m with
  | nil => simp [Changing]
  | cons j is ih =>
    obtain ⟨hj, hn'⟩ := List.nodup_cons.mp hn
    rw [List.map_cons, Changing, ih hn', hf, List.forall_mem_cons]
    refine and_congr_right (fun _ => forall₂_congr (fun i hi => ?_))
    have hij : i ≠ j := fun h => hj (h ▸ hi)
    rw [apply_has, hf, if_neg hij]

end OneEach

section Notify

variable (changed before after : Mask) (src : RelaySource)

theorem applyNotices_notifyBits (m : Mask) (i : Channel) :
    (applyNotices m (notifyBits changed after src)).has i =
      if changed.has i then after.has i else m.has i := by
  rw [notifyBits, applyNotices_map _ (fun _ => rfl)]
  simp

theorem changing_notifyBits (m : Mask) :
    Changing m (notifyBits changed after src) ↔
      ∀ i, changed.has i = true → m.has i ≠ after.has i := by
  rw [notifyBits, changing_map _ (fun _ => rfl) _ ((List.nodup_finRange 8).filter _)]
  simp

theorem notifyBits_eq_nil : notifyBits changed after src = [] ↔ changed = 0#8 := by
  rw [notifyBits, List.map_eq_nil_iff, List.filter_eq_nil_iff, eq_zero_iff]
  simp

@[simp] theorem notify_self : notify before before src = [] := by
  rw [notify, notifyBits_eq_nil, BitVec.xor_self]

/-- Taking over the notices of a comparison gives the mask it was made with. -/
theorem applyNotices_notify : applyNotices before (notify before after src) = after := by
  apply ext_has
  intro i
  rw [notify, applyNotices_notifyBits, has_xor]
  cases before.has i <;> cases after.has i <;> rfl

theorem changing_notify : Changing before (notify before after src) := by
  rw [notify, changing_notifyBits]
  intro i hi
  simpa using hi

end Notify

theorem notifyBits_single (i : Channel) (after : Mask) (src : RelaySource) :
    notifyBits (single i) after src = [⟨i, after.has i, src, after⟩] := by
  have hone : (List.finRange 8).filter (fun j => (single i).has j) = [i] := by
    revert i
    decide
  rw [notifyBits, hone]
  rfl

def Op.src : Op → RelaySource
  | .set _ _ src => src
  | .toggle _ src => src
  | .skLost => .failsafe
  | .updateConfig _ => .interlock
  | _ => .pulseEnd

/-- All operations but the tick compare the coils before and after, both
translated by the settings they leave in force. -/
theorem perform_notices (op : Op) (hop : op.running = true) (htick : op.isTick = false)
    (w : World) : (perform op w).notices =
      notify (w.s.mask ^^^ wiredNcMask (perform op w).world.s.cfg)
        ((perform op w).world.s.mask ^^^ wiredNcMask (perform op w).world.s.cfg) op.src := by
  have hcommand : ∀ channel onReq src, (setOrToggle channel onReq src w).2.2 =
      notify (w.s.mask ^^^ wiredNcMask (setOrToggle channel onReq src w).2.1.s.cfg)
        ((setOrToggle channel onReq src w).2.1.s.mask ^^^
          wiredNcMask (setOrToggle channel onReq src w).2.1.s.cfg) src := by
    intro channel onReq src
    by_cases hc : channel < 1 ∨ 8 < channel
    · rw [setOrToggle, dif_pos hc, notify_self]
    · rw [setOrToggle, dif_neg hc]
  cases op with
  | init cfg => cases hop
  | set channel on src => exact hcommand channel (some on) src
  | toggle channel src => exact hcommand channel none src
  | tick => cases htick
  | skLost => rfl
  | updateConfig cfg => rfl

theorem firePending_mask (w : World) :
    (firePending w).2.s.mask = w.s.mask ||| (firePending w).1 := by
  have hloop := collectFired_loop_frame St.mask (fun _ _ => rfl) (nowMs w.env) (0#8, w.s)
  unfold firePending
  extract_lets now afterMaxOn due fired w'
  have hmask : w'.s.mask = w.s.mask := hloop
  split_ifs
  · obtain ⟨env, -, ⟨fault, hc⟩ | ⟨e, -, hc⟩⟩ := commitLocked_spec (w'.s.mask ||| fired) w'
    · simp only [hc, trackMaxOnLocked_mask]
      rw [settleFired_loop_frame St.mask (fun _ _ _ _ => rfl), St.commit_mask, hmask]
    · simp only [hc]
      rw [St.fault_mask, hmask, BitVec.or_zero]
  · rw [hmask, BitVec.or_zero]

/-- The calls a tick makes for the relays it switched on, each with the
source of its own command. -/
def firedNotices (fired after : Mask) (src : Channel → RelaySource) : List Notice :=
  ((List.finRange 8).filter fun i => fired.has i).map fun i => ⟨i, after.has i, src i, after⟩

/-- The three batches of the tick, each reported against the mask before it. -/
def tickBatches (before afterPulses afterMaxOn fired wnc : Mask) (src : Channel → RelaySource) :
    List Notice :=
  notify (before ^^^ wnc) (afterPulses ^^^ wnc) .pulseEnd ++
    notify (afterPulses ^^^ wnc) (afterMaxOn ^^^ wnc) .maxOn ++
    firedNotices fired ((afterMaxOn ||| fired) ^^^ wnc) src

theorem tick_notices (w : World) : (relayCtrlTick w).2 =
    tickBatches w.s.mask (endPulses w).s.mask (timedOut w).s.mask (fired w)
      (wiredNcMask w.s.cfg) (timedOut w).s.pendingOnSrc := by
  have hcfg := tick_cfg w
  have hmask : (timedOut w).s.mask ||| fired w = (firePending (timedOut w)).2.s.mask :=
    (firePending_mask (timedOut w)).symm
  rw [tick_world] at hcfg
  unfold relayCtrlTick tickBatches firedNotices
  rw [hmask]
  simp only [hcfg, notifyBits_single]
  rw [← List.map_eq_flatMap]
  rfl

theorem firedNotices_applied (fired after : Mask) (src : Channel → RelaySource) (m : Mask)
    (i : Channel) : (applyNotices m (firedNotices fired after src)).has i =
      if fired.has i then after.has i else m.has i := by
  rw [firedNotices, applyNotices_map _ (fun _ => rfl)]
  simp

theorem firedNotices_changing (fired after : Mask) (src : Channel → RelaySource) (m : Mask) :
    Changing m (firedNotices fired after src) ↔
      ∀ i, fired.has i = true → m.has i ≠ after.has i := by
  rw [firedNotices, changing_map _ (fun _ => rfl) _ ((List.nodup_finRange 8).filter _)]
  simp

theorem tick_mask (w : World) :
    (relayCtrlTick w).1.s.mask = (timedOut w).s.mask ||| fired w := by
  rw [tick_world, saveHold_mask]
  exact firePending_mask (timedOut w)

/-- A tick's notices, taken over into the report before it, give the report
after it. -/
theorem tick_complete (w : World) :
    applyNotices (w.s.mask ^^^ wiredNcMask w.s.cfg) (relayCtrlTick w).2 =
      (relayCtrlTick w).1.s.mask ^^^ wiredNcMask w.s.cfg := by
  rw [tick_notices, tickBatches, tick_mask, applyNotices_append, applyNotices_append,
    applyNotices_notify, applyNotices_notify]
  apply ext_has
  intro i
  rw [firedNotices_applied, has_xor, has_xor, has_or]
  cases (fired w).has i <;> simp

/-- So do the notices of every call that leaves the settings alone. -/
theorem notices_complete (w : World) (c : Call) (hop : c.op.running = true)
    (hkept : c.op.config w.s.cfg = w.s.cfg) :
    applyNotices (relayCtrlGetMask w.s) (result w c).notices = relayCtrlGetMask (step w c).s := by
  have hcfg := step_cfg w c hop
  rw [hkept] at hcfg
  rw [relayCtrlGetMask, relayCtrlGetMask, hcfg]
  cases htick : c.op.isTick
  · have hns : (result w c).notices =
        notify (w.s.mask ^^^ wiredNcMask (step w c).s.cfg)
          ((step w c).s.mask ^^^ wiredNcMask (step w c).s.cfg) c.op.src :=
      perform_notices c.op hop htick (w.begin c)
    rw [hns, hcfg]
    exact applyNotices_notify _ _ _
  · have hcomplete := tick_complete (w.begin c)
    rw [step, result, eq_tick_of_isTick htick]
    exact hcomplete

end RelayBoard
