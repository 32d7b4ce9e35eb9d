import RelayBoard.CommandEffects
import RelayBoard.SwitchBankPgn

/-!
# Commands to several relays

The page's "All on" and "All off" (`put_all` of `web_ui.c`) and a switch bank
control message (`on_message` of `n2k_bridge.cpp`) set one relay after another,
each by its own call of `relay_ctrl_set`. A call that fails does not stop the
others.
-/

set_option autoImplicit false

namespace RelayBoard
open BitVec Lib.Loops Lib.Runs

abbrev Target := Channel × Bool

def setOps (src : RelaySource) (targets : List Target) : List Op :=
  targets.map fun t => .set (t.1.val + 1) t.2 src

/-- `web_ui_all_on_skipped` -/
def webUiAllOnSkipped (cfg : DeviceConfig) : Mask :=
  forEach (fun i skipped =>
    if (cfg.relays i).interlock ≠ 0 then skipped ||| single i else skipped) 0#8

def putAllSkipped (cfg : DeviceConfig) (on : Bool) : Mask :=
  if on then webUiAllOnSkipped cfg else 0#8

/-- The relays that `put_all` sets, by the page's copy of the settings. -/
def putAllTargets (cfg : DeviceConfig) (on : Bool) : List Target :=
  ((List.finRange 8).filter fun i => !(putAllSkipped cfg on).has i).map fun i => (i, on)

def plainCalls (ops : List Op) (time : ℕ) : List Call := ops.map fun op => .plain op time

def errors : World → List Call → List (EspResult Unit)
  | _, [] => []
  | w, c :: calls => (result w c).err :: errors (step w c) calls

def keepFirst (first err : EspResult Unit) : EspResult Unit :=
  match first, err with
  | .ok _, .error e => .error e
  | _, _ => first

/-- `first` of `put_all`, which decides between the new state and a 503. -/
def putAllFirst (errs : List (EspResult Unit)) : EspResult Unit := errs.foldl keepFirst (.ok ())

/-- What `on_message` sets for a decoded control message. -/
def controlTargets (cmd : SwitchBankCommand) : List Target :=
  (List.finRange 8).flatMap fun i =>
    (if cmd.on &&& 1#32 <<< i.val ≠ 0#32 then [(i, true)] else []) ++
      if cmd.off &&& 1#32 <<< i.val ≠ 0#32 then [(i, false)] else []

/-- What `on_message` sets for a message with the control PGN. -/
def onControlMessage (data : List Byte) (relayBank : Byte) : List Target :=
  match switchBankDecodeControl data relayBank boardChannels ⟨0, 0⟩ with
  | (true, cmd) => controlTargets cmd
  | (false, _) => []

def coilOf (cfg : DeviceConfig) (t : Target) : Bool := t.2 != (cfg.relays t.1).wiredNc

theorem plainCalls_ops (ops : List Op) (time : ℕ) : (plainCalls ops time).map Call.op = ops := by
  rw [plainCalls, List.map_map]
  exact List.map_id _

theorem has_webUiAllOnSkipped (cfg : DeviceConfig) (i : Channel) :
    (webUiAllOnSkipped cfg).has i = decide ((cfg.relays i).interlock ≠ 0) := by
  unfold webUiAllOnSkipped
  refine (forEach_own _ (fun m : Mask => m.has i) i (fun j hj m => ?_) (fun m n h => ?_) _).trans ?_
  · split_ifs
    · simp [hj.symm]
    · rfl
  · split_ifs
    · simp
    · exact h
  · split_ifs with h <;> simp [h]

theorem mem_putAllTargets (cfg : DeviceConfig) (on : Bool) (t : Target) :
    t ∈ putAllTargets cfg on ↔ t.2 = on ∧ (on = true → (cfg.relays t.1).interlock = 0) := by
  obtain ⟨i, b⟩ := t
  have hskipped : (putAllSkipped cfg on).has i = false ↔
      (on = true → (cfg.relays i).interlock = 0) := by
    cases on with
    | true => simp [putAllSkipped, has_webUiAllOnSkipped]
    | false => simp [putAllSkipped]
  rw [← hskipped]
  simp only [putAllTargets, List.mem_map, List.mem_filter, List.mem_finRange, true_and,
    Bool.not_eq_true', Prod.mk.injEq]
  constructor
  · rintro ⟨j, hj, rfl, rfl⟩
    exact ⟨rfl, hj⟩
  · rintro ⟨rfl, hi⟩
    exact ⟨i, hi, rfl, rfl⟩

theorem putAllTargets_nodup (cfg : DeviceConfig) (on : Bool) :
    ((putAllTargets cfg on).map Prod.fst).Nodup := by
  rw [putAllTargets, List.map_map]
  exact ((List.nodup_finRange 8).filter _).map fun _ _ h => h

theorem putAllFirst_ok (errs : List (EspResult Unit)) :
    putAllFirst errs = .ok () ↔ ∀ err ∈ errs, err = .ok () := by
  have hstuck : ∀ (rest : List (EspResult Unit)) (e : EspErr),
      rest.foldl keepFirst (.error e) = .error e := by
    intro rest e
    induction rest with
    | nil => rfl
    | cons err rest ih => exact ih
  induction errs with
  | nil => simp [putAllFirst]
  | cons err errs ih =>
    cases err with
    | ok u => simpa [putAllFirst, keepFirst] using ih
    | error e => simp [putAllFirst, keepFirst, hstuck errs e]

section Sets

variable {w : World} {c : Call} {i j : Channel} {on : Bool} {src : RelaySource}

theorem step_set (w : World) (hop : c.op = .set (i.val + 1) on src) :
    step w c = (command i ⟨i.val + 1, some on, src⟩ (w.begin c)).2 ∧
      (result w c).err = (command i ⟨i.val + 1, some on, src⟩ (w.begin c)).1 := by
  have hto : c.op.commandTo i = some ⟨i.val + 1, some on, src⟩ := by
    simp [Op.commandTo, hop, Op.command]
  rw [step, result, perform_commandTo _ hto]
  exact ⟨rfl, rfl⟩

theorem step_set_cfg (w : World) (hop : c.op = .set (i.val + 1) on src) :
    (step w c).s.cfg = w.s.cfg := by
  rw [step_cfg w c (by rw [hop]; rfl), hop]
  rfl

/-- A set touches another relay only as its partner, and only if the coil is to
go on. -/
theorem step_set_other (hs : w.s.Sound) (hop : c.op = .set (i.val + 1) on src) (hj : j ≠ i)
    (hp : Partner w.s.cfg i j → coilOf w.s.cfg (i, on) = false) :
    (step w c).s.relay j = w.s.relay j := by
  rw [(step_set w hop).1]
  by_cases hij : Partner w.s.cfg i j
  · have hreq : coilRequest i (some on) (w.begin c).s = false := hp hij
    rw [command, hreq]
    exact coilOff_other (w := w.begin c) hs hj
  · exact command_other (w := w.begin c) _ hs hj hij

/-- A set that succeeds leaves the relay as asked or, if its coil is to go on,
waiting. -/
theorem step_set_own (hop : c.op = .set (i.val + 1) on src) (hok : (result w c).err = .ok ()) :
    (step w c).s.mask.has i = coilOf w.s.cfg (i, on) ∨
      coilOf w.s.cfg (i, on) = true ∧ (step w c).s.pendingOn.has i = true := by
  obtain ⟨hstep, herr⟩ := step_set w hop
  rw [herr] at hok
  rw [hstep]
  cases hpend : (command i ⟨i.val + 1, some on, src⟩ (w.begin c)).2.s.pendingOn.has i with
  | false => exact .inl (command_coil _ hok hpend)
  | true =>
    cases hreq : coilOf w.s.cfg (i, on) with
    | true => exact .inr ⟨rfl, rfl⟩
    | false =>
      have hreq' : coilRequest i (some on) (w.begin c).s = false := hreq
      left
      rw [command_mask _ hok, if_pos hreq']
      simp

/-- No set but its own turns a coil on. -/
theorem step_set_coil (hop : c.op = .set (i.val + 1) on src) (hj : j ≠ i)
    (hoff : w.s.mask.has j = false) : (step w c).s.mask.has j = false := by
  rw [(step_set w hop).1]
  rcases hc : (command i ⟨i.val + 1, some on, src⟩ (w.begin c)).1 with e | u
  · rw [command_failed i _ _ hc]
    exact hoff
  · by_contra hon
    have hne : (command i ⟨i.val + 1, some on, src⟩ (w.begin c)).2.s.mask.has j ≠
        (w.begin c).s.mask.has j := by
      rw [begin_s, hoff]
      exact hon
    have hwas := (command_coils i j _ _ hc hj hne).2.1
    rw [begin_s, hoff] at hwas
    cases hwas

end Sets

section Groups

variable {w : World} {calls : List Call} {src : RelaySource} {targets : List Target}

theorem targets_of_mem (hops : calls.map Call.op = setOps src targets) {c : Call} (h : c ∈ calls) :
    ∃ t ∈ targets, c.op = .set (t.1.val + 1) t.2 src := by
  have hop : c.op ∈ setOps src targets := hops ▸ List.mem_map_of_mem h
  obtain ⟨t, ht, hset⟩ := List.mem_map.mp hop
  exact ⟨t, ht, hset.symm⟩

theorem sets_other (hs : w.s.Sound) (hcalls : ∀ c ∈ calls, ∃ t, t ∈ targets ∧
      c.op = .set (t.1.val + 1) t.2 src) {j : Channel}
    (hj : ∀ t ∈ targets, t.1 ≠ j ∧ (Partner w.s.cfg t.1 j → coilOf w.s.cfg t = false)) :
    (run step w calls).s.Sound ∧ (run step w calls).s.cfg = w.s.cfg ∧
      (run step w calls).s.relay j = w.s.relay j := by
  refine run_invariant step
    (I := fun v => v.s.Sound ∧ v.s.cfg = w.s.cfg ∧ v.s.relay j = w.s.relay j)
    (P := fun _ c => ∃ t, t ∈ targets ∧ c.op = .set (t.1.val + 1) t.2 src) w ⟨hs, rfl, rfl⟩
    (fun v c hv hc => ?_) calls (fun e he => hcalls e.2 (input_of_history step w calls e he))
  obtain ⟨t, ht, hop⟩ := hc
  refine ⟨step_sound v c hv.1, (step_set_cfg v hop).trans hv.2.1, ?_⟩
  obtain ⟨hne, hp⟩ := hj t ht
  rw [← hv.2.1] at hp
  exact (step_set_other hv.1 hop hne.symm hp).trans hv.2.2

theorem sets_cfg (hcalls : ∀ c ∈ calls, ∃ t, t ∈ targets ∧
      c.op = .set (t.1.val + 1) t.2 src) (hs : w.s.Sound) :
    (run step w calls).s.Sound ∧ (run step w calls).s.cfg = w.s.cfg := by
  refine run_invariant step (I := fun v => v.s.Sound ∧ v.s.cfg = w.s.cfg)
    (P := fun _ c => ∃ t, t ∈ targets ∧ c.op = .set (t.1.val + 1) t.2 src) w ⟨hs, rfl⟩
    (fun v c hv hc => ?_) calls (fun e he => hcalls e.2 (input_of_history step w calls e he))
  obtain ⟨t, -, hop⟩ := hc
  exact ⟨step_sound v c hv.1, (step_set_cfg v hop).trans hv.2⟩

/-- The calls after the one to relay `i` are to other relays. -/
theorem later_targets (hnodup : (targets.map Prod.fst).Nodup) {js ks : List Call} {c : Call}
    (hops : (js ++ c :: ks).map Call.op = setOps src targets) {t : Target}
    (hop : c.op = .set (t.1.val + 1) t.2 src) :
    ∀ d ∈ ks, ∃ u, u ∈ targets.filter (fun u => u.1 ≠ t.1) ∧
      d.op = .set (u.1.val + 1) u.2 src := by
  intro d hd
  rw [setOps, List.map_append, List.map_cons] at hops
  obtain ⟨before, rest, rfl, -, hrest⟩ := List.map_eq_append_iff.mp hops.symm
  obtain ⟨own, after, rfl, hown, hafter⟩ := List.map_eq_cons_iff.mp hrest
  rw [hop] at hown
  have hsame : own.1 = t.1 := Fin.ext (by injection hown with hch; omega)
  have hops' : d.op ∈ setOps src after := by
    rw [setOps, hafter]
    exact List.mem_map_of_mem hd
  obtain ⟨u, hu, hset⟩ := List.mem_map.mp hops'
  rw [List.map_append, List.map_cons] at hnodup
  have hne := (List.nodup_cons.mp (List.nodup_append.mp hnodup).2.1).1
  refine ⟨u, List.mem_filter.mpr ⟨by simp [hu], ?_⟩, hset.symm⟩
  rw [decide_eq_true_iff, ← hsame]
  exact fun heq => hne (heq ▸ List.mem_map_of_mem hu)

theorem sets_coil {j : Channel} (hcalls : ∀ c ∈ calls, ∃ t,
      t ∈ targets.filter (fun t => t.1 ≠ j) ∧ c.op = .set (t.1.val + 1) t.2 src)
    (hoff : w.s.mask.has j = false) : (run step w calls).s.mask.has j = false := by
  refine run_invariant step (I := fun v => v.s.mask.has j = false)
    (P := fun _ c => ∃ t, t ∈ targets.filter (fun t => t.1 ≠ j) ∧
      c.op = .set (t.1.val + 1) t.2 src) w hoff
    (fun v c hv hc => ?_) calls (fun e he => hcalls e.2 (input_of_history step w calls e he))
  obtain ⟨t, ht, hop⟩ := hc
  have hne : t.1 ≠ j := by simpa using (List.mem_filter.mp ht).2
  exact step_set_coil hop hne.symm hv

/-- A relay set by a call that succeeds ends as asked or, if its coil is to go
on, waiting, whatever becomes of the other calls, unless both its coil and its
partner's are asked to go on. -/
theorem sets_own (hs : w.s.Sound) (hnodup : (targets.map Prod.fst).Nodup)
    (hops : calls.map Call.op = setOps src targets) {e : Entry}
    (he : e ∈ history step w calls) {t : Target}
    (hop : e.2.op = .set (t.1.val + 1) t.2 src) (hok : (result e.1 e.2).err = .ok ())
    (hpartner : coilOf w.s.cfg t = true →
      ∀ u ∈ targets, Partner w.s.cfg u.1 t.1 → coilOf w.s.cfg u = false) :
    relayCtrlGet (t.1.val + 1) (run step w calls).s = t.2 ∨
      coilOf w.s.cfg t = true ∧ (run step w calls).s.pendingOn.has t.1 = true := by
  obtain ⟨js, ks, hsplit, hstart⟩ := (mem_history_iff step w calls e).mp he
  have hcalls : ∀ c ∈ calls, ∃ u, u ∈ targets ∧ c.op = .set (u.1.val + 1) u.2 src :=
    fun c hc => targets_of_mem hops hc
  have hbefore : (run step w js).s.Sound ∧ (run step w js).s.cfg = w.s.cfg :=
    sets_cfg (fun c hc => hcalls c (by rw [hsplit]; exact List.mem_append_left _ hc)) hs
  rw [← hstart] at hbefore
  have hown := step_set_own hop hok
  rw [hbefore.2] at hown
  have hcfg : (step e.1 e.2).s.cfg = w.s.cfg := (step_set_cfg e.1 hop).trans hbefore.2
  have hlater := later_targets hnodup (hsplit ▸ hops) hop
  have hend : run step w calls = run step (step e.1 e.2) ks := by
    rw [hsplit, hstart]
    simp [run]
  have hcfg' : (run step w calls).s.cfg = w.s.cfg := (sets_cfg hcalls hs).2
  have hget : (run step w calls).s.mask.has t.1 = coilOf w.s.cfg t →
      relayCtrlGet (t.1.val + 1) (run step w calls).s = t.2 := by
    intro hcoil
    rw [relayCtrlGet_coil, hcfg', hcoil]
    simp [coilOf]
  cases hreq : coilOf w.s.cfg t with
  | false =>
    -- No later call turns the coil on again.
    left
    apply hget
    have hoff : (step e.1 e.2).s.mask.has t.1 = false := by simpa [hreq] using hown
    rw [hreq, hend]
    exact sets_coil hlater hoff
  | true =>
    have hrest := sets_other (w := step e.1 e.2) (step_sound e.1 e.2 hbefore.1) hlater (j := t.1)
      (fun u hu => by
        obtain ⟨hmem, hne⟩ := List.mem_filter.mp hu
        rw [hcfg]
        exact ⟨by simpa using hne, hpartner hreq u hmem⟩)
    rw [← hend] at hrest
    have hcoil : (run step w calls).s.mask.has t.1 = (step e.1 e.2).s.mask.has t.1 :=
      congrArg Relay.coil hrest.2.2
    have hpend : (run step w calls).s.pendingOn.has t.1 = (step e.1 e.2).s.pendingOn.has t.1 :=
      congrArg Relay.pending hrest.2.2
    rw [hpend]
    exact hown.imp (fun h => hget (hcoil.trans h)) fun h => ⟨rfl, h.2⟩

theorem entry_of_target (hops : calls.map Call.op = setOps src targets) {t : Target}
    (ht : t ∈ targets) :
    ∃ e ∈ history step w calls, e.2.op = .set (t.1.val + 1) t.2 src := by
  have hmem : Op.set (t.1.val + 1) t.2 src ∈ calls.map Call.op :=
    hops ▸ List.mem_map_of_mem (f := fun t : Target => Op.set (t.1.val + 1) t.2 src) ht
  obtain ⟨c, hc, hop⟩ := List.mem_map.mp hmem
  obtain ⟨js, ks, hsplit⟩ := List.append_of_mem hc
  exact ⟨(run step w js, c), (mem_history_iff step w calls _).mpr ⟨js, ks, hsplit, rfl⟩, hop⟩

theorem error_of_entry {e : Entry} (he : e ∈ history step w calls) :
    (result e.1 e.2).err ∈ errors w calls := by
  obtain ⟨js, ks, rfl, hstart⟩ := (mem_history_iff step w calls e).mp he
  rw [hstart]
  clear he hstart
  induction js generalizing w with
  | nil => exact List.mem_cons_self ..
  | cons c js ih => exact List.mem_cons_of_mem _ ih

end Groups

/-- "All on" leaves every interlocked relay as it is and tries all others; each
whose call succeeds is on, or still waits from a pairing it had before. -/
theorem put_all_on (chip : Chip) (stored : Option Mask) (health : HealthKey → Health)
    (cs : List Call) (w : World) (hw : w = run step (boot chip stored health) cs)
    (calls : List Call)
    (hops : calls.map Call.op = setOps .web (putAllTargets w.s.cfg true)) :
    (∀ i, (w.s.cfg.relays i).interlock ≠ 0 →
      (run step w calls).s.relay i = w.s.relay i) ∧
    (∀ i, (w.s.cfg.relays i).interlock = 0 → ∃ e ∈ history step w calls,
      e.2.op = .set (i.val + 1) true .web ∧ ((result e.1 e.2).err = .ok () →
        relayCtrlGet (i.val + 1) (run step w calls).s = true ∨
          (run step w calls).s.pendingOn.has i = true)) ∧
    (putAllFirst (errors w calls) = .ok () → ∀ i, (w.s.cfg.relays i).interlock = 0 →
      relayCtrlGet (i.val + 1) (run step w calls).s = true ∨
        (run step w calls).s.pendingOn.has i = true) := by
  have hs : w.s.Sound := hw ▸ run_sound chip stored health cs
  have hunpaired : ∀ t ∈ putAllTargets w.s.cfg true, ∀ j, ¬Partner w.s.cfg t.1 j := by
    intro t ht j hp
    have hzero := ((mem_putAllTargets _ _ t).mp ht).2 rfl
    rw [Partner, hzero] at hp
    omega
  have hreached : ∀ i, (w.s.cfg.relays i).interlock = 0 → ∃ e ∈ history step w calls,
      e.2.op = .set (i.val + 1) true .web ∧ ((result e.1 e.2).err = .ok () →
        relayCtrlGet (i.val + 1) (run step w calls).s = true ∨
          (run step w calls).s.pendingOn.has i = true) := by
    intro i hi
    have ht : (i, true) ∈ putAllTargets w.s.cfg true :=
      (mem_putAllTargets _ _ _).mpr ⟨rfl, fun _ => hi⟩
    obtain ⟨e, he, hop⟩ := entry_of_target (w := w) hops ht
    refine ⟨e, he, hop, fun hok => ?_⟩
    exact (sets_own hs (putAllTargets_nodup _ _) hops he (t := (i, true)) hop hok
      fun _ u hu hp => absurd hp (hunpaired u hu i)).imp_right And.right
  refine ⟨fun i hi => ?_, hreached, fun hfirst i hi => ?_⟩
  · refine (sets_other hs (fun c hc => targets_of_mem hops hc) fun t ht => ⟨?_, fun hp => ?_⟩).2.2
    · rintro rfl
      exact hi (((mem_putAllTargets _ _ t).mp ht).2 rfl)
    · exact absurd hp (hunpaired t ht i)
  · obtain ⟨e, he, -, hok⟩ := hreached i hi
    exact hok ((putAllFirst_ok _).mp hfirst _ (error_of_entry he))

def pairedBoard : World :=
  run step coldBoot [.plain (.init (DeviceConfig.schemaDefault.pair 1 2)) 0,
    .plain (.set 2 true .sk) 5]

theorem put_all_on_pairedBoard :
    (run step pairedBoard (plainCalls (setOps .web (putAllTargets pairedBoard.s.cfg true))
      10)).s.relay 1 = pairedBoard.s.relay 1 :=
  (put_all_on ⟨0x00#8, 0xff#8⟩ none (fun _ => .normal) _ pairedBoard rfl _
    (plainCalls_ops _ _)).1 1 (by decide +kernel)

/-- "All off" tries every relay; each whose call succeeds is off. A relay wired
to the normally closed contact may have to wait first, and is not off where it
is paired with another such relay. -/
theorem put_all_off (chip : Chip) (stored : Option Mask) (health : HealthKey → Health)
    (cs : List Call) (w : World) (hw : w = run step (boot chip stored health) cs)
    (calls : List Call)
    (hops : calls.map Call.op = setOps .web (putAllTargets w.s.cfg false)) (i : Channel)
    (hpartner : (w.s.cfg.relays i).wiredNc = true →
      ∀ j, Partner w.s.cfg j i → (w.s.cfg.relays j).wiredNc = false) :
    (∃ e ∈ history step w calls, e.2.op = .set (i.val + 1) false .web ∧
      ((result e.1 e.2).err = .ok () →
        relayCtrlGet (i.val + 1) (run step w calls).s = false ∨
          (w.s.cfg.relays i).wiredNc = true ∧ (run step w calls).s.pendingOn.has i = true)) ∧
    (putAllFirst (errors w calls) = .ok () →
      relayCtrlGet (i.val + 1) (run step w calls).s = false ∨
        (w.s.cfg.relays i).wiredNc = true ∧ (run step w calls).s.pendingOn.has i = true) := by
  have hs : w.s.Sound := hw ▸ run_sound chip stored health cs
  have ht : (i, false) ∈ putAllTargets w.s.cfg false :=
    (mem_putAllTargets _ _ _).mpr ⟨rfl, fun h => by cases h⟩
  obtain ⟨e, he, hop⟩ := entry_of_target (w := w) hops ht
  have hreached : (result e.1 e.2).err = .ok () →
      relayCtrlGet (i.val + 1) (run step w calls).s = false ∨
        (w.s.cfg.relays i).wiredNc = true ∧ (run step w calls).s.pendingOn.has i = true := by
    intro hok
    refine (sets_own hs (putAllTargets_nodup _ _) hops he (t := (i, false)) hop hok
      fun hcoil u hu hp => ?_).imp_right fun h => ⟨by simpa [coilOf] using h.1, h.2⟩
    rw [coilOf, ((mem_putAllTargets _ _ u).mp hu).1,
      hpartner (by simpa [coilOf] using hcoil) u.1 hp]
    rfl
  exact ⟨⟨e, he, hop, hreached⟩,
    fun hfirst => hreached ((putAllFirst_ok _).mp hfirst _ (error_of_entry he))⟩

theorem put_all_off_pairedBoard :
    relayCtrlGet 2 (run step pairedBoard (plainCalls (setOps .web
      (putAllTargets pairedBoard.s.cfg false)) 10)).s = false := by
  refine ((put_all_off ⟨0x00#8, 0xff#8⟩ none (fun _ => .normal) _ pairedBoard rfl _
    (plainCalls_ops _ _) 1 (by decide +kernel)).2 (by decide +kernel)).resolve_right
    (fun h => ?_)
  exact absurd h.1 (by decide +kernel)

/-- Of two paired relays that are both wired to the normally closed contact,
"All off" energises one coil after the other, and the first relay stays on. -/
example :
    let cfg := ((DeviceConfig.schemaDefault.pair 1 2).modifyRelay 1
      fun r => { r with wiredNc := true }).modifyRelay 2 fun r => { r with wiredNc := true }
    let w := step coldBoot (.plain (.init cfg) 0)
    let calls := plainCalls (setOps .web (putAllTargets cfg false)) 10
    putAllFirst (errors w calls) = .ok () ∧ relayCtrlGet 1 (run step w calls).s = true ∧
      (run step w calls).s.pendingOn.has 0 = false := by
  decide +kernel

section Control

variable {data : List Byte} {relayBank : Byte}

theorem and_bit_ne_zero (m : BitVec 32) (i : Channel) :
    m &&& 1#32 <<< i.val ≠ 0#32 ↔ m.getLsbD i.val = true := by
  have hi : i.val < 32 := by omega
  rw [and_ne_zero_iff]
  constructor
  · rintro ⟨j, hm, hbit⟩
    rw [has, getLsbD_bit, Bool.and_eq_true, decide_eq_true_iff, decide_eq_true_iff] at hbit
    rw [hbit.2]
    exact hm
  · intro hm
    refine ⟨⟨i.val, hi⟩, hm, ?_⟩
    rw [has, getLsbD_bit]
    simp [hi]

theorem mem_controlTargets (cmd : SwitchBankCommand) (t : Target) :
    t ∈ controlTargets cmd ↔ (if t.2 then cmd.on else cmd.off).getLsbD t.1.val = true := by
  obtain ⟨i, b⟩ := t
  have hone : ∀ (p : Prop) [Decidable p] (j : Channel) (c : Bool),
      (i, b) ∈ (if p then [(j, c)] else []) ↔ p ∧ i = j ∧ b = c := by
    intro p _ j c
    split_ifs with hp <;> simp [hp]
  simp only [controlTargets, List.mem_flatMap, List.mem_finRange, true_and, List.mem_append, hone,
    and_bit_ne_zero]
  cases b with
  | true => simp
  | false => simp

/-- A relay is set on for 1 in its field, off for 0, and not at all otherwise. -/
theorem mem_onControlMessage (t : Target) :
    t ∈ onControlMessage data relayBank ↔ 8 ≤ data.length ∧ data.getD 0 0 = relayBank ∧
      controlField data t.1.val = if t.2 then 1 else 0 := by
  unfold onControlMessage
  by_cases h : data.length < 8 ∨ data.getD 0 0 ≠ relayBank
  · rw [decode_refuses h]
    refine iff_of_false (List.not_mem_nil) (fun ⟨hlen, hbank, _⟩ => ?_)
    rcases h with hshort | hother
    · omega
    · exact hother hbank
  · push Not at h
    obtain ⟨cmd, hcmd, hbits⟩ := decode_accepts h.1 h.2 boardChannels ⟨0, 0⟩
    have hi : t.1.val < boardChannels ∧ t.1.val < 28 := ⟨t.1.isLt, by omega⟩
    rw [hcmd]
    dsimp only
    rw [mem_controlTargets, and_iff_right h.1, and_iff_right h.2]
    cases t.2 <;> simp [hbits, hi]

theorem controlTargets_nodup (cmd : SwitchBankCommand) (h : ∀ i : Channel,
      ¬(cmd.on.getLsbD i.val = true ∧ cmd.off.getLsbD i.val = true)) :
    ((controlTargets cmd).map Prod.fst).Nodup := by
  rw [controlTargets, List.map_flatMap, List.nodup_flatMap]
  have hown : ∀ (p q : Prop) [Decidable p] [Decidable q] (i k : Channel),
      k ∈ ((if p then [(i, true)] else []) ++ if q then [(i, false)] else []).map Prod.fst →
        k = i := by
    intro p q _ _ i k hk
    split_ifs at hk <;> simp_all
  constructor
  · intro i _
    have hi := h i
    rw [← and_bit_ne_zero, ← and_bit_ne_zero] at hi
    split_ifs with hon hoff
    · exact absurd ⟨hon, hoff⟩ hi
    · simp
    · simp
    · simp
  · refine (List.nodup_finRange 8).imp (fun {i j} hij k hk hk' => hij ?_)
    rw [← hown _ _ i k hk, ← hown _ _ j k hk']

theorem onControlMessage_nodup (data : List Byte) (relayBank : Byte) :
    ((onControlMessage data relayBank).map Prod.fst).Nodup := by
  unfold onControlMessage
  by_cases h : data.length < 8 ∨ data.getD 0 0 ≠ relayBank
  · rw [decode_refuses h]
    exact List.nodup_nil
  · push Not at h
    obtain ⟨cmd, hcmd, hbits⟩ := decode_accepts h.1 h.2 boardChannels ⟨0, 0⟩
    rw [hcmd]
    refine controlTargets_nodup cmd fun i => ?_
    rintro ⟨hon, hoff⟩
    rw [(hbits i.val).1, Bool.and_eq_true, decide_eq_true_iff, decide_eq_true_iff] at hon
    rw [(hbits i.val).2, Bool.and_eq_true, decide_eq_true_iff, decide_eq_true_iff, hon.2] at hoff
    exact absurd hoff.2 (by decide)

/-- Instance 7: relay 1 on, relay 3 off, the others as they are. -/
def controlPayload : List Byte := [0x07#8, 0xcd#8, 0xff#8, 0xff#8, 0xff#8, 0xff#8, 0xff#8, 0xff#8]

end Control

end RelayBoard
