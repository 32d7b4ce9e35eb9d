import RelayBoard.ChipState
import RelayBoard.IoTask
import RelayBoard.Lib.Journal

/-!
# Waiting for the restart

After a button action the I/O task finishes its pass and then makes no relay
call until the restart, whatever the other tasks command. A factory reset has
cleared the hold state by then, and since only a tick saves it, it stays
cleared: the next boot restores nothing.
-/

set_option autoImplicit false

namespace RelayBoard
open BitVec Lib.Runs Lib.Clock Lib.Journal

def Op.closing : Op → Bool
  | .set _ _ src => src == .schedule
  | .skLost => true
  | _ => false

theorem step_keeps_store (w : World) (c : Call)
    (hop : (∃ channel on src, c.op = .set channel on src) ∨ c.op = .skLost) :
    (step w c).env.stored = w.env.stored := by
  obtain ⟨op, time, faults, saveErr⟩ := c
  rcases hop with ⟨channel, on, src, rfl⟩ | rfl
  · exact (setOrToggle_wrote channel (some on) src _).toMoved.env.stored
  · exact (skLost_wrote _).toMoved.env.stored

theorem set_of_closing {op : Op} (h : op.closing = true) :
    (∃ channel on src, op = .set channel on src) ∨ op = .skLost := by
  cases op with
  | set channel on src => exact .inl ⟨channel, on, src, rfl⟩
  | skLost => exact .inr rfl
  | _ => cases h

namespace IoTask

variable {δ : Type} (sunTimes : ℤ → ℕ → ℕ → δ → δ → SunTimes)

def IoPc.closing : IoPc → Bool
  | .skTick => true
  | .schedule => true
  | .kick => true
  | _ => false

structure Closing (s : IoTask) : Prop where
  restart : s.restartPending = true
  pc : IoPc.closing s.pc = true
  pending : ∀ op ∈ s.pending, op.closing = true

def made (s : IoTask) : IoAction δ → List Op
  | .io _ => s.pending.head?.toList
  | _ => []

def commands : IoAction δ → List Call
  | .command who channel on x => [x.call (.set channel on who.source)]
  | _ => []

theorem scheduleTick_frame (x : IoReads δ) (s : IoTask) :
    (s.scheduleTick sunTimes x).1.relays = s.relays ∧
    (s.scheduleTick sunTimes x).1.restartPending = s.restartPending ∧
    ((∀ op ∈ s.pending, op.closing = true) →
      ∀ op ∈ (s.scheduleTick sunTimes x).1.pending, op.closing = true) := by
  unfold scheduleTick
  dsimp only
  split_ifs
  · exact ⟨rfl, rfl, id⟩
  · refine ⟨rfl, rfl, fun _ op hop => ?_⟩
    obtain ⟨out, -, hout⟩ := List.mem_filterMap.mp hop
    cases out with
    | setRelay entry relay on =>
      obtain rfl := Option.some.inj hout
      rfl
    | health h => cases hout

variable {sunTimes} {s : IoTask}

theorem step_call {op : Op} {rest : List Op} (h : s.pending = op :: rest) (x : IoReads δ) :
    s.step sunTimes (.io x) = { s with pending := rest }.call (x.call op) := by
  unfold step
  dsimp only
  rw [h]

theorem step_enter (h : s.pending = []) (x : IoReads δ) :
    s.step sunTimes (.io x) = s.enter sunTimes x := by
  unfold step
  dsimp only
  rw [h]

variable (sunTimes)

theorem enter_closing (h : s.Closing) (x : IoReads δ) :
    (s.enter sunTimes x).Closing ∧ (s.enter sunTimes x).relays = s.relays := by
  have hpc := h.pc
  unfold enter
  cases hs : s.pc with
  | kick =>
    rw [if_pos h.restart]
    exact ⟨h, rfl⟩
  | skTick =>
    refine ⟨⟨h.restart, rfl, fun op hop => ?_⟩, rfl⟩
    dsimp only at hop
    split_ifs at hop
    · obtain rfl := List.mem_singleton.mp hop
      rfl
    · cases hop
  | schedule =>
    obtain ⟨hrelays, hrestart, hops⟩ := scheduleTick_frame sunTimes x s
    exact ⟨⟨hrestart.trans h.restart, rfl, hops h.pending⟩, hrelays⟩
  | _ =>
    rw [hs] at hpc
    cases hpc

/-- A step after the action: what is left of the pass neither ticks relay
control nor takes over settings. -/
theorem step_closing (h : s.Closing) (a : IoAction δ) :
    (s.step sunTimes a).Closing ∧
    (s.step sunTimes a).relays.env.stored = s.relays.env.stored ∧
    ∀ op ∈ s.made a, op.closing = true := by
  cases a with
  | io x =>
    cases hpending : s.pending with
    | cons op rest =>
      have hop := h.pending op (by simp [hpending])
      have hrest : ∀ o ∈ rest, o.closing = true := fun o ho => h.pending o (by simp [hpending, ho])
      rw [step_call hpending, made, hpending]
      refine ⟨⟨h.restart, h.pc, hrest⟩, ?_, by simpa using hop⟩
      exact step_keeps_store _ _ (set_of_closing hop)
    | nil =>
      obtain ⟨hclosing, hrelays⟩ := enter_closing sunTimes h x
      rw [step_enter hpending, made, hpending, hrelays]
      exact ⟨hclosing, rfl, by simp⟩
  | command who channel on x =>
    exact ⟨⟨h.restart, h.pc, h.pending⟩, step_keeps_store _ _ (.inl ⟨_, _, _, rfl⟩),
      fun op hop => by cases hop⟩
  | streamChanged connected time =>
    exact ⟨⟨h.restart, h.pc, h.pending⟩, rfl, fun op hop => by cases hop⟩
  | configChange => exact ⟨⟨h.restart, h.pc, h.pending⟩, rfl, fun op hop => by cases hop⟩

structure Decides (s : IoTask) (x : IoReads δ) (action : ButtonAction) : Prop where
  idle : s.pending = []
  pc : s.pc = .button
  hwOk : s.buttonHwOk = true
  action : (s.button.buttonLogicUpdate x.pressed (reading 32 x.time)).2.1 = action

theorem Decides.closing {x : IoReads δ} {action : ButtonAction} (h : s.Decides x action)
    (haction : action ≠ .none) : (s.step sunTimes (.io x)).Closing ∧
      (action = .reset → x.erases = true →
        (s.step sunTimes (.io x)).relays.env.stored = none) := by
  rw [step_enter h.idle, enter, h.pc]
  dsimp only
  unfold buttonPoll
  rw [h.hwOk, Bool.not_true, if_neg Bool.false_ne_true]
  dsimp only
  rw [h.action]
  cases action with
  | none => exact absurd rfl haction
  | portal =>
    exact ⟨⟨rfl, rfl, fun op hop => by simp [h.idle] at hop⟩, fun hreset => by cases hreset⟩
  | reset =>
    refine ⟨⟨rfl, rfl, fun op hop => by simp [h.idle] at hop⟩, fun _ herases => ?_⟩
    dsimp only
    rw [World.clearHoldState, if_pos herases]

theorem run_closing (h : s.Closing) (as : List (IoAction δ)) :
    (run (step sunTimes) s as).Closing ∧
    (run (step sunTimes) s as).relays.env.stored = s.relays.env.stored ∧
    ∀ op ∈ journal made (history (step sunTimes) s as), op.closing = true := by
  refine run_induction (step sunTimes) (I := fun u past => u.Closing ∧
    u.relays.env.stored = s.relays.env.stored ∧ ∀ op ∈ journal made past, op.closing = true)
    (P := fun _ _ => True) s ⟨h, rfl, fun op hop => by cases hop⟩ ?_ as fun _ _ => trivial
  rintro u past a ⟨hclosing, hstored, hmade⟩ -
  obtain ⟨hnext, hkept, hops⟩ := step_closing sunTimes hclosing a
  refine ⟨hnext, hkept.trans hstored, fun op hop => ?_⟩
  rw [journal_cons] at hop
  exact (List.mem_append.mp hop).elim (hmade op) (hops op)

theorem cleared_zero (cfg : DeviceConfig) : (clearInterlockConflicts cfg 0#8).1 = 0#8 := by
  refine ext_has fun i => ?_
  rw [(clearInterlockConflicts_has cfg 0#8 i).1]
  simp

/-- A boot that goes through, finds nothing stored and no outputs kept, or whose
settings hold no relay. -/
theorem boot_off (w : World) (hstored : w.env.stored = none) (chip : Chip)
    (health : HealthKey → Health) (cfg : DeviceConfig) (c : Call)
    (hstarts : Starts (boot chip w.env.stored health) c cfg)
    (hforgets : chip.config ≠ 0x00#8 ∨ holdMask cfg = 0#8) :
    (RelayBoard.step (boot chip w.env.stored health) c).s.mask = 0#8 := by
  rcases hforgets with hchip | hhold
  · rw [cold_boot_mask chip w.env.stored health cfg c hchip hstarts, hstored, Option.getD_none,
      BitVec.zero_and, cleared_zero]
  · obtain ⟨warm, held, env, -, -, -, -, hs⟩ := hstarts.booted
    rw [hs, booted_mask, hhold, BitVec.and_zero, cleared_zero]

/-- After a factory reset that erases the hold state nothing saves it again,
and no tick and no new settings come before the restart, whatever the other
tasks do: the next boot that goes through leaves every coil off and its output
driven so, if it comes after a power cut or its settings hold no relay. -/
theorem factory_reset_forgets (s : IoTask) (x : IoReads δ) (h : s.Decides x .reset)
    (herases : x.erases = true) (as : List (IoAction δ)) :
    (run (step sunTimes) s (.io x :: as)).relays.env.stored = none ∧
    (∀ op ∈ journal made (history (step sunTimes) s (.io x :: as)), op.closing = true) ∧
    ∀ chip health cfg c,
      let w := boot chip (run (step sunTimes) s (.io x :: as)).relays.env.stored health
      Starts w c cfg → chip.config ≠ 0x00#8 ∨ holdMask cfg = 0#8 →
        (RelayBoard.step w c).s.mask = 0#8 ∧ (RelayBoard.step w c).Agrees := by
  obtain ⟨hclosing, hcleared⟩ := h.closing sunTimes (by decide)
  obtain ⟨-, hstored, hmade⟩ := run_closing sunTimes hclosing as
  have hnone : (run (step sunTimes) s (.io x :: as)).relays.env.stored = none :=
    hstored.trans (hcleared rfl herases)
  refine ⟨hnone, fun op hop => ?_, fun chip health cfg c hstarts hforgets => ?_⟩
  · rw [journal_history_cons, made, h.idle] at hop
    exact hmade op hop
  · exact ⟨boot_off _ hnone chip health cfg c hstarts hforgets, hstarts.agrees⟩

/-- Relay 1 is kept over a restart, has been on for so long that its state is
saved, and the button has been held since the start. -/
def heldButton : IoTask :=
  { idle (run RelayBoard.step coldBoot
      [.plain (.init (DeviceConfig.schemaDefault.modifyRelay 1
        fun r => { r with failsafe := .hold })) 0,
        .plain (.set 1 true .web) 10, .plain .tick 6000]) with
    button := ⟨false, false, 2, true, true, 100#32⟩
    lastScheduleTickMs := 15800#32
    pc := .button }

theorem factory_reset_forgets_heldButton :
    heldButton.relays.env.stored = some 1#8 ∧
    (run (step noSun) heldButton [.io (plainReads 16000), .io (plainReads 16001),
      .command .web 2 true (plainReads 16002), .io (plainReads 22000)]).relays.env.stored = none :=
  ⟨by decide +kernel, (factory_reset_forgets noSun heldButton (plainReads 16000)
    ⟨rfl, rfl, rfl, by decide +kernel⟩ rfl _).1⟩

/-- Once the pass of a button action is over, relay control is moved by the
other tasks' commands alone. -/
theorem waiting_moves_nothing (s : IoTask) (hrestart : s.restartPending = true)
    (hpc : s.pc = .kick) (hidle : s.pending = []) (as : List (IoAction δ)) :
    (run (step sunTimes) s as).relays = run RelayBoard.step s.relays (as.flatMap commands) := by
  induction as generalizing s with
  | nil => rfl
  | cons a as ih =>
    cases a with
    | io x =>
      have hstay : s.step sunTimes (.io x) = s := by
        rw [step_enter hidle, enter, hpc]
        exact if_pos hrestart
      show (run (step sunTimes) (s.step sunTimes (.io x)) as).relays = _
      rw [hstay, ih s hrestart hpc hidle]
      rfl
    | command who channel on x => exact ih _ hrestart hpc hidle
    | streamChanged connected time => exact ih _ hrestart hpc hidle
    | configChange => exact ih _ hrestart hpc hidle

/-- The time of the call of `schedule_eval_tick` that a step makes. -/
def evaluates (s : IoTask) : IoAction δ → List ℕ
  | .io x =>
    match s.pending, s.pc with
    | [], .schedule => (s.scheduleTick sunTimes x).2.toList.map fun _ => x.time
    | _, _ => []
  | _ => []

theorem evaluates_cases (s : IoTask) (a : IoAction δ) :
    s.evaluates sunTimes a = [] ∨ ∃ x, a = .io x ∧ s.evaluates sunTimes a = [x.time] ∧
      1000#32 ≤ reading 32 x.time - s.lastScheduleTickMs := by
  cases a with
  | io x =>
    unfold evaluates
    dsimp only
    split
    · unfold scheduleTick
      dsimp only
      split_ifs with hearly
      · exact .inl rfl
      · exact .inr ⟨x, rfl, rfl, BitVec.not_lt.mp hearly⟩
    · exact .inl rfl
  | _ => exact .inl rfl

theorem evaluates_iff (s : IoTask) (x : IoReads δ) (hidle : s.pending = [])
    (hpc : s.pc = .schedule) :
    s.evaluates sunTimes (.io x) = [x.time] ↔
      1000#32 ≤ reading 32 x.time - s.lastScheduleTickMs := by
  rw [evaluates, hidle, hpc]
  dsimp only
  unfold scheduleTick
  dsimp only
  split_ifs with hearly
  · exact iff_of_false (by simp) (BitVec.not_le.mpr hearly)
  · exact iff_of_true rfl (BitVec.not_lt.mp hearly)

theorem second_over_iff {t u : ℕ} (h : s.lastScheduleTickMs = reading 32 u) (hle : u ≤ t) :
    1000#32 ≤ reading 32 t - s.lastScheduleTickMs ↔ 1000 ≤ (t - u) % 2 ^ 32 := by
  rw [BitVec.le_def, h, reading_sub_toNat 32 t u hle]
  rfl

def ioTime : IoAction δ → Option ℕ
  | .io x => some x.time
  | _ => none

theorem enter_lastScheduleTickMs (x : IoReads δ) (hpc : s.pc ≠ .schedule) :
    (s.enter sunTimes x).lastScheduleTickMs = s.lastScheduleTickMs := by
  unfold enter
  cases hs : s.pc with
  | schedule => exact absurd hs hpc
  | kick =>
    dsimp only
    split_ifs <;> rfl
  | wake =>
    dsimp only
    split <;> rfl
  | button =>
    dsimp only
    unfold buttonPoll
    split_ifs
    · rfl
    · dsimp only
      split <;> rfl
  | _ => rfl

theorem step_evaluates (s : IoTask) (a : IoAction δ) :
    (s.step sunTimes a).lastScheduleTickMs =
      ((s.evaluates sunTimes a).getLast?.map (reading 32)).getD s.lastScheduleTickMs := by
  cases a with
  | io x =>
    unfold evaluates
    dsimp only
    split
    · rename_i hidle hpc
      rw [step_enter hidle, enter, hpc]
      dsimp only
      unfold scheduleTick
      dsimp only
      split_ifs <;> rfl
    · rename_i hother
      cases hpending : s.pending with
      | cons op rest =>
        rw [step_call hpending]
        rfl
      | nil =>
        rw [step_enter hpending, enter_lastScheduleTickMs sunTimes x fun hpc => hother hpending hpc]
        rfl
  | _ => rfl

/-- In every run whose times are in order the last evaluation is the one the
task remembers, and the evaluations stand a second apart. -/
theorem run_evaluates {t₀ : ℕ} (h₀ : s.lastScheduleTickMs = reading 32 t₀)
    (as : List (IoAction δ)) (htimes : (t₀ :: as.filterMap ioTime).Pairwise (· ≤ ·)) :
    let times := t₀ :: journal (evaluates sunTimes) (history (step sunTimes) s as)
    (∃ last ∈ t₀ :: as.filterMap ioTime, times.getLast? = some last ∧
      (run (step sunTimes) s as).lastScheduleTickMs = reading 32 last) ∧
    times.IsChain fun a b => a + 1000 ≤ b := by
  induction as using List.reverseRecOn with
  | nil => exact ⟨⟨t₀, List.mem_cons_self .., rfl, h₀⟩, List.isChain_singleton _⟩
  | append_singleton as a ih =>
    rw [List.filterMap_append, ← List.cons_append] at htimes ⊢
    obtain ⟨hpast, -, hnow⟩ := List.pairwise_append.mp htimes
    obtain ⟨⟨last, hmem, hlast, hheld⟩, hchain⟩ := ih hpast
    have hstep := step_evaluates sunTimes (run (step sunTimes) s as) a
    rw [history_snoc, journal_cons, run_snoc]
    dsimp only at hstep ⊢
    rcases evaluates_cases sunTimes (run (step sunTimes) s as) a with
      hnone | ⟨x, rfl, htime, hdue⟩
    · rw [hnone, List.append_nil]
      rw [hnone] at hstep
      exact ⟨⟨last, List.mem_append_left _ hmem, hlast, hstep.trans hheld⟩, hchain⟩
    · rw [htime, ← List.cons_append]
      rw [htime] at hstep
      have hle : last ≤ x.time := hnow last hmem x.time (List.mem_singleton_self _)
      refine ⟨⟨x.time, List.mem_append_right _ (List.mem_singleton_self _),
        List.getLast?_concat, hstep⟩, hchain.append (List.isChain_singleton _) fun a ha b hb => ?_⟩
      obtain rfl := Option.some.inj (hlast.symm.trans ha)
      obtain rfl := Option.some.inj hb
      -- The reading's difference is no larger than the true time between.
      rw [second_over_iff hheld hle] at hdue
      have hmod := Nat.mod_le (x.time - last) (2 ^ 32)
      omega

/-- The schedules are evaluated at most once a second of true time, and where
the task comes to them a second after the last evaluation (less only what the
clock has wrapped) they are. -/
theorem schedules_once_a_second (s : IoTask) (t₀ : ℕ) (h₀ : s.lastScheduleTickMs = reading 32 t₀)
    (as : List (IoAction δ)) (htimes : (t₀ :: as.filterMap ioTime).Pairwise (· ≤ ·)) :
    (t₀ :: journal (evaluates sunTimes) (history (step sunTimes) s as)).IsChain
      (fun a b => a + 1000 ≤ b) ∧
    ∀ past x rest, as = past ++ .io x :: rest →
      let u := run (step sunTimes) s past
      u.pending = [] → u.pc = .schedule →
      ∃ last, (t₀ :: journal (evaluates sunTimes) (history (step sunTimes) s past)).getLast? =
          some last ∧
        (u.evaluates sunTimes (.io x) = [x.time] ↔ 1000 ≤ (x.time - last) % 2 ^ 32) := by
  refine ⟨(run_evaluates sunTimes h₀ as htimes).2, ?_⟩
  intro past x rest has u hidle hpc
  rw [has, List.filterMap_append, ← List.cons_append] at htimes
  obtain ⟨hpast, -, hnow⟩ := List.pairwise_append.mp htimes
  obtain ⟨⟨last, hmem, hlast, hheld⟩, -⟩ := run_evaluates sunTimes h₀ past hpast
  have hle : last ≤ x.time := hnow last hmem x.time (by simp [ioTime])
  exact ⟨last, hlast, (evaluates_iff sunTimes u x hidle hpc).trans (second_over_iff hheld hle)⟩

theorem schedules_once_a_second_heldButton :
    let as := [.io (plainReads 15900), .io (plainReads 16000), .io (plainReads 16900)]
    (15800 :: journal (evaluates noSun)
      (history (step noSun) { heldButton with button := buttonLogicInit false } as)).IsChain
        fun a b => a + 1000 ≤ b :=
  (schedules_once_a_second noSun { heldButton with button := buttonLogicInit false } 15800 rfl
    [.io (plainReads 15900), .io (plainReads 16000), .io (plainReads 16900)] (by decide)).1

end IoTask

end RelayBoard
