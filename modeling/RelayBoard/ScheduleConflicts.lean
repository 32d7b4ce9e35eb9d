import Mathlib.Logic.Equiv.Basic
import RelayBoard.ConfigLoad

/-!
# Schedules that name the same relay

A schedule is valid if it names a relay and its strings parse for its mode. A
relay that several valid schedules name is given to none of them; the others
keep theirs, in whatever order the slots stand.
-/

set_option autoImplicit false

namespace RelayBoard
open BitVec Lib.Loops Lib.Scanning

namespace ScheduleSlot

/-- The strings are those of the mode, in repeat mode with less time on than in
a cycle. -/
def Parses (slot : ScheduleSlot) : Prop :=
  match slot.scheduleMode with
  | .repeat => ∃ on period, MinutesText slot.on.bytes on ∧ MinutesText slot.off.bytes period ∧
      on < period
  | .clock => (∃ kind v, TimeText slot.on.bytes kind v) ∧ ∃ kind v, TimeText slot.off.bytes kind v

structure Valid (slot : ScheduleSlot) : Prop where
  least : 1 ≤ slot.relay.toNat
  most : slot.relay.toNat ≤ 8
  parses : slot.Parses

end ScheduleSlot

theorem minutesIn_iff (str : CStr 23) (v : ℕ) :
    minutesIn str = some v ↔ MinutesText str.bytes v := by
  rw [← parseMinutes_iff str.bytes str.noNul, minutesIn, ← Option.some_inj, Option.some_get]

theorem timeIn_iff (str : CStr 23) (out : ScheduleTime) :
    (timeIn str out).1 = true ↔ ∃ kind v, TimeText str.bytes kind v := by
  have hparse : parseScheduleTime (terminated str.bytes) out = some (timeIn str out) :=
    (Option.some_get _).symm
  constructor
  · intro hok
    have htime : timeIn str out = (true, (timeIn str out).2) := Prod.ext hok rfl
    rw [htime] at hparse
    obtain ⟨kind, v, htext, -⟩ := (parseScheduleTime_iff str.bytes str.noNul out _).mp hparse
    exact ⟨kind, v, htext⟩
  · rintro ⟨kind, v, htext⟩
    have hok := (parseScheduleTime_iff str.bytes str.noNul out _).mpr ⟨kind, v, htext, rfl⟩
    rw [Option.some.inj (hparse.symm.trans hok)]

theorem parseRepeat_iff (on off : CStr 23) (onMin periodMin : ℕ) :
    parseRepeat on off = (true, onMin, periodMin) ↔
      MinutesText on.bytes onMin ∧ MinutesText off.bytes periodMin ∧ onMin < periodMin := by
  rw [← minutesIn_iff, ← minutesIn_iff]
  unfold parseRepeat
  cases hon : minutesIn on with
  | none => simp
  | some a =>
    cases hoff : minutesIn off with
    | none => simp
    | some b =>
      simp only [Prod.mk.injEq, decide_eq_true_eq, Option.some.injEq]
      constructor
      · rintro ⟨hlt, rfl, rfl⟩
        exact ⟨rfl, rfl, hlt⟩
      · rintro ⟨rfl, rfl, hlt⟩
        exact ⟨hlt, rfl, rfl⟩

theorem parseClock_iff (on off : CStr 23) : (parseClock on off).1 = true ↔
    (∃ kind v, TimeText on.bytes kind v) ∧ ∃ kind v, TimeText off.bytes kind v := by
  rw [← timeIn_iff on .zero, ← timeIn_iff off .zero]
  unfold parseClock
  cases hon : (timeIn on .zero).1 <;> simp [hon]

namespace ScheduleSlot

variable (slot : ScheduleSlot)

theorem load_none (h : slot.relay.toNat < 1 ∨ 8 < slot.relay.toNat) : slot.load.relay = 0 := by
  have hnone : (if 8 < slot.relay.toNat then 0 else slot.relay.toNat) = 0 := by
    split_ifs
    · rfl
    · omega
  simp [load, hnone]

theorem load_repeat (h : ¬(slot.relay.toNat < 1 ∨ 8 < slot.relay.toNat))
    (hmode : slot.scheduleMode = .repeat) :
    slot.load.mode = .repeat ∧ slot.load.onMin = (parseRepeat slot.on slot.off).2.1 ∧
      slot.load.periodMin = (parseRepeat slot.on slot.off).2.2 ∧
      slot.load.relay =
        if (parseRepeat slot.on slot.off).1 then slot.relay.toNat else 0 := by
  have hrelay : (if 8 < slot.relay.toNat then 0 else slot.relay.toNat) = slot.relay.toNat :=
    if_neg (by omega)
  have hsome : ¬slot.relay.toNat = 0 := by omega
  unfold load
  dsimp only
  rw [hrelay, if_neg hsome, hmode]
  exact ⟨rfl, rfl, rfl, rfl⟩

theorem load_clock (h : ¬(slot.relay.toNat < 1 ∨ 8 < slot.relay.toNat))
    (hmode : slot.scheduleMode = .clock) :
    slot.load.mode = .clock ∧
      slot.load.relay =
        if (parseClock slot.on slot.off).1 then slot.relay.toNat else 0 := by
  have hrelay : (if 8 < slot.relay.toNat then 0 else slot.relay.toNat) = slot.relay.toNat :=
    if_neg (by omega)
  have hsome : ¬slot.relay.toNat = 0 := by omega
  unfold load
  dsimp only
  rw [hrelay, if_neg hsome, hmode]
  exact ⟨rfl, rfl⟩

theorem load_relay : (slot.Valid → slot.load.relay = slot.relay.toNat) ∧
    (¬slot.Valid → slot.load.relay = 0) := by
  by_cases hrange : slot.relay.toNat < 1 ∨ 8 < slot.relay.toNat
  · refine ⟨fun hvalid => ?_, fun _ => slot.load_none hrange⟩
    have hleast := hvalid.least
    have hmost := hvalid.most
    omega
  · have hvalid : slot.Valid ↔ slot.Parses :=
      ⟨Valid.parses, fun hparses => ⟨by omega, by omega, hparses⟩⟩
    rw [hvalid, Parses]
    cases hmode : slot.scheduleMode with
    | «repeat» =>
      rw [(slot.load_repeat hrange hmode).2.2.2]
      constructor
      · rintro ⟨onMin, periodMin, htexts⟩
        rw [(parseRepeat_iff _ _ onMin periodMin).mpr htexts, if_pos rfl]
      · intro hnone
        rw [if_neg]
        intro hok
        exact hnone ⟨_, _, (parseRepeat_iff slot.on slot.off _ _).mp (Prod.ext hok rfl)⟩
    | clock =>
      rw [(slot.load_clock hrange hmode).2, ← parseClock_iff]
      exact ⟨fun hok => if_pos hok, fun hnot => if_neg hnot⟩

/-- A slot in repeat mode that is loaded with a relay has a cycle. -/
theorem load_cycle (h : slot.load.relay ≠ 0) (hmode : slot.load.mode = .repeat) :
    1 ≤ slot.load.onMin ∧ slot.load.onMin < slot.load.periodMin := by
  by_cases hrange : slot.relay.toNat < 1 ∨ 8 < slot.relay.toNat
  · exact absurd (slot.load_none hrange) h
  · cases hslot : slot.scheduleMode with
    | clock =>
      rw [(slot.load_clock hrange hslot).1] at hmode
      cases hmode
    | «repeat» =>
      obtain ⟨-, hon, hperiod, hrelay⟩ := slot.load_repeat hrange hslot
      rw [hrelay] at h
      have hok : (parseRepeat slot.on slot.off).1 = true := by
        by_contra hnot
        exact h (if_neg hnot)
      obtain ⟨htext, -, hlt⟩ :=
        (parseRepeat_iff slot.on slot.off _ _).mp (Prod.ext hok rfl)
      rw [hon, hperiod]
      exact ⟨htext.range.1, hlt⟩

end ScheduleSlot

def Shared (raw : ScheduleEntry → ℕ) (n : ℕ) : Prop := ∃ k k', k ≠ k' ∧ raw k = n ∧ raw k' = n

theorem countNamed_iff (raw : ScheduleEntry → ℕ) (n : ℕ) :
    ¬countNamed raw n < 2 ↔ Shared raw n := by
  rw [countNamed, forEach_count_lt_two (fun k => raw k = n)]
  constructor
  · intro h
    by_contra hnone
    exact h fun k k' hk hk' => by_contra fun hne => hnone ⟨k, k', hne, hk, hk'⟩
  · rintro ⟨k, k', hne, hk, hk'⟩ hone
    exact hne (hone k k' hk hk')

section Overlaps

variable (raw : ScheduleEntry → ℕ)

theorem rejectOverlap_conflict (r q : Channel) (out : ScheduleRelays) :
    (rejectOverlap raw r out).conflict.has q =
      (out.conflict.has q || (decide (q = r) && !decide (countNamed raw (r.val + 1) < 2))) := by
  unfold rejectOverlap
  by_cases hone : countNamed raw (r.val + 1) < 2
  · simp [hone]
  · simp [hone]

theorem rejectOverlap_schedules (r : Channel) (k : ScheduleEntry) (out : ScheduleRelays) :
    (rejectOverlap raw r out).schedules k =
      if raw k = r.val + 1 ∧ ¬countNamed raw (r.val + 1) < 2 then
        { out.schedules k with relay := 0 }
      else out.schedules k := by
  have hpass : ∀ (j : ScheduleEntry) (schedules : ScheduleEntry → ScheduleCfg),
      (if raw j = r.val + 1 then Function.update schedules j { schedules j with relay := 0 }
        else schedules) k =
      if j = k ∧ raw j = r.val + 1 then { schedules k with relay := 0 } else schedules k := by
    intro j schedules
    by_cases hj : j = k
    · subst hj
      by_cases hr : raw j = r.val + 1 <;> simp [hr]
    · have hk : k ≠ j := fun h => hj h.symm
      by_cases hr : raw j = r.val + 1 <;> simp [hr, hj, hk]
  unfold rejectOverlap
  dsimp only
  by_cases hone : countNamed raw (r.val + 1) < 2
  · rw [if_pos hone, if_neg (fun h => h.2 hone)]
  · rw [if_neg hone]
    dsimp only
    rw [forEach_own _ (fun schedules : ScheduleEntry → ScheduleCfg => schedules k) k]
    · rw [hpass]
      simp [hone]
    · intro j hj schedules
      rw [hpass, if_neg (fun h => hj h.1)]
    · intro schedules schedules' h
      rw [hpass, hpass, h]

/-- A relay that two entries name is given to none of them, and is reported. -/
theorem rejectOverlaps_spec (schedules : ScheduleEntry → ScheduleCfg) :
    (∀ k, (rejectOverlaps schedules).schedules k =
      if 1 ≤ (schedules k).relay ∧ (schedules k).relay ≤ 8 ∧
        ¬countNamed (fun k => (schedules k).relay) (schedules k).relay < 2
      then { schedules k with relay := 0 } else schedules k) ∧
    ∀ r, (rejectOverlaps schedules).conflict.has r =
      !decide (countNamed (fun k => (schedules k).relay) (r.val + 1) < 2) := by
  constructor
  · intro k
    unfold rejectOverlaps
    by_cases hrange : (schedules k).relay < 1 ∨ 8 < (schedules k).relay
    · rw [forEach_frame _ (fun out : ScheduleRelays => out.schedules k), if_neg (by omega)]
      intro r out
      rw [rejectOverlap_schedules, if_neg]
      rintro ⟨hr, -⟩
      have hlt := r.isLt
      omega
    · obtain ⟨r, hr⟩ := exists_index hrange
      rw [forEach_own _ (fun out : ScheduleRelays => out.schedules k) r]
      · rw [rejectOverlap_schedules, ← hr]
        simp only [true_and]
        by_cases hone : countNamed (fun k => (schedules k).relay) (schedules k).relay < 2
        · rw [if_neg (fun h => h hone), if_neg (fun h => h.2.2 hone)]
        · rw [if_pos hone, if_pos ⟨by omega, by omega, hone⟩]
      · intro q hq out
        rw [rejectOverlap_schedules, if_neg]
        rintro ⟨hk, -⟩
        exact hq (Fin.ext (by omega))
      · intro out out' h
        rw [rejectOverlap_schedules, rejectOverlap_schedules, h]
  · intro r
    unfold rejectOverlaps
    rw [forEach_own _ (fun out : ScheduleRelays => out.conflict.has r) r]
    · rw [rejectOverlap_conflict]
      simp
    · intro q hq out
      rw [rejectOverlap_conflict]
      simp [hq.symm]
    · intro out out' h
      rw [rejectOverlap_conflict, rejectOverlap_conflict, h]

end Overlaps

/-- The entry is valid, and no other valid entry names its relay. -/
def Settings.Sole (s : Settings) (k : ScheduleEntry) : Prop :=
  (s.slot k).Valid ∧ ∀ k', k' ≠ k → (s.slot k').Valid → (s.slot k').relay ≠ (s.slot k).relay

structure SchedulesResolved (s : Settings) (c : LoadedConfig) : Prop where
  kept : ∀ k, s.Sole k → (c.schedules k).relay = (s.slot k).relay.toNat
  cleared : ∀ k, ¬s.Sole k → (c.schedules k).relay = 0
  distinct : ∀ k k', (c.schedules k).relay ≠ 0 → (c.schedules k).relay = (c.schedules k').relay →
    k = k'
  conflict_iff : ∀ r, c.scheduleRelayConflict.has r = true ↔ ∃ k k', k ≠ k' ∧
    ((s.slot k).Valid ∧ (s.slot k).relay.toNat = r.val + 1) ∧
    (s.slot k').Valid ∧ (s.slot k').relay.toNat = r.val + 1
  cycle : ∀ k, (c.schedules k).relay ≠ 0 → (c.schedules k).mode = .repeat →
    1 ≤ (c.schedules k).onMin ∧ (c.schedules k).onMin < (c.schedules k).periodMin

theorem load_relay_iff (slot : ScheduleSlot) (n : ℕ) (hn : n ≠ 0) :
    slot.load.relay = n ↔ slot.Valid ∧ slot.relay.toNat = n := by
  obtain ⟨hvalid, hnot⟩ := slot.load_relay
  by_cases h : slot.Valid
  · rw [hvalid h]
    exact ⟨fun hrelay => ⟨h, hrelay⟩, fun hrelay => hrelay.2⟩
  · rw [hnot h]
    exact ⟨fun hzero => absurd hzero.symm hn, fun hrelay => absurd hrelay.1 h⟩

section Load

variable {s : Settings} {c : LoadedConfig}

theorem load_schedules (h : deviceConfigLoad s = some c) :
    c.schedules = (rejectOverlaps fun k => (s.slot k).load).schedules ∧
      c.scheduleRelayConflict = (rejectOverlaps fun k => (s.slot k).load).conflict := by
  unfold deviceConfigLoad at h
  split_ifs at h
  obtain rfl := Option.some.inj h
  exact ⟨rfl, rfl⟩

theorem shared_iff (s : Settings) (n : ℕ) (hn : n ≠ 0) :
    Shared (fun k => (s.slot k).load.relay) n ↔ ∃ k k', k ≠ k' ∧
      ((s.slot k).Valid ∧ (s.slot k).relay.toNat = n) ∧
      (s.slot k').Valid ∧ (s.slot k').relay.toNat = n := by
  unfold Shared
  simp only [load_relay_iff _ n hn]

/-- An entry is loaded as its slot says, less its relay where that is shared. -/
theorem load_schedule (h : deviceConfigLoad s = some c) (k : ScheduleEntry) :
    (s.Sole k ∧ c.schedules k = (s.slot k).load) ∨
      ¬s.Sole k ∧ (c.schedules k).relay = 0 ∧
        c.schedules k = { (s.slot k).load with relay := 0 } := by
  rw [(load_schedules h).1, (rejectOverlaps_spec _).1 k]
  by_cases hvalid : (s.slot k).Valid
  · have hrelay : (s.slot k).load.relay = (s.slot k).relay.toNat :=
      (s.slot k).load_relay.1 hvalid
    have hleast := hvalid.least
    have hmost := hvalid.most
    have hnamed := load_relay_iff (s.slot k) (s.slot k).relay.toNat (by omega)
    by_cases hshared : Shared (fun k => (s.slot k).load.relay) (s.slot k).relay.toNat
    · right
      rw [if_pos ⟨by omega, by omega, by rwa [countNamed_iff, hrelay]⟩]
      refine ⟨?_, rfl, rfl⟩
      rintro ⟨-, hsole⟩
      obtain ⟨a, b, hne, ⟨ha, hna⟩, hb, hnb⟩ := (shared_iff s _ (by omega)).mp hshared
      have hone : ∀ j, (s.slot j).Valid → (s.slot j).relay.toNat = (s.slot k).relay.toNat →
          j = k := by
        intro j hj hsame
        by_contra hjk
        exact hsole j hjk hj (BitVec.eq_of_toNat_eq hsame)
      exact hne ((hone a ha hna).trans (hone b hb hnb).symm)
    · left
      rw [if_neg (fun hbad => hshared (by rw [countNamed_iff, hrelay] at hbad; exact hbad.2.2))]
      refine ⟨⟨hvalid, fun k' hk' hvalid' hsame => hshared ?_⟩, rfl⟩
      exact (shared_iff s _ (by omega)).mpr
        ⟨k', k, hk', ⟨hvalid', congrArg BitVec.toNat hsame⟩, hvalid, rfl⟩
  · right
    have hzero : (s.slot k).load.relay = 0 := (s.slot k).load_relay.2 hvalid
    rw [if_neg (by omega)]
    refine ⟨fun hsole => hvalid hsole.1, hzero, ?_⟩
    rw [← hzero]

theorem load_schedules_resolved (h : deviceConfigLoad s = some c) : SchedulesResolved s c where
  kept k hsole := by
    rcases load_schedule h k with ⟨-, hk⟩ | ⟨hnot, -⟩
    · rw [hk]
      exact (s.slot k).load_relay.1 hsole.1
    · exact absurd hsole hnot
  cleared k hnot := by
    rcases load_schedule h k with ⟨hsole, -⟩ | ⟨-, hzero, -⟩
    · exact absurd hsole hnot
    · exact hzero
  distinct k k' hne hsame := by
    rcases load_schedule h k with ⟨hsole, hk⟩ | ⟨-, hzero, -⟩
    · rcases load_schedule h k' with ⟨hsole', hk'⟩ | ⟨-, hzero, -⟩
      · by_contra hkk
        rw [hk, hk', (s.slot k).load_relay.1 hsole.1, (s.slot k').load_relay.1 hsole'.1] at hsame
        exact hsole'.2 k hkk hsole.1 (BitVec.eq_of_toNat_eq hsame)
      · exact absurd (hsame.trans hzero) hne
    · exact absurd hzero hne
  conflict_iff r := by
    rw [(load_schedules h).2, (rejectOverlaps_spec _).2 r, Bool.not_eq_true',
      decide_eq_false_iff_not, countNamed_iff]
    exact shared_iff s (r.val + 1) (Nat.succ_ne_zero _)
  cycle k hne hmode := by
    rcases load_schedule h k with ⟨-, hk⟩ | ⟨-, hzero, -⟩
    · rw [hk] at hne hmode ⊢
      exact (s.slot k).load_cycle hne hmode
    · exact absurd hzero hne

theorem load_permuted {s' : Settings} {c' : LoadedConfig} (h : deviceConfigLoad s = some c)
    (h' : deviceConfigLoad s' = some c') (π : Equiv.Perm ScheduleEntry)
    (hslots : ∀ k, s'.slot k = s.slot (π k)) :
    (∀ k, c'.schedules k = c.schedules (π k)) ∧
      c'.scheduleRelayConflict = c.scheduleRelayConflict := by
  have hsole : ∀ k, s'.Sole k ↔ s.Sole (π k) := by
    intro k
    unfold Settings.Sole
    simp only [hslots]
    refine and_congr_right fun _ => ⟨fun hothers k' hk' => ?_, fun hothers k' hk' => ?_⟩
    · have hback := hothers (π.symm k') (fun heq => hk' (by rw [← heq, π.apply_symm_apply]))
      rwa [π.apply_symm_apply] at hback
    · exact hothers (π k') (fun heq => hk' (π.injective heq))
  constructor
  · intro k
    rcases load_schedule h' k with ⟨hk, hload⟩ | ⟨hk, -, hload⟩
    · rcases load_schedule h (π k) with ⟨-, hπ⟩ | ⟨hnot, -⟩
      · rw [hload, hπ, hslots]
      · exact absurd ((hsole k).mp hk) hnot
    · rcases load_schedule h (π k) with ⟨hπ, -⟩ | ⟨-, -, hπ⟩
      · exact absurd ((hsole k).mpr hπ) hk
      · rw [hload, hπ, hslots]
  · refine ext_has (fun r => ?_)
    rw [Bool.eq_iff_iff, (load_schedules_resolved h').conflict_iff,
      (load_schedules_resolved h).conflict_iff]
    simp only [hslots]
    constructor
    · rintro ⟨k, k', hne, hk, hk'⟩
      exact ⟨π k, π k', fun heq => hne (π.injective heq), hk, hk'⟩
    · rintro ⟨k, k', hne, hk, hk'⟩
      refine ⟨π.symm k, π.symm k', fun heq => hne (π.symm.injective heq), ?_, ?_⟩
      · rwa [π.apply_symm_apply]
      · rwa [π.apply_symm_apply]

end Load

/-- Slot `m` runs relay 2 for 5 minutes in the hour, slot `n` switches relay 3 on
in the morning and off before sunset. -/
def twoSchedules (m n : ℕ) : Settings where
  ready := true
  i32 key :=
    if key = settingKey "s" m "_relay" then some 2#32
    else if key = settingKey "s" n "_relay" then some 3#32
    else none
  bool _ := none
  str key max :=
    .cut max
      (if key = settingKey "s" m "_mode" then ascii "repeat"
        else if key = settingKey "s" m "_on" then ascii "5"
        else if key = settingKey "s" m "_off" then ascii "60"
        else if key = settingKey "s" n "_on" then ascii "06:30"
        else if key = settingKey "s" n "_off" then ascii "sunset-15m"
        else [])

end RelayBoard
