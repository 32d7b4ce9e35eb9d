import RelayBoard.InputSense
import RelayBoard.Lib.Samples

/-!
# The debounced inputs

The published bit of an input changes in a poll only if its pin has been at the
new level for the debounce time, and it shows every level that has been held so
long. `candidate` is the level last sampled, `candidate_since` the reading of
the clock when its run began; the threshold may change between two polls and
`invert` flips what the level means, but neither touches the run. Once a run has
lasted 65536 ms it has been taken up under any threshold, long before the clock
has turned.
-/

set_option autoImplicit false

namespace RelayBoard
open BitVec Lib.Runs Lib.Clock Lib.Samples

def SenseCfg.reads (cfg : SenseCfg) (i : Channel) (level : Bool) : Bool :=
  energised level != cfg.invert i

def SenseOp.reading : SenseOp → List (ℕ × Mask)
  | .poll raw t => [(t, raw)]
  | .save _ => []

/-- When the pins were read and what they showed, newest first: by the polls
alone, and by the polls after start-up. -/
def polls (ops : List SenseOp) : List (ℕ × Mask) := ops.reverse.flatMap SenseOp.reading

def readings (first : ℕ × Mask) (ops : List SenseOp) : List (ℕ × Mask) := polls ops ++ [first]

def pin (i : Channel) (samples : List (ℕ × Mask)) : List (ℕ × Bool) :=
  samples.map fun r => (r.1, r.2.has i)

/-- The clock does not go back, and half a turn never passes between two polls. -/
structure Paced (first : ℕ × Mask) (ops : List SenseOp) : Prop where
  ordered : Ordered (readings first ops)
  gaps : (polls ops).IsChain fun later r => later.1 < r.1 + 2 ^ 31

/-- A poll publishes a change only of a pin held at the new level for the
debounce time, and once ready it publishes every level that has been held. -/
structure PollDebounced (s : InputSense) (samples : List (ℕ × Mask)) (raw : Mask) (t : ℕ) :
    Prop where
  sound : ∀ i, (s.step (.poll raw t)).published.has i ≠ s.published.has i →
    (s.step (.poll raw t)).published.has i = s.cfg.reads i (raw.has i) ∧
      Held s.cfg.debounceMs.toNat (raw.has i) t (pin i ((t, raw) :: samples))
  complete : (s.step (.poll raw t)).ready = true → ∀ i level,
    Held s.cfg.debounceMs.toNat level t (pin i ((t, raw) :: samples)) →
      (s.step (.poll raw t)).published.has i = s.cfg.reads i level

/-- A save flips the published bits of the inputs it inverts, once ready, and no
others. -/
def SaveFlips (s : InputSense) (cfg : SenseCfg) : Prop :=
  ∀ i, (s.step (.save cfg)).published.has i =
    (s.published.has i ^^ (s.ready && cfg.invert i != s.cfg.invert i))

def Debounced (s : InputSense) (samples : List (ℕ × Mask)) : SenseOp → Prop
  | .poll raw t => PollDebounced s samples raw t
  | .save cfg => SaveFlips s cfg

/-- Before readiness no run that began in a poll is older than start-up's wait;
after it, a level not yet taken up began its run lately. -/
structure Sensed (s : InputSense) (first r : ℕ × Mask) (rest : List (ℕ × Mask)) : Prop
    extends s.Shows where
  candidate : s.candidate = readInput s.cfg r.2
  since : ∀ i, s.candidateSince i = reading 32 (runStart (pin i (r :: rest)))
  start : s.startMs = reading 32 first.1
  after : first.1 ≤ r.1
  alone : rest = [] → r = first ∧ s.ready = false
  young : s.ready = false → (r.1 - first.1) % 2 ^ 32 < 66535 ∧ ∀ i,
    runStart (pin i (r :: rest)) = first.1 ∨
      r.1 - runStart (pin i (r :: rest)) ≤ (r.1 - first.1) % 2 ^ 32
  taken : s.ready = true → ∀ i, s.stable.has i = s.candidate i ∨
    r.1 - runStart (pin i (r :: rest)) < 65536

theorem ordered_pin (i : Channel) {samples : List (ℕ × Mask)} (h : Ordered samples) :
    Ordered (pin i samples) := List.pairwise_map.mpr h

theorem readInput_eq_iff (cfg : SenseCfg) (x y : Mask) (i : Channel) :
    readInput cfg x i = readInput cfg y i ↔ x.has i = y.has i := by
  unfold readInput energised boardDiActiveLow
  cases x.has i <;> cases y.has i <;> cases cfg.invert i <;> decide

theorem runStart_pin (i : Channel) (t : ℕ) (raw : Mask) (r : ℕ × Mask)
    (rest : List (ℕ × Mask)) : runStart (pin i ((t, raw) :: r :: rest)) =
      if raw.has i = r.2.has i then runStart (pin i (r :: rest)) else t := by
  by_cases hl : raw.has i = r.2.has i
  · rw [if_pos hl]
    exact runStart_same (t, raw.has i) (r.1, r.2.has i) (pin i rest) hl.symm
  · rw [if_neg hl]
    exact runStart_changed (t, raw.has i) (r.1, r.2.has i) (pin i rest) (Ne.symm hl)

theorem runStart_pin_le (i : Channel) (r : ℕ × Mask) (rest : List (ℕ × Mask))
    (h : Ordered (r :: rest)) : runStart (pin i (r :: rest)) ≤ r.1 :=
  runStart_le (r.1, r.2.has i) (pin i rest) (ordered_pin i h)

theorem start_sensed (cfg : SenseCfg) (first : ℕ × Mask) :
    Sensed (senseRun cfg first []) first first [] where
  candidate := rfl
  since _ := rfl
  start := rfl
  after := le_rfl
  alone _ := ⟨rfl, rfl⟩
  dark _ := rfl
  young _ := ⟨by rw [Nat.sub_self]; decide, fun _ => Or.inl rfl⟩
  shown h := absurd h Bool.false_ne_true
  taken h := absurd h Bool.false_ne_true

namespace Sensed

variable {s : InputSense} {first r : ℕ × Mask} {rest : List (ℕ × Mask)} {raw : Mask} {t : ℕ}

theorem sample_since (h : Sensed s first r rest) (i : Channel) :
    (s.sample raw (reading 32 t)).candidateSince i =
      reading 32 (runStart (pin i ((t, raw) :: r :: rest))) := by
  change (if readInput s.cfg raw i ≠ s.candidate i then _ else s.candidateSince i) = _
  rw [runStart_pin, h.candidate, h.since]
  by_cases hl : raw.has i = r.2.has i
  · rw [if_pos hl, if_neg (not_not_intro ((readInput_eq_iff s.cfg raw r.2 i).mpr hl))]
  · rw [if_neg hl, if_pos (fun hsame => hl ((readInput_eq_iff s.cfg raw r.2 i).mp hsame))]

theorem settled_iff (h : Sensed s first r rest) (ho : Ordered ((t, raw) :: r :: rest))
    (i : Channel) : ((s.sample raw (reading 32 t)).settled (reading 32 t)).has i = true ↔
      s.cfg.debounceMs.toNat ≤ (t - runStart (pin i ((t, raw) :: r :: rest))) % 2 ^ 32 := by
  rw [InputSense.has_settled, h.sample_since,
    reading_sub_toNat 32 t _ (runStart_pin_le i (t, raw) (r :: rest) ho)]
  rfl

/-- A settled input's pin has been held, however often the clock has turned. -/
theorem held_of_settled (h : Sensed s first r rest) (ho : Ordered ((t, raw) :: r :: rest))
    (i : Channel)
    (hs : ((s.sample raw (reading 32 t)).settled (reading 32 t)).has i = true) :
    Held s.cfg.debounceMs.toNat (raw.has i) t (pin i ((t, raw) :: r :: rest)) := by
  have helapsed := (h.settled_iff ho i).mp hs
  have hmod := Nat.mod_le (t - runStart (pin i ((t, raw) :: r :: rest))) (2 ^ 32)
  have hstart := runStart_pin_le i (t, raw) (r :: rest) ho
  refine (held_iff _ _ t (t, raw.has i) (pin i (r :: rest)) (ordered_pin i ho)).mpr ⟨rfl, ?_⟩
  change runStart (pin i ((t, raw) :: r :: rest)) + _ ≤ t
  dsimp only at hstart
  omega

/-- Until readiness no run that began in a poll is older than the reading of the
clock shows. -/
theorem young_poll (h : Sensed s first r rest) (ho : Ordered ((t, raw) :: r :: rest))
    (hgap : rest ≠ [] → t < r.1 + 2 ^ 31) (hready : s.ready = false) (i : Channel) :
    runStart (pin i ((t, raw) :: r :: rest)) = first.1 ∨
      t - runStart (pin i ((t, raw) :: r :: rest)) ≤ (t - first.1) % 2 ^ 32 := by
  have ht : r.1 ≤ t := ho.le
  have hafter := h.after
  obtain ⟨hshort, hruns⟩ := h.young hready
  rw [runStart_pin]
  split_ifs with hl
  · by_cases hrest : rest = []
    · left
      subst hrest
      rw [(h.alone rfl).1]
      rfl
    · have hnext := hgap hrest
      rcases hruns i with hfirst | hyoung
      · exact Or.inl hfirst
      · right
        omega
  · right
    omega

theorem elapsed_start (h : Sensed s first r rest) (ht : r.1 ≤ t) :
    (reading 32 t - s.startMs).toNat = (t - first.1) % 2 ^ 32 := by
  rw [h.start, reading_sub_toNat 32 t first.1 (h.after.trans ht)]

/-- What the poll that ends start-up has not settled began its run lately. -/
theorem startUp_takes (h : Sensed s first r rest) (ho : Ordered ((t, raw) :: r :: rest))
    (hgap : rest ≠ [] → t < r.1 + 2 ^ 31) (hdark : s.ready = false)
    (hw : (s.sample raw (reading 32 t)).waiting (reading 32 t) = false) (i : Channel) :
    ((s.sample raw (reading 32 t)).settled (reading 32 t)).has i = true ∨
      t - runStart (pin i ((t, raw) :: r :: rest)) < s.cfg.debounceMs.toNat := by
  have ht : r.1 ≤ t := ho.le
  have hover : ¬(s.sample raw (reading 32 t)).waiting (reading 32 t) = true := by simp [hw]
  rw [InputSense.waiting_iff] at hover
  by_cases hs : ((s.sample raw (reading 32 t)).settled (reading 32 t)).has i = true
  · exact Or.inl hs
  · right
    have hall : (s.sample raw (reading 32 t)).settled (reading 32 t) ≠ 0xFF#8 :=
      fun hall => hs (by rw [hall]; exact InputSense.has_all i)
    have hlong : ¬(reading 32 t - s.startMs).toNat < s.cfg.debounceMs.toNat + 1000 :=
      fun hlt => hover ⟨hall, hlt⟩
    rw [h.elapsed_start ht] at hlong
    rw [h.settled_iff ho] at hs
    rcases h.young_poll ho hgap hdark i with hfirst | hyoung
    · rw [hfirst] at hs
      omega
    · omega

/-- A run on which the clock could have turned was taken up before. -/
theorem takeUp_takes (h : Sensed s first r rest) (ho : Ordered ((t, raw) :: r :: rest))
    (hgap : rest ≠ [] → t < r.1 + 2 ^ 31) (hready : s.ready = true) (i : Channel)
    (hs : ¬((s.sample raw (reading 32 t)).settled (reading 32 t)).has i = true) :
    s.stable.has i = readInput s.cfg raw i ∨
      t - runStart (pin i ((t, raw) :: r :: rest)) < s.cfg.debounceMs.toNat := by
  have ht : r.1 ≤ t := ho.le
  have hrest : rest ≠ [] := fun hrest => by simp [(h.alone hrest).2] at hready
  have hnext := hgap hrest
  rw [h.settled_iff ho, runStart_pin] at hs
  rw [runStart_pin]
  by_cases hl : raw.has i = r.2.has i
  · rw [if_pos hl] at hs ⊢
    rcases h.taken hready i with hstable | hyoung
    · left
      rw [hstable, h.candidate]
      exact (readInput_eq_iff s.cfg r.2 raw i).mpr hl.symm
    · right
      omega
  · rw [if_neg hl] at hs ⊢
    right
    omega

/-- Once ready, what a poll has not taken up began its run within the debounce
time. -/
theorem poll_takes (h : Sensed s first r rest) (ho : Ordered ((t, raw) :: r :: rest))
    (hgap : rest ≠ [] → t < r.1 + 2 ^ 31) (hready : (s.step (.poll raw t)).ready = true)
    (i : Channel) : (s.step (.poll raw t)).stable.has i = readInput s.cfg raw i ∨
      t - runStart (pin i ((t, raw) :: r :: rest)) < s.cfg.debounceMs.toNat := by
  change (s.inputSensePoll raw (reading 32 t)).1.ready = true at hready
  change (s.inputSensePoll raw (reading 32 t)).1.stable.has i = _ ∨ _
  rcases s.poll_cases raw (reading 32 t) with ⟨hdark, -, hpoll⟩ | ⟨hdark, hw, hpoll⟩ | ⟨hon, hpoll⟩
  · rw [hpoll] at hready
    exact absurd (hdark.symm.trans hready) Bool.false_ne_true
  · rw [hpoll]
    refine (h.startUp_takes ho hgap hdark hw i).imp_left (fun hs => ?_)
    change ((s.sample raw (reading 32 t)).settledValue (reading 32 t)).has i = _
    rw [InputSense.has_settledValue, hs, Bool.true_and]
    rfl
  · rw [hpoll, InputSense.takeUp_stable]
    by_cases hs : ((s.sample raw (reading 32 t)).settled (reading 32 t)).has i = true
    · rw [if_pos hs]
      exact Or.inl rfl
    · rw [if_neg hs]
      exact h.takeUp_takes ho hgap hon i hs

theorem poll (h : Sensed s first r rest) (ho : Ordered ((t, raw) :: r :: rest))
    (hgap : rest ≠ [] → t < r.1 + 2 ^ 31) :
    Sensed (s.step (.poll raw t)) first (t, raw) (r :: rest) := by
  have ht : r.1 ≤ t := ho.le
  obtain ⟨hcfg, hcandidate, hsince, hstart⟩ := s.poll_frame raw (reading 32 t)
  refine
    { toShows := h.toShows.step (.poll raw t)
      candidate := hcandidate.trans (congrArg (readInput · raw) hcfg.symm)
      since := fun i => (congrFun hsince i).trans (h.sample_since i)
      start := hstart.trans h.start
      after := h.after.trans ht
      alone := fun hnil => absurd hnil (List.cons_ne_nil r rest)
      young := ?_
      taken := ?_ }
  · intro hready
    obtain ⟨hdark, hw, -⟩ := s.poll_of_dark raw (reading 32 t) hready
    have hshort := ((InputSense.waiting_iff _ _).mp hw).2
    have hd := s.cfg.debounceMs.isLt
    change (reading 32 t - s.startMs).toNat < s.cfg.debounceMs.toNat + 1000 at hshort
    rw [h.elapsed_start ht] at hshort
    exact ⟨by omega, h.young_poll ho hgap hdark⟩
  · intro hready i
    rcases h.poll_takes ho hgap hready i with hstable | hyoung
    · left
      rw [hstable]
      exact (congrFun hcandidate i).symm
    · right
      have hd := s.cfg.debounceMs.isLt
      dsimp only
      omega

/-- What a poll shows anew it has found settled. -/
theorem settled_of_shown (h : Sensed s first r rest) (i : Channel)
    (hnew : (s.step (.poll raw t)).published.has i ≠ s.published.has i) :
    ((s.sample raw (reading 32 t)).settled (reading 32 t)).has i = true ∧
      (s.step (.poll raw t)).published.has i = readInput s.cfg raw i := by
  change (s.inputSensePoll raw (reading 32 t)).1.published.has i ≠ _ at hnew
  change _ ∧ (s.inputSensePoll raw (reading 32 t)).1.published.has i = _
  rcases s.poll_cases raw (reading 32 t) with ⟨-, -, hpoll⟩ | ⟨hdark, -, hpoll⟩ | ⟨hon, hpoll⟩ <;>
    rw [hpoll] at hnew ⊢
  · exact absurd rfl hnew
  · change ((s.sample raw (reading 32 t)).settledValue (reading 32 t)).has i ≠ _ at hnew
    change _ ∧ ((s.sample raw (reading 32 t)).settledValue (reading 32 t)).has i = _
    rw [h.dark hdark, has_zero, InputSense.has_settledValue, ne_eq, Bool.not_eq_false,
      Bool.and_eq_true] at hnew
    rw [InputSense.has_settledValue, hnew.1, Bool.true_and]
    exact ⟨rfl, rfl⟩
  · have hshown : (s.sample raw (reading 32 t)).published = (s.sample raw (reading 32 t)).stable :=
      h.shown hon
    rw [InputSense.takeUp_published _ _ hshown, InputSense.takeUp_stable] at hnew ⊢
    split_ifs at hnew ⊢ with hs
    · exact ⟨hs, rfl⟩
    · rw [h.shown hon] at hnew
      exact absurd rfl hnew

theorem pollDebounced (h : Sensed s first r rest) (ho : Ordered ((t, raw) :: r :: rest))
    (hgap : rest ≠ [] → t < r.1 + 2 ^ 31) : PollDebounced s (r :: rest) raw t where
  sound i hnew := by
    obtain ⟨hs, hread⟩ := h.settled_of_shown i hnew
    exact ⟨hread, h.held_of_settled ho i hs⟩
  complete hready i level hheld := by
    rw [(h.poll ho hgap).shown hready]
    obtain ⟨rfl, hrun⟩ := (held_iff _ level t (t, raw.has i) (pin i (r :: rest))
      (ordered_pin i ho)).mp hheld
    change runStart (pin i ((t, raw) :: r :: rest)) + _ ≤ t at hrun
    rcases h.poll_takes ho hgap hready i with hstable | hyoung
    · exact hstable
    · omega

theorem save (h : Sensed s first r rest) (cfg : SenseCfg) :
    Sensed (s.step (.save cfg)) first r rest := by
  obtain ⟨hcfg, hsince, hstart, -, hready⟩ := s.save_frame cfg
  refine
    { toShows := h.toShows.step (.save cfg)
      candidate := ?_
      since := fun i => (congrFun hsince i).trans (h.since i)
      start := hstart.trans h.start
      after := h.after
      alone := fun hnil => ⟨(h.alone hnil).1, hready.trans (h.alone hnil).2⟩
      young := fun hdark => h.young (hready.symm.trans hdark)
      taken := ?_ }
  · funext i
    change (s.inputSenseUpdateConfig cfg).1.candidate i =
      readInput (s.inputSenseUpdateConfig cfg).1.cfg r.2 i
    rw [InputSense.save_candidate, h.candidate, hcfg, InputSense.has_flipped]
    unfold readInput
    cases energised (r.2.has i) <;> cases cfg.invert i <;> cases s.cfg.invert i <;> rfl
  · intro hon i
    replace hon := hready.symm.trans hon
    refine (h.taken hon i).imp_left (fun hstable => ?_)
    change (s.inputSenseUpdateConfig cfg).1.stable.has i =
      (s.inputSenseUpdateConfig cfg).1.candidate i
    rw [InputSense.save_stable, InputSense.save_candidate, if_pos hon, has_xor, hstable]

end Sensed

theorem polls_snoc (ops : List SenseOp) (op : SenseOp) :
    polls (ops ++ [op]) = op.reading ++ polls ops := by
  simp [polls]

theorem readings_poll (first : ℕ × Mask) (ops : List SenseOp) (raw : Mask) (t : ℕ) :
    readings first (ops ++ [.poll raw t]) = (t, raw) :: readings first ops := by
  rw [readings, polls_snoc]
  rfl

theorem readings_save (first : ℕ × Mask) (ops : List SenseOp) (cfg : SenseCfg) :
    readings first (ops ++ [.save cfg]) = readings first ops := by
  rw [readings, polls_snoc]
  rfl

theorem Paced.before {first : ℕ × Mask} {ops : List SenseOp} {op : SenseOp}
    (h : Paced first (ops ++ [op])) : Paced first ops := by
  obtain ⟨hordered, hgaps⟩ := h
  rw [polls_snoc] at hgaps
  cases op with
  | poll raw t =>
    rw [readings_poll] at hordered
    exact ⟨hordered.tail, hgaps.tail⟩
  | save cfg =>
    rw [readings_save] at hordered
    exact ⟨hordered, hgaps⟩

theorem Paced.gap {first r : ℕ × Mask} {rest : List (ℕ × Mask)} {ops : List SenseOp} {raw : Mask}
    {t : ℕ} (h : Paced first (ops ++ [.poll raw t])) (hr : readings first ops = r :: rest)
    (hrest : rest ≠ []) : t < r.1 + 2 ^ 31 := by
  have hgaps := h.gaps
  rw [polls_snoc] at hgaps
  rw [readings] at hr
  cases hpolls : polls ops with
  | nil =>
    rw [hpolls] at hr
    exact absurd (List.cons.inj hr).2.symm hrest
  | cons p ps =>
    rw [hpolls] at hr hgaps
    rw [← (List.cons.inj hr).1]
    exact (List.isChain_cons.mp hgaps).1 p rfl

theorem run_sensed (cfg : SenseCfg) (first : ℕ × Mask) (ops : List SenseOp)
    (h : Paced first ops) : ∃ r rest, readings first ops = r :: rest ∧
      Sensed (senseRun cfg first ops) first r rest := by
  induction ops using List.reverseRecOn with
  | nil => exact ⟨first, [], rfl, start_sensed cfg first⟩
  | append_singleton ops op ih =>
    obtain ⟨r, rest, hr, hs⟩ := ih h.before
    rw [senseRun, run_snoc]
    cases op with
    | poll raw t =>
      have ho := h.ordered
      rw [readings_poll, hr] at ho
      refine ⟨(t, raw), r :: rest, ?_, hs.poll ho (h.gap hr)⟩
      rw [readings_poll, hr]
    | save saved =>
      refine ⟨r, rest, ?_, hs.save saved⟩
      rw [readings_save, hr]

/-- In every run the next poll or save keeps the published inputs debounced. -/
theorem run_debounced (cfg : SenseCfg) (first : ℕ × Mask) (ops : List SenseOp) (op : SenseOp)
    (h : Paced first (ops ++ [op])) :
    Debounced (senseRun cfg first ops) (readings first ops) op := by
  obtain ⟨r, rest, hr, hs⟩ := run_sensed cfg first ops h.before
  cases op with
  | poll raw t =>
    have ho := h.ordered
    rw [readings_poll, hr] at ho
    rw [hr]
    exact hs.pollDebounced ho (h.gap hr)
  | save saved =>
    intro i
    change ((senseRun cfg first ops).inputSenseUpdateConfig saved).1.published.has i = _
    rw [InputSense.save_published _ saved hs.shown]
    cases hready : (senseRun cfg first ops).ready with
    | false => rw [if_neg Bool.false_ne_true, Bool.false_and, Bool.xor_false]
    | true => rw [if_pos rfl, has_xor, InputSense.has_flipped, Bool.true_and]

/-- Input 2 goes on at 60 ms and shows at 110 ms: its pin has been low since. -/
theorem pressed_held : Held 50 false 110
    (pin 1 (readings (0, 0xFF#8) [.poll 0xFF#8 50, .poll 0xFD#8 60, .poll 0xFD#8 110])) :=
  ((run_debounced .schemaDefault (0, 0xFF#8) [.poll 0xFF#8 50, .poll 0xFD#8 60]
    (.poll 0xFD#8 110)
    ⟨by simp [Ordered, readings, polls, SenseOp.reading],
      by simp [polls, SenseOp.reading]⟩).sound 1 (by decide +kernel)).2

end RelayBoard
