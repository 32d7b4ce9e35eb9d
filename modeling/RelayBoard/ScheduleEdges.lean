import RelayBoard.Lib.Journal
import RelayBoard.ScheduleEval

/-!
# Schedules act on edges

What is remembered of an entry is what it was at the tick before, as long as
that tick evaluated it. So a tick calls `set_relay` for an enabled entry just
when it had no such tick before it or the entry has changed since.
-/

set_option autoImplicit false

namespace RelayBoard
open Lib.Runs Lib.Journal

variable {δ : Type} (sunTimes : ℤ → ℕ → ℕ → δ → δ → SunTimes)

/-- What a call of `set_relay` for the entry carries. -/
def callOf (i : ScheduleEntry) : ScheduleOut → Option (ℕ × Bool)
  | .setRelay j relay on => if j = i then some (relay, on) else none
  | .health _ => none

/-- The ticks that have evaluated the entry since init, since time was last
invalid and since it was last disabled; the newest tick comes first. -/
def evaluations (i : ScheduleEntry) (past : List (ScheduleTick δ)) : List (ScheduleTick δ) :=
  past.takeWhile fun t => t.timeValid && t.enabled i

/-- It is the entry's first evaluation, or the entry is not as in the tick
before. -/
def CallDue (i : ScheduleEntry) (past : List (ScheduleTick δ)) (t : ScheduleTick δ) : Prop :=
  evaluations i past = [] ∨ ∃ prev ∈ past.head?,
    t.active sunTimes i ≠ prev.active sunTimes i ∨
      (t.schedules i).relay ≠ (prev.schedules i).relay

namespace ScheduleEval

structure Remembers (i : ScheduleEntry) (past : List (ScheduleTick δ)) (s : ScheduleEval)
    (made : List ScheduleOut) : Prop where
  fresh : evaluations i past = [] → (s.entries i).valid = false
  known : ∀ prev rest, evaluations i past = prev :: rest →
    s.entries i = ⟨true, prev.active sunTimes i, (prev.schedules i).relay⟩
  called : (s.entries i).valid = true →
    newest (callOf i) made = some ((s.entries i).relay, (s.entries i).active)

section Tick

variable {sunTimes} {i : ScheduleEntry} {past : List (ScheduleTick δ)} {s : ScheduleEval}
  {made : List ScheduleOut} {t : ScheduleTick δ}

theorem evaluations_cons (i : ScheduleEntry) (past : List (ScheduleTick δ)) (t : ScheduleTick δ) :
    evaluations i (t :: past) =
        if (t.timeValid && t.enabled i) = true then t :: evaluations i past else [] :=
  List.takeWhile_cons

theorem head_of_evaluations {prev : ScheduleTick δ} {rest : List (ScheduleTick δ)}
    (h : evaluations i past = prev :: rest) : past.head? = some prev := by
  cases past with
  | nil => cases h
  | cons t past =>
    rw [evaluations_cons] at h
    split at h
    · cases h
      rfl
    · cases h

/-- A tick calls `set_relay` for an enabled entry when that is due. -/
theorem calls_iff (h : Remembers sunTimes i past s made) (henabled : t.enabled i = true) :
    s.calls sunTimes t i = true ↔ CallDue sunTimes i past t := by
  unfold calls CallDue
  rw [henabled, Bool.true_and]
  cases hpast : evaluations i past with
  | nil => simp [h.fresh hpast]
  | cons prev rest =>
    rw [h.known prev rest hpast, head_of_evaluations hpast]
    simp

theorem outs_calls (i : ScheduleEntry) (s : ScheduleEval) (t : ScheduleTick δ) :
    (s.outs sunTimes t).filterMap (callOf i) =
      if t.timeValid = true ∧ s.calls sunTimes t i = true then
        [((t.schedules i).relay, t.active sunTimes i)]
      else [] := by
  unfold outs scheduleEvalTick
  cases t.timeValid with
  | false => rfl
  | true =>
    have hhealth : (if !s.wasTimeValid then [ScheduleOut.health .normal] else []).filterMap
        (callOf i) = [] := by
      cases s.wasTimeValid <;> rfl
    simp only [Bool.not_true, Bool.false_eq_true, ite_false, List.filterMap_append, hhealth,
      List.nil_append, true_and]
    rw [filterMap_flatMap_own _ _ _ i (List.mem_finRange i) (List.nodup_finRange 8)]
    · cases s.calls sunTimes t i <;> simp [callOf]
    · intro j _ hj
      cases s.calls sunTimes t j <;> simp [callOf, hj]

theorem step_entry (i : ScheduleEntry) (s : ScheduleEval) (t : ScheduleTick δ) :
    (s.step sunTimes t).entries i =
      if t.timeValid = true then s.nextEntry sunTimes t i
      else { s.entries i with valid := false } := by
  unfold step scheduleEvalTick
  cases t.timeValid <;> rfl

/-- An entry that is not called is already as it has to be. -/
theorem entry_uncalled (henabled : t.enabled i = true) (h : s.calls sunTimes t i = false) :
    s.entries i = ⟨true, t.active sunTimes i, (t.schedules i).relay⟩ := by
  unfold calls at h
  simp only [henabled, Bool.true_and, Bool.or_eq_false_iff, Bool.not_eq_false', bne_eq_false_iff_eq]
    at h
  obtain ⟨⟨hvalid, hactive⟩, hrelay⟩ := h
  rw [← hvalid, hactive, hrelay]

theorem entry_evaluated (sunTimes : ℤ → ℕ → ℕ → δ → δ → SunTimes) (s : ScheduleEval)
    (hvalid : t.timeValid = true) (henabled : t.enabled i = true) :
    (s.step sunTimes t).entries i = ⟨true, t.active sunTimes i, (t.schedules i).relay⟩ := by
  rw [step_entry, if_pos hvalid, nextEntry, henabled]
  cases hcalls : s.calls sunTimes t i with
  | true => rfl
  | false => exact entry_uncalled henabled hcalls

theorem entry_forgotten (sunTimes : ℤ → ℕ → ℕ → δ → δ → SunTimes) (s : ScheduleEval)
    (h : ¬(t.timeValid && t.enabled i) = true) :
    ((s.step sunTimes t).entries i).valid = false := by
  rw [step_entry]
  split
  · rename_i hvalid
    have hdisabled : t.enabled i = false := by simpa [hvalid] using h
    rw [nextEntry, hdisabled]
    rfl
  · rfl

theorem remembers_step (h : Remembers sunTimes i past s made) (t : ScheduleTick δ) :
    Remembers sunTimes i (t :: past) (s.step sunTimes t) (made ++ s.outs sunTimes t) := by
  by_cases heval : (t.timeValid && t.enabled i) = true
  · have hnow := evaluations_cons i past t
    rw [if_pos heval] at hnow
    obtain ⟨hvalid, henabled⟩ := (Bool.and_eq_true _ _).mp heval
    have hentry : (s.step sunTimes t).entries i = _ := entry_evaluated sunTimes s hvalid henabled
    refine ⟨fun hnil => ?_, fun prev rest hprev => ?_, fun _ => ?_⟩
    · rw [hnow] at hnil
      cases hnil
    · rw [hnow] at hprev
      cases hprev
      exact hentry
    · rw [hentry, newest_append, newest_eq_getLast (callOf i) (s.outs sunTimes t), outs_calls]
      cases hcalls : s.calls sunTimes t i with
      | true => simp [hvalid]
      | false =>
        -- no call now: the one before it was for the same relay and state
        have hsame := entry_uncalled henabled hcalls
        have hmade := h.called (by rw [hsame])
        rw [hsame] at hmade
        simpa using hmade
  · have hnow := evaluations_cons i past t
    rw [if_neg heval] at hnow
    have hforgot := entry_forgotten sunTimes s heval
    refine ⟨fun _ => hforgot, fun prev rest hprev => ?_, fun hvalid => ?_⟩
    · rw [hnow] at hprev
      cases hprev
    · rw [hforgot] at hvalid
      cases hvalid

end Tick

theorem run_remembers (i : ScheduleEntry) (ts : List (ScheduleTick δ)) :
    Remembers sunTimes i ts.reverse (run (step sunTimes) scheduleEvalInit ts)
      (journal (outs sunTimes) (history (step sunTimes) scheduleEvalInit ts)) := by
  induction ts using List.reverseRecOn with
  | nil => exact ⟨fun _ => rfl, nofun, nofun⟩
  | append_singleton ts t ih =>
    rw [run_snoc, history_snoc, journal_cons, List.reverse_append]
    exact remembers_step ih t

/-- In every run: a tick with valid time calls `set_relay` for an enabled entry,
once and as the entry is now, when that is due, and for no other entry; with
invalid time it calls nothing; and after a valid tick the latest call for an
enabled entry is as the entry is now. -/
theorem run_schedules_on_edges (ts : List (ScheduleTick δ)) (t : ScheduleTick δ)
    (i : ScheduleEntry) :
    let s := run (step sunTimes) scheduleEvalInit ts
    let calls := (s.outs sunTimes t).filterMap (callOf i)
    (t.timeValid = false → calls = []) ∧
    (t.timeValid = true → t.enabled i = false → calls = []) ∧
    (t.timeValid = true → t.enabled i = true →
      (CallDue sunTimes i ts.reverse t →
        calls = [((t.schedules i).relay, t.active sunTimes i)]) ∧
      (¬CallDue sunTimes i ts.reverse t → calls = []) ∧
      newest (callOf i) (journal (outs sunTimes)
          (history (step sunTimes) scheduleEvalInit (ts ++ [t]))) =
        some ((t.schedules i).relay, t.active sunTimes i)) := by
  intro s calls
  have hcalls : calls = _ := outs_calls i s t
  refine ⟨fun hinvalid => ?_, fun _ hdisabled => ?_, fun hvalid henabled => ⟨fun hdue => ?_,
    fun hno => ?_, ?_⟩⟩
  · rw [hcalls, hinvalid]
    rfl
  · have hnone : s.calls sunTimes t i = false := by
      rw [ScheduleEval.calls, hdisabled]
      rfl
    rw [hcalls, hnone]
    simp
  · rw [hcalls, if_pos ⟨hvalid, (calls_iff (run_remembers sunTimes i ts) henabled).mpr hdue⟩]
  · rw [hcalls, if_neg]
    exact fun hyes => hno ((calls_iff (run_remembers sunTimes i ts) henabled).mp hyes.2)
  · have hnext := run_remembers sunTimes i (ts ++ [t])
    have hentry := entry_evaluated sunTimes s hvalid henabled
    rw [run_snoc] at hnext
    have hcalled := hnext.called (by rw [hentry])
    rw [hentry] at hcalled
    exact hcalled

end ScheduleEval

end RelayBoard
