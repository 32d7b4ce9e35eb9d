import RelayBoard.ScheduleEdges

/-!
# Calls that fail

`set_relay` answers each call, and `schedule_eval_tick` does not look at the
answer: it remembers what it has asked for. An entry whose latest call failed
is asked for again by the next tick only if the tick before that one had
forgotten it.
-/

set_option autoImplicit false

namespace RelayBoard
open Lib.Runs Lib.Journal

variable {δ : Type} (sunTimes : ℤ → ℕ → ℕ → δ → δ → SunTimes)

/-- A tick, and what `set_relay` returns if the tick calls it for an entry. -/
structure AnsweredTick (δ : Type) where
  tick : ScheduleTick δ
  answer : ScheduleEntry → EspResult Unit

/-- The call of `set_relay` made for the entry, with its answer. -/
def answerOf (i : ScheduleEntry) (w : ScheduleOut × (ScheduleEntry → EspResult Unit)) :
    Option ((ℕ × Bool) × EspResult Unit) :=
  (callOf i w.1).map fun call => (call, w.2 i)

namespace ScheduleEval

def answeredStep (s : ScheduleEval) (a : AnsweredTick δ) : ScheduleEval := s.step sunTimes a.tick

def answeredOuts (s : ScheduleEval) (a : AnsweredTick δ) :
    List (ScheduleOut × (ScheduleEntry → EspResult Unit)) :=
  (s.outs sunTimes a.tick).map fun out => (out, a.answer)

/-- The latest call for the entry in the run, with its answer. -/
def latestCall (i : ScheduleEntry) (ts : List (AnsweredTick δ)) :
    Option ((ℕ × Bool) × EspResult Unit) :=
  newest (answerOf i) (journal (answeredOuts sunTimes)
    (history (answeredStep sunTimes) scheduleEvalInit ts))

/-- The entry's latest call failed, and in tick `t` the entry is enabled and
again as it was called. -/
structure Owed (i : ScheduleEntry) (ts : List (AnsweredTick δ)) (t : ScheduleTick δ) : Prop where
  failed : ∃ err, latestCall sunTimes i ts =
    some (((t.schedules i).relay, t.active sunTimes i), .error err)
  valid : t.timeValid = true
  enabled : t.enabled i = true

/-- The tick after the run calls `set_relay` for the entry as it is then. -/
def CalledAgain (i : ScheduleEntry) (ts : List (AnsweredTick δ)) (t : ScheduleTick δ) : Prop :=
  ScheduleOut.setRelay i (t.schedules i).relay (t.active sunTimes i) ∈
    (run (answeredStep sunTimes) scheduleEvalInit ts).outs sunTimes t

section Answers

variable {sunTimes} {i : ScheduleEntry}

theorem newest_answered (i : ScheduleEntry) (outs : List ScheduleOut)
    (answer : ScheduleEntry → EspResult Unit) :
    newest (callOf i) outs =
      (newest (answerOf i) (outs.map fun out => (out, answer))).map Prod.fst := by
  induction outs with
  | nil => rfl
  | cons out outs ih =>
    rw [List.map_cons, newest_cons, newest_cons, ih, Option.map_or]
    congr 1
    unfold answerOf
    cases callOf i out with
    | none => rfl
    | some call => rfl

theorem run_answered (ts : List (AnsweredTick δ)) :
    run (answeredStep sunTimes) scheduleEvalInit ts =
      run (step sunTimes) scheduleEvalInit (ts.map AnsweredTick.tick) := by
  rw [run, run, List.foldl_map]
  rfl

theorem latestCall_eq (i : ScheduleEntry) (ts : List (AnsweredTick δ)) :
    newest (callOf i) (journal (outs sunTimes)
        (history (step sunTimes) scheduleEvalInit (ts.map AnsweredTick.tick))) =
      (latestCall sunTimes i ts).map Prod.fst := by
  unfold latestCall
  induction ts using List.reverseRecOn with
  | nil => rfl
  | append_singleton ts a ih =>
    rw [List.map_append, List.map_singleton, history_snoc, history_snoc, journal_cons,
      journal_cons, newest_append, newest_append, ih, Option.map_or, run_answered]
    congr 1
    exact newest_answered i _ a.answer

theorem mem_outs_iff {s : ScheduleEval} {t : ScheduleTick δ} (hvalid : t.timeValid = true) :
    ScheduleOut.setRelay i (t.schedules i).relay (t.active sunTimes i) ∈ s.outs sunTimes t ↔
      s.calls sunTimes t i = true := by
  have hcalls : (s.outs sunTimes t).filterMap (callOf i) = _ := outs_calls i s t
  constructor
  · intro h
    have hmem := List.mem_filterMap.mpr
      ⟨_, h, show callOf i _ = some ((t.schedules i).relay, t.active sunTimes i) from if_pos rfl⟩
    rw [hcalls] at hmem
    split at hmem
    · rename_i hc
      exact hc.2
    · cases hmem
  · intro h
    rw [if_pos ⟨hvalid, h⟩] at hcalls
    have hmem := List.mem_singleton_self ((t.schedules i).relay, t.active sunTimes i)
    rw [← hcalls, List.mem_filterMap] at hmem
    obtain ⟨out, hout, hcall⟩ := hmem
    cases out with
    | health h => cases hcall
    | setRelay j relay on =>
      rw [callOf] at hcall
      split at hcall
      · rename_i hj
        subst hj
        cases hcall
        exact hout
      · cases hcall

end Answers

/-- After every run of ticks with any answers: what failed for an entry is asked
for again by the next valid tick just when the tick before it had no valid time
or had the entry disabled. -/
theorem failed_call_repeated_iff (i : ScheduleEntry) (ts : List (AnsweredTick δ))
    (prev : AnsweredTick δ) (t : ScheduleTick δ) (howed : Owed sunTimes i (ts ++ [prev]) t) :
    CalledAgain sunTimes i (ts ++ [prev]) t ↔
      prev.tick.timeValid = false ∨ prev.tick.enabled i = false := by
  have hremembers := run_remembers sunTimes i ((ts ++ [prev]).map AnsweredTick.tick)
  have hlatest := @latestCall_eq δ sunTimes i (ts ++ [prev])
  obtain ⟨err, hfailed⟩ := howed.failed
  rw [hfailed] at hlatest
  rw [CalledAgain, mem_outs_iff howed.valid, run_answered]
  have hpast : ((ts ++ [prev]).map AnsweredTick.tick).reverse =
      prev.tick :: (ts.map AnsweredTick.tick).reverse := by
    simp
  rw [hpast] at hremembers
  have heval := evaluations_cons i (ts.map AnsweredTick.tick).reverse prev.tick
  by_cases hprev : (prev.tick.timeValid && prev.tick.enabled i) = true
  · -- the entry is remembered as it was called, so nothing is called now
    rw [if_pos hprev] at heval
    have hentry := hremembers.known _ _ heval
    have hcalled := hremembers.called (by rw [hentry])
    rw [hlatest, hentry] at hcalled
    obtain ⟨hrelay, hactive⟩ := Prod.mk.inj (Option.some.inj hcalled)
    have hquiet : calls sunTimes t
        (run (step sunTimes) scheduleEvalInit ((ts ++ [prev]).map AnsweredTick.tick)) i =
          false := by
      rw [calls, hentry]
      simp only [Bool.not_true, hrelay, hactive, bne_self_eq_false, Bool.or_self,
        Bool.and_false]
    rw [hquiet]
    rw [Bool.and_eq_true] at hprev
    simp [hprev.1, hprev.2]
  · -- it was forgotten, so the next evaluation is a first one
    rw [if_neg hprev] at heval
    have hdue := (calls_iff hremembers howed.enabled).mpr (.inl heval)
    rw [Bool.and_eq_true, not_and_or, Bool.not_eq_true, Bool.not_eq_true] at hprev
    exact iff_of_true hdue hprev

/-- A tick at 23:00 that Friday with `fridayNight` as schedule 1. -/
def fridayTick (valid : Bool) : ScheduleTick Unit where
  schedules i := if i.val = 0 then fridayNight else { fridayNight with relay := 0 }
  timeValid := valid
  now := ⟨2026, 10, 2, 5, 23, 0, 0⟩
  lat := ()
  lon := ()

def noSun : ℤ → ℕ → ℕ → Unit → Unit → SunTimes := fun _ _ _ _ _ => ⟨.transition, 0, 0⟩

def refused (valid : Bool) : AnsweredTick Unit := ⟨fridayTick valid, fun _ => .error .fail⟩

/-- The clock is lost for a tick after the call failed, and it is made again. -/
theorem fridayTick_after_clock_lost :
    CalledAgain noSun 0 ([refused true] ++ [refused false]) (fridayTick true) ↔
      (refused false).tick.timeValid = false ∨ (refused false).tick.enabled 0 = false :=
  failed_call_repeated_iff noSun 0 [refused true] (refused false) (fridayTick true)
    ⟨⟨.fail, by decide +kernel⟩, rfl, by decide +kernel⟩

/-- The first call after boot fails, and the next tick does not repeat it. -/
theorem fridayTick_lost :
    Owed noSun 0 [refused true] (fridayTick true) ∧
      ¬CalledAgain noSun 0 [refused true] (fridayTick true) := by
  refine ⟨⟨⟨.fail, by decide +kernel⟩, rfl, by decide +kernel⟩, ?_⟩
  unfold CalledAgain
  decide +kernel

end ScheduleEval

end RelayBoard
