import Mathlib.Data.List.Basic

/-!
# Meters of on-periods

A meter is told when something is switched on and off, and may be set to zero.
It knows the length of every finished period and when the running one began.
Whole units of time can be counted period by period; what that leaves out of the
total is the sum of the remainders.
-/

set_option autoImplicit false

namespace Lib.Metering

inductive Event where
  | report (on : Bool) (t : ℕ)
  | zero (t : ℕ)
  deriving DecidableEq

/-- The first report only tells the meter where things stand. `cycles` counts
the changes to on. -/
structure Meter where
  known : Bool
  running : Option ℕ
  finished : List ℕ
  cycles : ℕ
  deriving DecidableEq

def sumOf (f : ℕ → ℕ) (ds : List ℕ) : ℕ := ds.foldr (fun d n => f d + n) 0

namespace Meter

def fresh : Meter := ⟨false, none, [], 0⟩

def step (m : Meter) : Event → Meter
  | .report on t =>
    if m.known then
      match m.running, on with
      | none, true => { m with running := some t, cycles := m.cycles + 1 }
      | some since, false => { m with running := none, finished := (t - since) :: m.finished }
      | _, _ => m
    else { m with known := true, running := if on then some t else none }
  | .zero t => { m with running := m.running.map fun _ => t, finished := [], cycles := 0 }

def periods (m : Meter) (t : ℕ) : List ℕ :=
  (m.running.map fun since => t - since).toList ++ m.finished

def total (m : Meter) (t : ℕ) : ℕ := sumOf id (m.periods t)

def whole (unit : ℕ) (m : Meter) (t : ℕ) : ℕ := sumOf (fun d => d / unit) (m.periods t)

def dropped (unit : ℕ) (m : Meter) (t : ℕ) : ℕ := sumOf (fun d => d % unit) (m.periods t)

end Meter

@[simp] theorem sumOf_nil (f : ℕ → ℕ) : sumOf f [] = 0 := rfl

@[simp] theorem sumOf_cons (f : ℕ → ℕ) (d : ℕ) (ds : List ℕ) :
    sumOf f (d :: ds) = f d + sumOf f ds := rfl

theorem sumOf_div_mod (unit : ℕ) (ds : List ℕ) :
    unit * sumOf (fun d => d / unit) ds + sumOf (fun d => d % unit) ds = sumOf id ds := by
  induction ds with
  | nil => simp
  | cons d ds ih =>
    have hd := Nat.div_add_mod d unit
    simp only [sumOf_cons, id_eq, Nat.mul_add] at ih ⊢
    omega

namespace Meter

variable (m : Meter)

theorem whole_dropped (unit t : ℕ) : unit * m.whole unit t + m.dropped unit t = m.total t :=
  sumOf_div_mod unit (m.periods t)

theorem periods_idle (t : ℕ) (h : m.running = none) : m.periods t = m.finished := by
  rw [periods, h]
  rfl

theorem periods_running (t since : ℕ) (h : m.running = some since) :
    m.periods t = (t - since) :: m.finished := by
  rw [periods, h]
  rfl

theorem step_repeated (on : Bool) (t : ℕ) (hknown : m.known = true)
    (hsame : m.running.isSome = on) :
    m.step (.report on t) = m := by
  subst hsame
  cases hrunning : m.running <;> simp [step, hknown, hrunning]

theorem step_first (on : Bool) (t : ℕ) (hknown : m.known = false) :
    m.step (.report on t) = { m with known := true, running := if on then some t else none } := by
  simp [step, hknown]

theorem step_on (t : ℕ) (hknown : m.known = true) (h : m.running = none) :
    m.step (.report true t) = { m with running := some t, cycles := m.cycles + 1 } := by
  simp [step, hknown, h]

theorem step_off (t since : ℕ) (hknown : m.known = true) (h : m.running = some since) :
    m.step (.report false t) =
      { m with running := none, finished := (t - since) :: m.finished } := by
  simp [step, hknown, h]

end Meter

end Lib.Metering
