import Mathlib.Logic.Function.Basic

/-!
# A flag hand-off

Any number of writers change a value and afterwards set a flag. One reader
clears the flag by an exchange; if it was set, or for a reason of its own, the
reader then reads the value and shows what it read. Between a change and the
flag the writer owes an announcement. Whatever the order of these steps, the
value shown is right, or the flag is set, or someone owes an announcement, or
the reader is on its way with the right value.
-/

set_option autoImplicit false

namespace Lib.Handoff

inductive Reader (α : Type*) where
  | idle
  | due
  | holding (v : α)

structure State (τ α : Type*) where
  value : α
  flag : Bool
  owing : τ → Bool
  reader : Reader α
  shown : α

variable {τ α : Type*}

namespace State

def change [DecidableEq τ] (t : τ) (v : α) (s : State τ α) : State τ α :=
  { s with value := v, owing := Function.update s.owing t true }

def announce [DecidableEq τ] (t : τ) (s : State τ α) : State τ α :=
  { s with flag := true, owing := Function.update s.owing t false }

def exchange (anyway : Bool) (s : State τ α) : State τ α :=
  { s with flag := false, reader := if s.flag || anyway then .due else .idle }

def read (s : State τ α) : State τ α := { s with reader := .holding s.value }

def display (v : α) (s : State τ α) : State τ α := { s with shown := v, reader := .idle }

/-- The reader's way leads to the present value. -/
def OnTheWay (s : State τ α) : Prop :=
  match s.reader with
  | .idle => s.shown = s.value
  | .due => True
  | .holding v => v = s.value

def UpToDate (s : State τ α) : Prop :=
  s.flag = true ∨ (∃ t, s.owing t = true) ∨ s.OnTheWay

variable {s : State τ α}

theorem UpToDate.change [DecidableEq τ] (t : τ) (v : α) : (s.change t v).UpToDate :=
  .inr (.inl ⟨t, Function.update_self ..⟩)

theorem UpToDate.announce [DecidableEq τ] (t : τ) : (s.announce t).UpToDate := .inl rfl

theorem UpToDate.exchange (h : s.UpToDate) (hidle : s.reader = .idle) (anyway : Bool) :
    (s.exchange anyway).UpToDate := by
  rcases hdue : s.flag || anyway with _ | _
  · have hflag := (Bool.or_eq_false_iff.mp hdue).1
    rcases h with h | h | h
    · rw [hflag] at h
      cases h
    · exact .inr (.inl h)
    · refine .inr (.inr ?_)
      simp only [OnTheWay, hidle] at h
      simpa [OnTheWay, State.exchange, hdue] using h
  · exact .inr (.inr (by simp [OnTheWay, State.exchange, hdue]))

theorem UpToDate.read : s.read.UpToDate := .inr (.inr rfl)

theorem UpToDate.display (h : s.UpToDate) {v : α} (hv : s.reader = .holding v) :
    (s.display v).UpToDate := by
  refine h.imp_right (Or.imp_right fun hway => ?_)
  simp only [OnTheWay, hv] at hway
  exact hway

/-- Nothing is shown where that would change nothing. -/
theorem UpToDate.skip (h : s.shown = s.value) : ({ s with reader := .idle } : State τ α).UpToDate :=
  .inr (.inr h)

theorem UpToDate.settled (h : s.UpToDate) (hflag : s.flag = false)
    (howing : ∀ t, s.owing t = false) (hidle : s.reader = .idle) : s.shown = s.value := by
  rcases h with h | ⟨t, h⟩ | h
  · rw [hflag] at h
    cases h
  · rw [howing t] at h
    cases h
  · simpa only [OnTheWay, hidle] using h

end State

end Lib.Handoff
