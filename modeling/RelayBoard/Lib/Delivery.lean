import Mathlib.Data.List.Basic
import RelayBoard.Lib.Runs

/-!
# A copy kept by messages

A core changes by atomic calls. Each call leaves messages behind, which the
calling task hands over to a receiver one by one afterwards, while other tasks
call and hand over in between. The receiver keeps a copy of what the core
shows. A message carries the value it saw, so the copy is right in the end if
no message overtakes an older one about the same thing.
-/

set_option autoImplicit false

namespace Lib.Delivery
open Lib.Runs

variable {σ ι ν χ μ τ κ α : Type*} [DecidableEq κ]

/-- The core's calls, and how the receiver takes a message; `χ` is what it adds
of its own, such as the time of arrival. -/
structure System (σ ι ν χ μ : Type*) where
  change : σ → ι → σ × List μ
  take : ν → χ → μ → ν

/-- The messages under way stand in the order in which they were left, each
with the task that is to deliver it. -/
structure State (σ ν τ μ : Type*) where
  core : σ
  copy : ν
  queue : List (τ × μ)

inductive Event (ι χ τ : Type*) where
  | call (t : τ) (i : ι)
  | deliver (t : τ) (x : χ)

/-- A task makes a call only when it has delivered all messages of its last. -/
def Idle (s : State σ ν τ μ) : Event ι χ τ → Prop
  | .call t _ => ∀ e ∈ s.queue, e.1 ≠ t
  | .deliver _ _ => True

/-- The value of `k` once the messages are taken, if it is `a` before. -/
def latest (key : μ → κ) (value : μ → α) (k : κ) (ms : List μ) (a : α) : α :=
  ms.foldl (fun a m => if k = key m then value m else a) a

/-- Each message sets its own key in the copy, and the messages of a call tell
all that it changes. -/
structure Mirrors (sys : System σ ι ν χ μ) (view : σ → κ → α) (shows : ν → κ → α)
    (key : μ → κ) (value : μ → α) : Prop where
  take : ∀ v x m k, shows (sys.take v x m) k = if k = key m then value m else shows v k
  change : ∀ s i k, view (sys.change s i).1 k = latest key value k (sys.change s i).2 (view s k)

/-- Delivered in the order in which they were left, the messages under way
would bring the copy up to date. -/
def Settling (view : σ → κ → α) (shows : ν → κ → α) (key : μ → κ) (value : μ → α)
    (s : State σ ν τ μ) : Prop :=
  ∀ k, latest key value k (s.queue.map Prod.snd) (shows s.copy k) = view s.core k

theorem settled {view : σ → κ → α} {shows : ν → κ → α} {key : μ → κ} {value : μ → α}
    {s : State σ ν τ μ} (hs : Settling view shows key value s) (hq : s.queue = []) (k : κ) :
    shows s.copy k = view s.core k := by
  have hk := hs k
  rw [hq] at hk
  exact hk

section Latest

variable (key : μ → κ) (value : μ → α)

theorem latest_append (k : κ) (xs ys : List μ) (a : α) :
    latest key value k (xs ++ ys) a = latest key value k ys (latest key value k xs a) :=
  List.foldl_append

theorem latest_of_other (k : κ) (ms : List μ) (h : ∀ m ∈ ms, key m ≠ k) (a : α) :
    latest key value k ms a = a := by
  induction ms generalizing a with
  | nil => rfl
  | cons m ms ih =>
    rw [latest, List.foldl_cons, if_neg (fun hk => h m (by simp) hk.symm)]
    exact ih (fun m hm => h m (by simp [hm])) a

/-- A message about `key m` may be taken before all messages about others. -/
theorem latest_early (k : κ) (xs ys : List μ) (m : μ) (h : ∀ x ∈ xs, key x ≠ key m) (a : α) :
    latest key value k (xs ++ ys) (if k = key m then value m else a) =
      latest key value k (xs ++ m :: ys) a := by
  rw [latest_append, latest_append]
  by_cases hk : k = key m
  · subst hk
    rw [latest_of_other key value _ xs h, latest_of_other key value _ xs h]
    rfl
  · rw [if_neg hk]
    change _ = latest key value k ys (if k = key m then value m else _)
    rw [if_neg hk]

end Latest

variable [DecidableEq τ]

def System.step (sys : System σ ι ν χ μ) (s : State σ ν τ μ) : Event ι χ τ → State σ ν τ μ
  | .call t i =>
    { s with
      core := (sys.change s.core i).1
      queue := s.queue ++ (sys.change s.core i).2.map (Prod.mk t) }
  | .deliver t x =>
    match s.queue.find? (fun e => e.1 = t) with
    | none => s
    | some e =>
      { s with
        copy := sys.take s.copy x e.2
        queue := s.queue.eraseP (fun e => e.1 = t) }

/-- The messages that were left before the one the task delivers next. -/
def overtaken (t : τ) (queue : List (τ × μ)) : List (τ × μ) := queue.takeWhile (fun e => e.1 ≠ t)

/-- The message delivered next overtakes none about the same thing. -/
def InOrder (key : μ → κ) (s : State σ ν τ μ) : Event ι χ τ → Prop
  | .call _ _ => True
  | .deliver t _ => ∀ m, s.queue.find? (fun e => e.1 = t) = some m →
      ∀ e ∈ overtaken t s.queue, key e.2 ≠ key m.2

theorem queue_split {t : τ} {queue : List (τ × μ)} {m : τ × μ}
    (h : queue.find? (fun e => e.1 = t) = some m) : ∃ post, queue = overtaken t queue ++ m :: post ∧
      queue.eraseP (fun e => e.1 = t) = overtaken t queue ++ post := by
  obtain ⟨hm, pre, post, rfl, hpre⟩ := List.find?_eq_some_iff_append.mp h
  have hpast : overtaken t (pre ++ m :: post) = pre := by
    rw [overtaken, List.takeWhile_append_of_pos (fun e he => by simpa using hpre e he),
      List.takeWhile_cons_of_neg (by simpa using hm), List.append_nil]
  refine ⟨post, by rw [hpast], ?_⟩
  rw [hpast, List.eraseP_append_right _ (fun e he => by simpa using hpre e he),
    List.eraseP_cons_of_pos (by simpa using hm)]

variable {sys : System σ ι ν χ μ} {view : σ → κ → α} {shows : ν → κ → α} {key : μ → κ}
  {value : μ → α}

theorem step_settling (h : Mirrors sys view shows key value) (s : State σ ν τ μ)
    (e : Event ι χ τ) (hs : Settling view shows key value s) (he : InOrder key s e) :
    Settling view shows key value (sys.step s e) := by
  intro k
  cases e with
  | call t i =>
    have hmsgs : ((sys.change s.core i).2.map (Prod.mk t)).map Prod.snd =
        (sys.change s.core i).2 := by
      rw [List.map_map]
      exact List.map_id _
    change latest key value k ((s.queue ++ _).map Prod.snd) (shows s.copy k) =
      view (sys.change s.core i).1 k
    -- The messages of a call go to the end of the queue and have the last word.
    rw [List.map_append, latest_append, hs k, hmsgs, h.change]
  | deliver t x =>
    unfold System.step
    dsimp only
    split
    · exact hs k
    · rename_i m hm
      obtain ⟨post, hqueue, herase⟩ := queue_split hm
      have hfirst : ∀ a ∈ (overtaken t s.queue).map Prod.snd, key a ≠ key m.2 := by
        intro a ha
        obtain ⟨e, hmem, rfl⟩ := List.mem_map.mp ha
        exact he m hm e hmem
      -- With nothing of its key before it, taking it early decides nothing new.
      have hk := hs k
      rw [hqueue, List.map_append, List.map_cons] at hk
      dsimp only
      rw [herase, List.map_append, h.take, latest_early key value k _ _ m.2 hfirst]
      exact hk

/-- Without overtaking the copy is always on its way to what the core shows. -/
theorem run_settling (h : Mirrors sys view shows key value) (s : State σ ν τ μ)
    (hs : Settling view shows key value s) (es : List (Event ι χ τ))
    (hes : ∀ e ∈ history sys.step s es, InOrder key e.1 e.2) :
    Settling view shows key value (run sys.step s es) :=
  run_invariant sys.step s hs (fun t e ht he => step_settling h t e ht he) es hes

end Lib.Delivery
