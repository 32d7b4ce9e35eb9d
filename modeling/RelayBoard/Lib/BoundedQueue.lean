import Mathlib.Data.List.Sublists

/-!
# Bounded queues

A queue that takes an element only while it is below its capacity. Elements
leave in the order they were taken.
-/

set_option autoImplicit false

namespace Lib.BoundedQueue

variable {α β : Type*}

def send (capacity : ℕ) (a : α) (q : List α) : List α :=
  if q.length < capacity then q ++ [a] else q

variable {capacity : ℕ} {q : List α}

theorem send_of_lt (a : α) (h : q.length < capacity) : send capacity a q = q ++ [a] := if_pos h

theorem length_send_le (a : α) (h : q.length ≤ capacity) :
    (send capacity a q).length ≤ capacity := by
  unfold send
  split_ifs with hlt
  · rw [List.length_append, List.length_singleton]
    exact hlt
  · exact h

theorem send_sublist (capacity : ℕ) (a : α) (q : List α) :
    (send capacity a q).Sublist (q ++ [a]) := by
  unfold send
  split_ifs
  · exact List.Sublist.refl _
  · exact List.sublist_append_left q [a]

theorem map_send (f : α → β) (capacity : ℕ) (a : α) (q : List α) :
    (send capacity a q).map f = send capacity (f a) (q.map f) := by
  unfold send
  rw [List.length_map]
  split_ifs
  · exact List.map_append
  · rfl

end Lib.BoundedQueue
