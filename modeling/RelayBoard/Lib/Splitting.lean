import Mathlib.Data.List.Basic
import Mathlib.Data.List.Induction

/-!
# Lists split at a separator

What becomes of the parts of a list as it grows at its end, and the list with
its separators squeezed: one between parts, none at either end.
-/

set_option autoImplicit false

namespace Lib.Splitting

variable {α : Type*}

theorem intercalate_snoc (sep : List α) (ls : List (List α)) (l : List α) :
    sep.intercalate (ls ++ [l]) = if ls = [] then l else sep.intercalate ls ++ sep ++ l := by
  induction ls with
  | nil => simp
  | cons k ls ih =>
    rw [List.cons_append, if_neg (List.cons_ne_nil _ _),
      List.intercalate_cons_of_ne_nil (by simp), ih]
    split_ifs with hnil
    · simp [hnil]
    · rw [List.intercalate_cons_of_ne_nil hnil]
      simp

variable [DecidableEq α] (a : α)

theorem splitOn_snoc_self (l : List α) : (l ++ [a]).splitOn a = l.splitOn a ++ [[]] := by
  rw [List.splitOn_append_cons_self]
  rfl

theorem exists_last_part (front : List α) :
    ∃ init last, front.splitOn a = init ++ [last] ∧ a ∉ last ∧
      ∀ rest, a ∉ rest → (front ++ rest).splitOn a = init ++ [last ++ rest] := by
  by_cases h : a ∈ front
  · obtain ⟨after, before, hsplit, hlast⟩ := List.eq_append_cons_of_mem (List.mem_reverse.mpr h)
    have hfront : front = before.reverse ++ a :: after.reverse := by
      rw [← List.reverse_reverse front, hsplit]
      simp
    have hafter : a ∉ after.reverse := fun hmem => hlast (List.mem_reverse.mp hmem)
    refine ⟨before.reverse.splitOn a, after.reverse, ?_, hafter, fun rest hrest => ?_⟩
    · rw [hfront, List.splitOn_append_cons_self, List.splitOn_eq_singleton hafter]
    · have hwhole : a ∉ after.reverse ++ rest := fun hmem =>
        (List.mem_append.mp hmem).elim hafter hrest
      rw [hfront, List.append_assoc, List.cons_append, List.splitOn_append_cons_self,
        List.splitOn_eq_singleton hwhole]
  · refine ⟨[], front, List.splitOn_eq_singleton h, h, fun rest hrest =>
      List.splitOn_eq_singleton fun hmem => ?_⟩
    exact (List.mem_append.mp hmem).elim h hrest

theorem flatten_splitOn (l : List α) : (l.splitOn a).flatten = l.filter (· != a) := by
  induction l using List.reverseRecOn with
  | nil => rfl
  | append_singleton l x ih =>
    rw [List.filter_append, ← ih]
    by_cases hx : x = a
    · rw [hx, splitOn_snoc_self]
      simp
    · obtain ⟨init, last, hsplit, -, hmore⟩ := exists_last_part a l
      rw [hmore [x] (by simpa using Ne.symm hx), hsplit]
      simp [hx]

/-- The parts that are not empty. -/
def parts (l : List α) : List (List α) := (l.splitOn a).filter (· ≠ [])

def squeeze (l : List α) : List α := [a].intercalate (parts a l)

variable {a}

theorem squeeze_eq_nil (l : List α) : squeeze a l = [] ↔ parts a l = [] := by
  constructor
  · intro h
    rcases List.eq_nil_or_concat (parts a l) with hnil | ⟨ls, k, hparts⟩
    · exact hnil
    · have hk : k ∈ parts a l := by simp [hparts]
      have hne : k ≠ [] := by simpa using (List.mem_filter.mp hk).2
      rw [squeeze, hparts, List.concat_eq_append, intercalate_snoc] at h
      split_ifs at h
      · exact absurd h hne
      · exact absurd (List.append_eq_nil_iff.mp h).2 hne
  · intro h
    rw [squeeze, h]
    rfl

theorem squeeze_snoc_self (l : List α) : squeeze a (l ++ [a]) = squeeze a l := by
  rw [squeeze, parts, splitOn_snoc_self, List.filter_append]
  simp [squeeze, parts]

theorem squeeze_snoc {y x : α} (hy : y ≠ a) (hx : x ≠ a) (l : List α) :
    squeeze a (l ++ [y] ++ [x]) = squeeze a (l ++ [y]) ++ [x] := by
  obtain ⟨init, last, -, -, hmore⟩ := exists_last_part a l
  have hone := hmore [y] (by simpa using Ne.symm hy)
  have htwo := hmore [y, x] (by simp [Ne.symm hy, Ne.symm hx])
  rw [List.append_assoc, List.singleton_append, squeeze, squeeze, parts, parts, hone, htwo]
  have hkeep : ∀ k : List α, k ≠ [] → [k].filter (· ≠ []) = [k] := fun k hk => by simp [hk]
  rw [List.filter_append, List.filter_append, hkeep _ (by simp), hkeep _ (by simp),
    intercalate_snoc, intercalate_snoc]
  split_ifs <;> simp

theorem squeeze_snoc_part {x : α} (hx : x ≠ a) {l : List α}
    (hl : l = [] ∨ ∃ front, l = front ++ [a]) :
    squeeze a (l ++ [x]) = if squeeze a l = [] then [x] else squeeze a l ++ [a, x] := by
  have hsplit : parts a (l ++ [x]) = parts a l ++ [[x]] := by
    have hx' : a ∉ [x] := by simpa using Ne.symm hx
    rcases hl with rfl | ⟨front, rfl⟩
    · rw [List.nil_append, parts, List.splitOn_eq_singleton hx']
      rfl
    · rw [List.append_assoc, List.singleton_append, parts, parts, List.splitOn_append_cons_self,
        List.splitOn_eq_singleton hx', splitOn_snoc_self, List.filter_append, List.filter_append]
      simp
  rw [squeeze, hsplit, intercalate_snoc]
  by_cases hnil : parts a l = []
  · rw [if_pos hnil, if_pos ((squeeze_eq_nil l).mpr hnil)]
  · rw [if_neg hnil, if_neg ((squeeze_eq_nil l).not.mpr hnil), squeeze]
    simp

end Lib.Splitting
