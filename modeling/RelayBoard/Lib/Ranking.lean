import Mathlib.Data.List.Nodup
import Mathlib.Data.List.Perm.Subperm
import Mathlib.Data.List.Sort

/-!
# The highest entries of a list

A list ranked by a key, highest first, and its first `k` entries. Where keys
differ these do not depend on the order of the list, and they can be kept as it
grows: what was dropped never comes back.
-/

set_option autoImplicit false

namespace Lib.Ranking
open List

universe u

variable {α κ : Type u} {ε : Type*} [LinearOrder κ]

def descending (key : α → κ) (xs : List α) : List α :=
  xs.mergeSort fun a b => decide (key b ≤ key a)

/-- The sort, where a key can fail to be read: all of them are read first. -/
def sortDescending (key : α → Except ε κ) (xs : List α) : Except ε (List α) := do
  let keyed ← xs.mapM fun x => do
    let k ← key x
    return (k, x)
  return (descending Prod.fst keyed).map Prod.snd

variable {key : α → κ} {k : ℕ} {xs ys picked : List α}

theorem descending_perm (key : α → κ) (xs : List α) : descending key xs ~ xs :=
  mergeSort_perm xs _

theorem descending_pairwise (key : α → κ) (xs : List α) :
    (descending key xs).Pairwise fun a b => key b ≤ key a := by
  refine (pairwise_mergeSort (fun a b c hab hbc => ?_) (fun a b => ?_) xs).imp
    fun h => of_decide_eq_true h
  · exact decide_eq_true ((of_decide_eq_true hbc).trans (of_decide_eq_true hab))
  · rw [Bool.or_eq_true, decide_eq_true_iff, decide_eq_true_iff]
    exact le_total (key b) (key a)

/-- Keys that differ leave one way to rank a list. -/
theorem descending_eq (hperm : xs ~ ys) (hdesc : ys.Pairwise fun a b => key b < key a) :
    descending key xs = ys := by
  have hall := (descending_perm key xs).trans hperm
  have hinj : (ys.map key).Nodup := hdesc.map key fun _ _ h => (ne_of_lt h).symm
  have hanti : ∀ a b, a ∈ descending key xs → b ∈ ys → key b ≤ key a → key a ≤ key b → a = b :=
    fun a b ha hb hba hab =>
      inj_on_of_nodup_map hinj (hall.mem_iff.mp ha) hb (le_antisymm hab hba)
  exact hall.eq_of_pairwise hanti (descending_pairwise key xs) (hdesc.imp le_of_lt)

omit [LinearOrder κ] in
theorem mapM_keyed {read : α → Except ε κ} :
    ∀ {xs : List α}, (∀ x ∈ xs, read x = .ok (key x)) →
      (xs.mapM fun x => do
        let k ← read x
        return (k, x)) = .ok (xs.map fun x => (key x, x))
  | [], _ => rfl
  | x :: xs, h => by
    rw [mapM_cons, h x mem_cons_self, mapM_keyed fun y hy => h y (mem_cons_of_mem x hy)]
    rfl

theorem descending_map {γ : Type u} (f : γ → α) (key : α → κ) (xs : List γ) :
    descending key (xs.map f) = (descending (fun x => key (f x)) xs).map f :=
  (map_mergeSort (s := fun a b => decide (key b ≤ key a)) (f := f) fun _ _ _ _ => rfl).symm

theorem sortDescending_eq {read : α → Except ε κ} (h : ∀ x ∈ xs, read x = .ok (key x)) :
    sortDescending read xs = .ok (descending key xs) := by
  rw [sortDescending, mapM_keyed h]
  refine congrArg Except.ok ?_
  rw [descending_map, map_map]
  exact map_id _

/-- Entries whose keys differ. -/
def Distinct (key : α → κ) (xs : List α) : Prop := (xs.map key).Nodup

/-- The `k` highest entries, highest first. -/
structure Highest (key : α → κ) (k : ℕ) (xs picked : List α) : Prop where
  desc : picked.Pairwise fun a b => key b < key a
  length : picked.length = min k xs.length
  subset : picked ⊆ xs
  above : ∀ a ∈ picked, ∀ b ∈ xs, b ∉ picked → key b < key a

namespace Highest

theorem nodup (h : Highest key k xs picked) : picked.Nodup :=
  h.desc.imp fun hlt heq => absurd (congrArg key heq) (ne_of_lt hlt).symm

theorem distinct (h : Highest key k xs picked) : Distinct key picked :=
  pairwise_map.mpr (h.desc.imp fun hlt => (ne_of_lt hlt).symm)

theorem of_perm (h : Highest key k xs picked) (hperm : xs ~ ys) : Highest key k ys picked where
  desc := h.desc
  length := by rw [h.length, hperm.length_eq]
  subset := fun _ ha => hperm.subset (h.subset ha)
  above := fun a ha b hb => h.above a ha b (hperm.mem_iff.mpr hb)

theorem map {f : α → α} (hf : ∀ a, key (f a) = key a) (h : Highest key k xs picked) :
    Highest key k (xs.map f) (picked.map f) where
  desc := pairwise_map.mpr (h.desc.imp fun hlt => by rwa [hf, hf])
  length := by rw [length_map, length_map, h.length]
  subset := map_subset f h.subset
  above := by
    simp only [forall_mem_map, hf]
    intro a ha b hb hout
    exact h.above a ha b hb fun hin => hout (mem_map_of_mem hin)

/-- Fewer than `k` entries are all of them. -/
theorem full (h : Highest key k xs picked) {b : α} (hb : b ∈ xs) (hout : b ∉ picked) :
    picked.length = k := by
  by_contra hne
  have hall : xs.length ≤ picked.length := by
    have hlen := h.length
    omega
  have hperm := (h.nodup.subperm h.subset).perm_of_length_le hall
  exact hout (hperm.mem_iff.mpr hb)

theorem exchange (h : Highest key k xs picked) {a : α} (ha : a ∈ ys) (hout : a ∉ picked)
    (hlen : ys.length ≤ picked.length) : ∃ c ∈ picked, c ∉ ys := by
  by_contra! hstay
  have hperm := (h.nodup.subperm hstay).perm_of_length_le hlen
  exact hout (hperm.mem_iff.mpr ha)

theorem subset_of (h : Highest key k xs picked) (h' : Highest key k xs ys) : ys ⊆ picked := by
  intro a ha
  by_contra hout
  obtain ⟨c, hc, hgone⟩ := h.exchange ha hout (by rw [h.length, h'.length])
  exact lt_asymm (h.above c hc a (h'.subset ha) hout) (h'.above a ha c (h.subset hc) hgone)

theorem unique (h : Highest key k xs picked) (h' : Highest key k xs ys) : picked = ys := by
  have hperm : picked ~ ys := (perm_ext_iff_of_nodup h.nodup h'.nodup).mpr fun a =>
    ⟨fun ha => h'.subset_of h ha, fun ha => h.subset_of h' ha⟩
  rw [← descending_eq (Perm.refl picked) h.desc, descending_eq hperm h'.desc]

theorem extend {more : List α} (h : Highest key k xs picked)
    (h' : Highest key k (picked ++ more) ys) : Highest key k (xs ++ more) ys where
  desc := h'.desc
  length := by
    rw [h'.length, length_append, length_append, h.length]
    omega
  subset := fun a ha => by
    rcases mem_append.mp (h'.subset ha) with hold | hnew
    · exact mem_append_left more (h.subset hold)
    · exact mem_append_right xs hnew
  above := by
    intro a ha b hb hout
    by_cases hknown : b ∈ picked ++ more
    · exact h'.above a ha b hknown hout
    · -- `b` was dropped before: all that was kept is above it
      have hxs : b ∈ xs := (mem_append.mp hb).resolve_right fun hmore =>
        hknown (mem_append_right picked hmore)
      have hdropped : b ∉ picked := fun hin => hknown (mem_append_left more hin)
      by_cases hin : a ∈ picked
      · exact h.above a hin b hxs hdropped
      · -- `a` has taken the place of an entry that was kept
        have hfull := h.full hxs hdropped
        have hlen : ys.length ≤ picked.length := by
          have hlen' := h'.length
          rw [length_append, hfull] at hlen'
          omega
        obtain ⟨c, hc, hgone⟩ := h.exchange ha hin hlen
        exact (h.above c hc b hxs hdropped).trans
          (h'.above a ha c (mem_append_left more hc) hgone)

end Highest

theorem descending_strict (h : Distinct key xs) :
    (descending key xs).Pairwise fun a b => key b < key a := by
  have hne : (descending key xs).Pairwise fun a b => key a ≠ key b :=
    pairwise_map.mp (((descending_perm key xs).map key).nodup_iff.mpr h)
  exact ((descending_pairwise key xs).and hne).imp fun h => lt_of_le_of_ne h.1 h.2.symm

theorem highest_take (h : Distinct key xs) (k : ℕ) :
    Highest key k xs ((descending key xs).take k) where
  desc := (descending_strict h).sublist (take_sublist k _)
  length := by rw [length_take, (descending_perm key xs).length_eq]
  subset := fun _ ha => (descending_perm key xs).subset (mem_of_mem_take ha)
  above := by
    intro a ha b hb hout
    have hall : b ∈ (descending key xs).take k ++ (descending key xs).drop k := by
      rw [take_append_drop]
      exact (descending_perm key xs).mem_iff.mpr hb
    have hdesc := descending_strict h
    rw [← take_append_drop k (descending key xs)] at hdesc
    exact (pairwise_append.mp hdesc).2.2 a ha b ((mem_append.mp hall).resolve_left hout)

theorem take_eq (hperm : xs ~ ys) (hdesc : ys.Pairwise fun a b => key b < key a)
    (hlen : ys.length ≤ k) : (descending key xs).take k = ys := by
  rw [descending_eq hperm hdesc, take_of_length_le hlen]

section Replace

variable {y : α}

theorem key_replaced (key : α → κ) (y a : α) :
    key (if key a = key y then y else a) = key a := by
  split_ifs with h
  · exact h.symm
  · rfl

theorem map_replaced (h : ∀ a ∈ xs, key a ≠ key y) :
    xs.map (fun a => if key a = key y then y else a) = xs :=
  (map_congr_left fun a ha => if_neg (h a ha)).trans (map_id xs)

/-- An entry brought again takes the place that it has; one that was dropped stays so. -/
theorem take_replace (h : Highest key k xs picked) (hy : ∃ x ∈ xs, key x = key y) :
    (descending key (picked.filter (fun a => key a ≠ key y) ++ [y])).take k =
      picked.map fun a => if key a = key y then y else a := by
  by_cases hin : ∃ a ∈ picked, key a = key y
  · obtain ⟨a, ha, hkey⟩ := hin
    have hdesc : (picked.map fun a => if key a = key y then y else a).Pairwise
        fun a b => key b < key a := by
      refine pairwise_map.mpr (h.desc.imp fun hlt => ?_)
      rwa [key_replaced key, key_replaced key]
    refine take_eq ?_ hdesc ?_
    · obtain ⟨front, back, rfl⟩ := append_of_mem ha
      obtain ⟨-, hback, hfront⟩ := pairwise_append.mp h.desc
      have hfront' : ∀ b ∈ front, key b ≠ key y := fun b hb =>
        hkey ▸ (ne_of_lt (hfront b hb a mem_cons_self)).symm
      have hback' : ∀ b ∈ back, key b ≠ key y := fun b hb =>
        hkey ▸ ne_of_lt ((pairwise_cons.mp hback).1 b hb)
      rw [map_append, map_cons, map_replaced hfront', map_replaced hback', if_pos hkey,
        filter_append, filter_cons_of_neg (by simpa using hkey),
        filter_eq_self.mpr (by simpa using hfront'), filter_eq_self.mpr (by simpa using hback'),
        append_assoc]
      exact (perm_append_singleton y back).append_left front
    · rw [length_map, h.length]
      exact min_le_left k _
  · push Not at hin
    obtain ⟨x, hx, hkey⟩ := hy
    have hout : x ∉ picked := fun hmem => hin x hmem hkey
    have hdesc : (picked ++ [y]).Pairwise fun a b => key b < key a := by
      refine pairwise_append.mpr ⟨h.desc, pairwise_singleton _ y, fun a ha b hb => ?_⟩
      rw [mem_singleton.mp hb, ← hkey]
      exact h.above a ha x hx hout
    rw [filter_eq_self.mpr (by simpa using hin), descending_eq (Perm.refl _) hdesc,
      map_replaced hin, ← h.full hx hout, take_left]

end Replace

end Lib.Ranking
