import Mathlib.Data.List.Basic

/-!
# Debouncing by counting

A level is accepted when it shows in `n` samples running. The debouncer stores
the newest sample, how often it has come running, up to `n`, and the level
accepted last. Before the first sample the level given at the start counts as
accepted. Samples are kept newest first.
-/

set_option autoImplicit false

namespace Lib.Debounce

structure Debouncer (α : Type*) where
  raw : α
  count : ℕ
  level : α

namespace Debouncer

section

variable {α : Type*}

def start (n : ℕ) (level : α) : Debouncer α := ⟨level, n, level⟩

/-- The newest `n` samples, and no more, show the level. -/
def Fresh (n : ℕ) (first : α) (samples : List α) (level : α) : Prop :=
  ∃ rest, samples = List.replicate n level ++ rest ∧ rest.headD first ≠ level

structure Knows (n : ℕ) (first : α) (samples : List α) (d : Debouncer α) : Prop where
  newest : samples.headD first = d.raw
  counting : d.count < n → 1 ≤ d.count ∧ Fresh d.count first samples d.raw
  accepted : d.count = n → d.level = d.raw
  bounded : d.count ≤ n

theorem knows_start (n : ℕ) (first : α) : Knows n first [] (start n first) where
  newest := rfl
  counting h := absurd h (Nat.lt_irrefl n)
  accepted _ := rfl
  bounded := Nat.le_refl n

variable {n : ℕ} {first : α} {samples : List α}

theorem Fresh.cons {m : ℕ} {r : α} (h : Fresh m first samples r) :
    Fresh (m + 1) first (r :: samples) r := by
  obtain ⟨rest, rfl, hrest⟩ := h
  exact ⟨rest, rfl, hrest⟩

theorem Fresh.zero {r : α} (h : Fresh 0 first samples r) : samples.headD first ≠ r := by
  obtain ⟨rest, rfl, hrest⟩ := h
  exact hrest

theorem Fresh.succ {m : ℕ} {r : α} (h : Fresh (m + 1) first samples r) :
    ∃ earlier, samples = r :: earlier ∧ Fresh m first earlier r := by
  obtain ⟨rest, rfl, hrest⟩ := h
  exact ⟨List.replicate m r ++ rest, rfl, rest, rfl, hrest⟩

theorem Fresh.unique {m k : ℕ} {r : α} (hm : Fresh m first samples r)
    (hk : Fresh k first samples r) : m = k := by
  induction m generalizing k samples with
  | zero =>
    cases k with
    | zero => rfl
    | succ k =>
      obtain ⟨earlier, rfl, -⟩ := hk.succ
      exact absurd rfl hm.zero
  | succ m ih =>
    obtain ⟨earlier, rfl, hearlier⟩ := hm.succ
    cases k with
    | zero => exact absurd rfl hk.zero
    | succ k =>
      obtain ⟨earlier', heq, hearlier'⟩ := hk.succ
      rw [(List.cons.inj heq).2] at hearlier
      rw [ih hearlier hearlier']

end

variable {α : Type*} [DecidableEq α] {n : ℕ} {first : α} {samples : List α} {d : Debouncer α}

def sample (n : ℕ) (d : Debouncer α) (r : α) : Debouncer α :=
  let d := if r = d.raw then d else { d with raw := r, count := 0 }
  if d.count < n then
    if n ≤ d.count + 1 then ⟨d.raw, d.count + 1, d.raw⟩ else { d with count := d.count + 1 }
  else d

theorem sample_other (hn : 2 ≤ n) {r : α} (hr : r ≠ d.raw) :
    d.sample n r = { d with raw := r, count := 1 } := by
  unfold sample
  rw [if_neg hr]
  dsimp only
  rw [if_pos (by omega), if_neg (by omega)]

theorem sample_same {r : α} (hr : r = d.raw) (hcount : d.count + 1 < n) :
    d.sample n r = { d with count := d.count + 1 } := by
  unfold sample
  rw [if_pos hr]
  dsimp only
  rw [if_pos (by omega), if_neg (by omega)]

theorem sample_last {r : α} (hr : r = d.raw) (hcount : d.count + 1 = n) :
    d.sample n r = ⟨d.raw, n, d.raw⟩ := by
  unfold sample
  rw [if_pos hr]
  dsimp only
  rw [if_pos (by omega), if_pos (by omega), hcount]

theorem sample_full {r : α} (hr : r = d.raw) (hcount : d.count = n) : d.sample n r = d := by
  unfold sample
  rw [if_pos hr]
  dsimp only
  rw [if_neg (by omega)]

theorem Knows.sample (hn : 2 ≤ n) (h : Knows n first samples d) (r : α) :
    Knows n first (r :: samples) (d.sample n r) := by
  by_cases hr : r = d.raw
  · rcases Nat.lt_or_eq_of_le h.bounded with hcount | hcount
    · obtain ⟨hone, hfresh⟩ := h.counting hcount
      subst hr
      rcases Nat.lt_or_eq_of_le (Nat.succ_le_of_lt hcount) with hmore | hlast
      · rw [sample_same rfl hmore]
        exact ⟨rfl, fun _ => ⟨Nat.le_add_left 1 _, hfresh.cons⟩,
          fun hfull => absurd hfull (Nat.ne_of_lt hmore), Nat.le_of_lt hmore⟩
      · rw [sample_last rfl hlast]
        exact ⟨rfl, fun hlt => absurd hlt (Nat.lt_irrefl n), fun _ => rfl, Nat.le_refl n⟩
    · rw [sample_full hr hcount]
      exact ⟨hr, fun hlt => absurd hlt (by omega), h.accepted, h.bounded⟩
  · rw [sample_other hn hr]
    refine ⟨rfl, fun _ => ⟨Nat.le_refl 1, samples, rfl, ?_⟩, fun hfull => ?_, Nat.le_of_succ_le hn⟩
    · rw [h.newest]
      exact fun hraw => hr hraw.symm
    · exact absurd hfull (by simp only; omega)

/-- The accepted level changes on the last of `n` samples running of a level
that was not accepted, and then only. -/
theorem level_changes_iff (hn : 2 ≤ n) (h : Knows n first samples d) (r : α) :
    (d.sample n r).level ≠ d.level ↔
      r ≠ d.level ∧ Fresh n first (r :: samples) r := by
  by_cases hr : r = d.raw
  · rcases Nat.lt_or_eq_of_le h.bounded with hcount | hcount
    · obtain ⟨-, hfresh⟩ := h.counting hcount
      subst hr
      rcases Nat.lt_or_eq_of_le (Nat.succ_le_of_lt hcount) with hmore | hlast
      · rw [sample_same rfl hmore]
        refine iff_of_false (fun hne => hne rfl) (fun hne => ?_)
        exact absurd (hfresh.cons.unique hne.2) (Nat.ne_of_lt hmore)
      · rw [sample_last rfl hlast]
        exact ⟨fun hne => ⟨hne, hlast ▸ hfresh.cons⟩, fun hne => hne.1⟩
    · rw [sample_full hr hcount]
      exact iff_of_false (fun hne => hne rfl) (fun hne => hne.1 (hr.trans (h.accepted hcount).symm))
  · rw [sample_other hn hr]
    refine iff_of_false (fun hne => hne rfl) (fun hne => ?_)
    have hfresh : Fresh 1 first (r :: samples) r :=
      ⟨samples, rfl, by rw [h.newest]; exact fun hraw => hr hraw.symm⟩
    have hone := hfresh.unique hne.2
    omega

end Debouncer

end Lib.Debounce
