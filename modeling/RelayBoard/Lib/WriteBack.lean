import Mathlib.Data.Nat.Notation
import Mathlib.Logic.Function.Basic
import Mathlib.Tactic.ByContra

/-!
# A write-back store

Several writers share a content and a flag that says that the store does not
hold it yet. A writer copies the content, later saves the copy, and after that
clears the flag; a save may fail. A copy is dated by the number of changes made
before it was taken. If the flag is only ever cleared while the store holds a
copy of the newest date, a clear flag and writers at rest mean that the store
holds the content.
-/

set_option autoImplicit false

namespace Lib.WriteBack

inductive Writer (α : Type*) where
  | idle
  | saving (copy : α) (date : ℕ)
  | clearing

structure State (τ α : Type*) where
  content : α
  changes : ℕ
  dirty : Bool
  writer : τ → Writer α
  store : Option α
  storeDate : Option ℕ

variable {τ α : Type*}

namespace State

def edit [DecidableEq α] (v : α) (dirty : Bool) (s : State τ α) : State τ α :=
  { s with
    content := v
    changes := if v = s.content then s.changes else s.changes + 1
    dirty := dirty }

def take [DecidableEq τ] (t : τ) (s : State τ α) : State τ α :=
  { s with writer := Function.update s.writer t (.saving s.content s.changes) }

def save [DecidableEq τ] (t : τ) (copy : α) (date : ℕ) (s : State τ α) : State τ α :=
  { s with
    store := some copy
    storeDate := some date
    writer := Function.update s.writer t .clearing }

def giveUp [DecidableEq τ] (t : τ) (s : State τ α) : State τ α :=
  { s with writer := Function.update s.writer t .idle }

def clear [DecidableEq τ] (t : τ) (s : State τ α) : State τ α :=
  { s with dirty := false, writer := Function.update s.writer t .idle }

/-- A copy of the newest date is a copy of the content. -/
def Dated (s : State τ α) (copy : α) (date : ℕ) : Prop :=
  date ≤ s.changes ∧ (date = s.changes → copy = s.content)

structure Inv (s : State τ α) : Prop where
  writers : ∀ t copy date, s.writer t = .saving copy date → s.Dated copy date
  store : ∀ date, s.storeDate = some date → ∃ copy, s.store = some copy ∧ s.Dated copy date
  clean : s.dirty = false →
    s.storeDate = none ∨ s.storeDate = some s.changes ∨ ∃ t, s.writer t = .clearing

variable {s : State τ α}

theorem Dated.edit [DecidableEq α] {copy : α} {date : ℕ} (h : s.Dated copy date) (v : α)
    (dirty : Bool) : (s.edit v dirty).Dated copy date := by
  by_cases hv : v = s.content
  · subst hv
    simpa [Dated, State.edit] using h
  · have hlt := h.1
    simp only [Dated, State.edit, if_neg hv]
    exact ⟨by omega, fun hdate => by omega⟩

/-- An edit that changes the content sets the flag, and none clears it. -/
theorem Inv.edit [DecidableEq α] (h : Inv s) {v : α} {dirty : Bool}
    (hkept : s.dirty = true → dirty = true) (hchanged : v ≠ s.content → dirty = true) :
    Inv (s.edit v dirty) where
  writers t copy date ht := (h.writers t copy date ht).edit v dirty
  store date hdate := by
    obtain ⟨copy, hcopy, hdated⟩ := h.store date hdate
    exact ⟨copy, hcopy, hdated.edit v dirty⟩
  clean hdirty := by
    change dirty = false at hdirty
    have hv : v = s.content := by
      by_contra hne
      rw [hchanged hne] at hdirty
      cases hdirty
    have hold : s.dirty = false := by
      cases hset : s.dirty with
      | false => rfl
      | true =>
        rw [hkept hset] at hdirty
        cases hdirty
    simpa [State.edit, hv] using h.clean hold

section Writers

variable [DecidableEq τ] {t : τ}

/-- A writer that moves on without having cleared leaves the others' clearing
to come. -/
theorem clearing_update (h : ∃ u, s.writer u = .clearing) (ht : s.writer t ≠ .clearing)
    (w : Writer α) : ∃ u, Function.update s.writer t w u = .clearing := by
  obtain ⟨u, hu⟩ := h
  refine ⟨u, ?_⟩
  rw [Function.update_of_ne]
  · exact hu
  · rintro rfl
    exact ht hu

theorem Inv.take (h : Inv s) (ht : s.writer t ≠ .clearing) : Inv (s.take t) where
  writers u copy date hu := by
    by_cases htu : u = t
    · subst htu
      simp only [State.take, Function.update_self, Writer.saving.injEq] at hu
      obtain ⟨rfl, rfl⟩ := hu
      exact ⟨Nat.le_refl _, fun _ => rfl⟩
    · simp only [State.take, Function.update_of_ne htu] at hu
      exact h.writers u copy date hu
  store := h.store
  clean hdirty := (h.clean hdirty).imp_right (Or.imp_right fun hu => clearing_update hu ht _)

theorem writer_of_update {w : Writer α} {copy : α} {date : ℕ} {u : τ}
    (hw : w ≠ .saving copy date) (hu : Function.update s.writer t w u = .saving copy date) :
    s.writer u = .saving copy date := by
  by_cases htu : u = t
  · subst htu
    rw [Function.update_self] at hu
    exact absurd hu hw
  · rwa [Function.update_of_ne htu] at hu

theorem Inv.save (h : Inv s) {copy : α} {date : ℕ} (ht : s.writer t = .saving copy date) :
    Inv (s.save t copy date) where
  writers u copy' date' hu :=
    h.writers u copy' date' (writer_of_update (w := .clearing) nofun hu)
  store date' hdate := by
    obtain rfl := Option.some.inj hdate
    exact ⟨copy, rfl, h.writers t copy date ht⟩
  clean _ := .inr (.inr ⟨t, Function.update_self ..⟩)

theorem Inv.giveUp (h : Inv s) (ht : s.writer t ≠ .clearing) : Inv (s.giveUp t) where
  writers u copy date hu := h.writers u copy date (writer_of_update (w := .idle) nofun hu)
  store := h.store
  clean hdirty := (h.clean hdirty).imp_right (Or.imp_right fun hu => clearing_update hu ht _)

/-- The flag is cleared while the store holds the newest copy. -/
theorem Inv.clear (h : Inv s) (hnewest : s.storeDate = some s.changes) : Inv (s.clear t) where
  writers u copy date hu := h.writers u copy date (writer_of_update (w := .idle) nofun hu)
  store := h.store
  clean _ := .inr (.inl hnewest)

end Writers

theorem Inv.settled (h : Inv s) (hidle : ∀ t, s.writer t = .idle) (hdirty : s.dirty = false)
    (hsaved : s.storeDate ≠ none) : s.store = some s.content := by
  rcases h.clean hdirty with hnone | hnewest | ⟨t, ht⟩
  · exact absurd hnone hsaved
  · obtain ⟨copy, hcopy, hdated⟩ := h.store _ hnewest
    rw [hcopy, hdated.2 rfl]
  · rw [hidle t] at ht
    cases ht

end State

end Lib.WriteBack
