import Mathlib.Data.List.Basic

/-!
# A copy refreshed on notice

A core shows a value under each key, and a copy of it is kept elsewhere. A
change of the core leaves a notice for each key it touches; a notice carries
no value, and whoever takes it copies what the core shows by then. A refresh
without a notice does no harm. So a key is either up to date or has a notice
under way, in whatever order the notices are taken.
-/

set_option autoImplicit false

namespace Lib.Refresh

variable {κ α : Type*} {view view' copy copy' : κ → α} {owed more : List κ}

def Owing (view copy : κ → α) (owed : List κ) : Prop := ∀ k, copy k = view k ∨ k ∈ owed

/-- Each key has been copied anew or been left alone. -/
def Refreshed (view copy copy' : κ → α) : Prop := ∀ k, copy' k = view k ∨ copy' k = copy k

theorem Owing.change (h : Owing view copy owed) (hmore : ∀ k, view' k = view k ∨ k ∈ more) :
    Owing view' copy (owed ++ more) := by
  intro k
  rcases hmore k with hk | hk
  · rcases h k with hcopy | howed
    · exact .inl (hcopy.trans hk.symm)
    · exact .inr (List.mem_append_left _ howed)
  · exact .inr (List.mem_append_right _ hk)

theorem Owing.refresh (h : Owing view copy owed) (hcopy : Refreshed view copy copy') :
    Owing view copy' owed := by
  intro k
  rcases hcopy k with hk | hk
  · exact .inl hk
  · exact (h k).imp_left (fun hold => hk.trans hold)

theorem Owing.notify (h : Owing view copy owed) (hcopy : Refreshed view copy copy') {n : ℕ} {k : κ}
    (hn : owed[n]? = some k) (hk : copy' k = view k) : Owing view copy' (owed.eraseIdx n) := by
  intro j
  rcases h.refresh hcopy j with hj | hj
  · exact .inl hj
  · by_cases hjk : j = k
    · exact .inl (hjk ▸ hk)
    · refine .inr (List.mem_eraseIdx_iff_getElem?.mpr ?_)
      obtain ⟨m, hm⟩ := List.mem_iff_getElem?.mp hj
      refine ⟨m, ?_, hm⟩
      rintro rfl
      exact hjk (Option.some.inj (hm.symm.trans hn))

theorem Owing.settled (h : Owing view copy []) (k : κ) : copy k = view k :=
  (h k).resolve_right (List.not_mem_nil)

end Lib.Refresh
