import RelayBoard.Lib.Runs

/-!
# Journals

A journal lists what was sent, oldest first. A reader `f` picks out of each
entry what it says about one matter, if anything, and the newest entry that
says something has the last word. The journal of a run joins what its steps
sent.
-/

set_option autoImplicit false

namespace Lib.Journal

variable {ω α β ι σ : Type*}

def newest (f : ω → Option β) (ws : List ω) : Option β := ws.reverse.findSome? f

@[simp] theorem newest_nil (f : ω → Option β) : newest f [] = none := rfl

theorem newest_append (f : ω → Option β) (xs ys : List ω) :
    newest f (xs ++ ys) = (newest f ys).or (newest f xs) := by
  simp [newest, List.findSome?_append]

@[simp] theorem newest_singleton (f : ω → Option β) (w : ω) : newest f [w] = f w := by
  cases h : f w <;> simp [newest, h]

theorem newest_cons (f : ω → Option β) (w : ω) (ws : List ω) :
    newest f (w :: ws) = (newest f ws).or (f w) := by
  rw [← List.singleton_append, newest_append, newest_singleton]

theorem newest_eq_none (f : ω → Option β) (ws : List ω) :
    newest f ws = none ↔ ∀ w ∈ ws, f w = none := by
  simp [newest]

theorem newest_snoc_some {f : ω → Option β} {w : ω} {b : β} (h : f w = some b) (ws : List ω) :
    newest f (ws ++ [w]) = some b := by
  rw [newest_append, newest_singleton, h, Option.some_or]

theorem newest_eq_getLast (f : ω → Option β) (ws : List ω) :
    newest f ws = (ws.filterMap f).getLast? := by
  rw [newest, ← List.head?_filterMap, List.filterMap_reverse, List.head?_reverse]

/-- What is read of a part's own matter in a journal put together from the
parts of several indices. -/
theorem filterMap_flatMap_own (f : ω → Option β) (g : ι → List ω) (is : List ι) (i : ι)
    (hi : i ∈ is) (hnodup : is.Nodup) (hother : ∀ j ∈ is, j ≠ i → (g j).filterMap f = []) :
    (is.flatMap g).filterMap f = (g i).filterMap f := by
  induction is with
  | nil => cases hi
  | cons j js ih =>
    obtain ⟨hj, hjs⟩ := List.nodup_cons.mp hnodup
    have hothers := fun k hk => hother k (List.mem_cons_of_mem j hk)
    rw [List.flatMap_cons, List.filterMap_append]
    rcases List.mem_cons.mp hi with rfl | hi
    · have hrest : (js.flatMap g).filterMap f = [] := by
        rw [List.filterMap_flatMap, List.flatMap_eq_nil_iff]
        exact fun k hk => hothers k hk (fun h => hj (h ▸ hk))
      rw [hrest, List.append_nil]
    · rw [hother j (List.mem_cons_self ..) (fun h => hj (h ▸ hi)), List.nil_append,
        ih hi hjs hothers]

/-- In a journal put together from the parts of several indices, only the part
of its own index has something to say about a matter. -/
theorem newest_flatMap_own (f : ω → Option β) (g : ι → List ω) (is : List ι) (i : ι) (hi : i ∈ is)
    (hother : ∀ j ∈ is, j ≠ i → newest f (g j) = none) :
    newest f (is.flatMap g) = newest f (g i) := by
  classical
  -- Once the own part has been added, each further part adds nothing new.
  have hall : ∀ js : List ι, (∀ j ∈ js, j ∈ is) →
      newest f (js.flatMap g) = if i ∈ js then newest f (g i) else none := by
    intro js
    induction js with
    | nil => intro _; rfl
    | cons j js ih =>
      intro hjs
      rw [List.flatMap_cons, newest_append, ih (fun k hk => hjs k (by simp [hk]))]
      by_cases hj : j = i
      · subst hj
        by_cases hmem : j ∈ js
        · simp [hmem]
        · simp [hmem]
      · rw [hother j (hjs j (by simp)) hj, Option.or_none]
        simp [List.mem_cons, Ne.symm hj]
  rw [hall is (fun _ h => h), if_pos hi]

/-- What the steps of a history sent. -/
def journal (emit : σ → ι → List ω) : List (σ × ι) → List ω
  | [] => []
  | e :: past => journal emit past ++ emit e.1 e.2

@[simp] theorem journal_nil (emit : σ → ι → List ω) : journal emit [] = [] := rfl

@[simp] theorem journal_cons (emit : σ → ι → List ω) (e : σ × ι) (past : List (σ × ι)) :
    journal emit (e :: past) = journal emit past ++ emit e.1 e.2 := rfl

theorem journal_historyFrom (emit : σ → ι → List ω) (step : σ → ι → σ) (past : List (σ × ι))
    (s : σ) (is : List ι) : journal emit (Runs.historyFrom step past s is) =
      journal emit past ++ journal emit (Runs.history step s is) := by
  unfold Runs.history
  induction is generalizing past s with
  | nil => simp [Runs.historyFrom]
  | cons i is ih =>
    rw [Runs.historyFrom, Runs.historyFrom, ih, ih [(s, i)]]
    simp

theorem journal_history_cons (emit : σ → ι → List ω) (step : σ → ι → σ) (s : σ) (i : ι)
    (is : List ι) : journal emit (Runs.history step s (i :: is)) =
      emit s i ++ journal emit (Runs.history step (step s i) is) := by
  rw [Runs.history, Runs.historyFrom, journal_historyFrom]
  simp

end Lib.Journal
