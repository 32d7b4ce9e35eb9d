import RelayBoard.ButtonLogic

/-!
# What the LED showed

What a press does is worked out again at the update that accepts its end, from
the time of that update. The LED was set by the update before. If a threshold
lies between the two, the button does what was never shown.
-/

set_option autoImplicit false

namespace RelayBoard
open Lib.Runs Lib.Clock

def ButtonAction.shown : ButtonAction → ButtonFeedback
  | .none => .none
  | .portal => .portal
  | .reset => .reset

def ButtonState.Ends (s : ButtonState) (x : ButtonSample) : Prop :=
  s.debounced = true ∧ (s.step x).debounced = false

instance (s : ButtonState) (x : ButtonSample) : Decidable (s.Ends x) :=
  inferInstanceAs (Decidable (_ ∧ _))

/-- An action, and the lack of one at the end of a press, is what the update
before has shown. -/
structure DoesAsShown (e : ButtonState × ButtonSample)
    (past : List (ButtonState × ButtonSample)) : Prop where
  acts : e.1.action e.2 ≠ .none →
    ∃ d ∈ past.head?, d.1.feedback d.2 = (e.1.action e.2).shown
  ends : e.1.Ends e.2 → e.1.action e.2 = .none → ∃ d ∈ past.head?, d.1.feedback d.2 = .none

/-- No threshold of the press lies between its last update and the one before. -/
def Uncrossed (e : ButtonState × ButtonSample) (past : List (ButtonState × ButtonSample)) : Prop :=
  e.1.Ends e.2 → ∀ t₀ ∈ pressStart past, ∀ d ∈ past.head?,
    (buttonPortalMs ≤ d.2.t - t₀ ↔ buttonPortalMs ≤ e.2.t - t₀) ∧
      (buttonResetMs ≤ d.2.t - t₀ ↔ buttonResetMs ≤ e.2.t - t₀)

instance (e : ButtonState × ButtonSample) (past : List (ButtonState × ButtonSample)) :
    Decidable (Uncrossed e past) := inferInstanceAs (Decidable (_ → _))

theorem heldFeedback_eq_shown (d t : ℕ) : heldFeedback d = (heldAction t).shown ↔
    (buttonPortalMs ≤ d ↔ buttonPortalMs ≤ t) ∧ (buttonResetMs ≤ d ↔ buttonResetMs ≤ t) := by
  unfold heldFeedback heldAction buttonResetMs buttonPortalMs
  split_ifs <;> simp [ButtonAction.shown] <;> omega

namespace ButtonTracks

variable {first : Bool} {s : ButtonState} {past : List (ButtonState × ButtonSample)}

theorem shown_before {e : ButtonState × ButtonSample} {earlier : List (ButtonState × ButtonSample)}
    (h : ButtonTracks first e.1 earlier) (hon : (e.1.step e.2).debounced = true)
    (hle : ∀ t₀ ∈ pressStart (e :: earlier), t₀ ≤ e.2.t ∧ e.2.t < t₀ + 2 ^ 32) :
    (pressStart (e :: earlier) = none → e.1.feedback e.2 = .none) ∧
      ∀ t₀ ∈ pressStart (e :: earlier), e.1.feedback e.2 = heldFeedback (e.2.t - t₀) := by
  rw [pressStart_cons, hon, if_pos rfl] at hle ⊢
  rcases h.cases with ⟨hoff, hignoring, -⟩ | ⟨hbefore, hignoring, hnone⟩ |
    ⟨t₀, hbefore, hignoring, hsome, hstart⟩
  · have hfeedback := (h.step_idle hignoring hoff e.2).2.2.2
    rw [hoff, if_neg Bool.false_ne_true]
    refine ⟨fun _ => hfeedback, ?_⟩
    rintro t₀ ⟨⟩
    rw [hfeedback, Nat.sub_self]
    rfl
  · have hfeedback := (e.1.step_ignoring hignoring e.2).2.2
    rw [hbefore, if_pos rfl, hnone]
    exact ⟨fun _ => hfeedback, by simp⟩
  · rw [hbefore, if_pos rfl, hsome] at hle ⊢
    obtain ⟨hstarted, hturn⟩ := hle t₀ rfl
    refine ⟨by simp, ?_⟩
    rintro t ⟨⟩
    rw [(h.times hsome hstarted hturn).2, hon, if_pos rfl]

end ButtonTracks

theorem not_ends_first (pressedNow : Bool) (x : ButtonSample) :
    ¬(buttonLogicInit pressedNow).Ends x := by
  rintro ⟨hon, hoff⟩
  have hchanges : ((buttonLogicInit pressedNow).step x).debounced ≠
      (buttonLogicInit pressedNow).debounced := by
    rw [hon, hoff]
    exact Bool.false_ne_true
  obtain ⟨-, rest, hsamples, -⟩ := (run_button_safe pressedNow [] x (by simp)).level.mp hchanges
  simp [buttonPast] at hsamples

theorem ends_as_shown_iff {first : Bool} {e d : ButtonState × ButtonSample}
    {past : List (ButtonState × ButtonSample)} (he : ButtonTracks first e.1 (d :: past))
    (hd : ButtonTracks first d.1 past) (hstep : e.1 = d.1.step d.2) (hends : e.1.Ends e.2)
    (hle : ∀ t₀ ∈ pressStart (d :: past), t₀ ≤ d.2.t ∧ d.2.t ≤ e.2.t ∧ e.2.t < t₀ + 2 ^ 32) :
    DoesAsShown e (d :: past) ↔ Uncrossed e (d :: past) := by
  have hon : (d.1.step d.2).debounced = true := hstep ▸ hends.1
  obtain ⟨hnever, hshown⟩ := hd.shown_before hon
    (fun t₀ ht₀ => ⟨(hle t₀ ht₀).1, lt_of_le_of_lt (hle t₀ ht₀).2.1 (hle t₀ ht₀).2.2⟩)
  cases hstart : pressStart (d :: past) with
  | none =>
    refine iff_of_true ⟨fun hact => ?_, fun _ _ => ⟨d, rfl, hnever hstart⟩⟩ ?_
    · exact absurd (he.acts hact).2.2 (by simp [hstart])
    · intro _ t₀ ht₀
      simp [hstart] at ht₀
  | some t₀ =>
    obtain ⟨hbegun, hlater, hturn⟩ := hle t₀ hstart
    have haction := (he.times hstart (Nat.le_trans hbegun hlater) hturn).1
    rw [hends.2, if_neg Bool.false_ne_true] at haction
    have hfeedback := hshown t₀ hstart
    have hmeans : DoesAsShown e (d :: past) ↔ d.1.feedback d.2 = (e.1.action e.2).shown := by
      constructor
      · intro hdoes
        by_cases hact : e.1.action e.2 = .none
        · obtain ⟨b, hb, hnone⟩ := hdoes.ends hends hact
          obtain rfl := Option.some.inj hb
          rw [hnone, hact]
          rfl
        · obtain ⟨b, hb, hsame⟩ := hdoes.acts hact
          obtain rfl := Option.some.inj hb
          exact hsame
      · intro hsame
        refine ⟨fun _ => ⟨d, rfl, hsame⟩, fun _ hact => ⟨d, rfl, ?_⟩⟩
        rw [hsame, hact]
        rfl
    rw [hmeans, hfeedback, haction, heldFeedback_eq_shown]
    constructor
    · rintro hsame _ t ht b ⟨⟩
      obtain rfl : t₀ = t := Option.some.inj (hstart.symm.trans ht)
      exact hsame
    · intro huncrossed
      exact huncrossed hends t₀ hstart d rfl

theorem does_as_shown_iff (pressedNow : Bool) (xs : List ButtonSample) (x : ButtonSample)
    (horder : ((xs ++ [x]).map ButtonSample.t).Pairwise (· ≤ ·))
    (hturn : ∀ t₀ ∈ pressStart (buttonPast pressedNow xs), x.t < t₀ + 2 ^ 32) :
    DoesAsShown (buttonRun pressedNow xs, x) (buttonPast pressedNow xs) ↔
      Uncrossed (buttonRun pressedNow xs, x) (buttonPast pressedNow xs) := by
  have h := run_buttonTracks pressedNow xs
  by_cases hends : (buttonRun pressedNow xs).Ends x
  · rcases List.eq_nil_or_concat xs with rfl | ⟨ys, y, rfl⟩
    · exact absurd hends (not_ends_first pressedNow x)
    · rw [List.concat_eq_append] at h hends horder hturn ⊢
      have hpast : buttonPast pressedNow (ys ++ [y]) =
          (buttonRun pressedNow ys, y) :: buttonPast pressedNow ys :=
        history_snoc ButtonState.step _ ys y
      have hstate : buttonRun pressedNow (ys ++ [y]) = (buttonRun pressedNow ys).step y :=
        run_snoc ButtonState.step _ ys y
      have hordered : ((ys ++ [y]).map ButtonSample.t).Pairwise (· ≤ ·) :=
        (List.pairwise_append.mp (List.map_append ▸ horder)).1
      have hlast : y.t ≤ x.t := by
        have hall := (List.pairwise_append.mp (List.map_append ▸ horder)).2.2
        exact hall y.t (List.mem_map_of_mem (by simp)) x.t (by simp)
      rw [hpast] at h hturn ⊢
      refine ends_as_shown_iff h (run_buttonTracks pressedNow ys) hstate hends (fun t₀ ht₀ => ?_)
      refine ⟨?_, hlast, hturn t₀ ht₀⟩
      obtain ⟨b, hb, rfl⟩ := pressStart_mem ht₀
      rcases List.mem_cons.mp hb with rfl | hb
      · exact Nat.le_refl _
      · have hall := (List.pairwise_append.mp (List.map_append ▸ hordered)).2.2
        exact hall b.2.t
          (List.mem_map_of_mem (input_of_history ButtonState.step _ ys b hb)) y.t (by simp)
  · refine iff_of_true ⟨fun hact => ?_, fun hends' => absurd hends' hends⟩
      (fun hends' => absurd hends' hends)
    exact absurd ⟨(h.acts hact).1, (h.acts hact).2.1⟩ hends

/-- In every run with times in order, and presses shorter than a turn of the
clock, the button does what the LED showed exactly if no press has a threshold
between its last two updates. -/
theorem run_does_as_shown_iff (pressedNow : Bool) (xs : List ButtonSample)
    (horder : (xs.map ButtonSample.t).Pairwise (· ≤ ·))
    (hturn : ∀ e past, e :: past <:+ buttonPast pressedNow xs →
      ∀ t₀ ∈ pressStart past, e.2.t < t₀ + 2 ^ 32) :
    (∀ e past, e :: past <:+ buttonPast pressedNow xs → DoesAsShown e past) ↔
      ∀ e past, e :: past <:+ buttonPast pressedNow xs → Uncrossed e past := by
  refine forall₂_congr fun e past => forall_congr' fun hsuffix => ?_
  obtain ⟨js, ks, rfl, hstate, rfl⟩ := entry_of_suffix hsuffix
  have he : e = (buttonRun pressedNow js, e.2) := Prod.ext hstate rfl
  have hprefix : ((js ++ [e.2]).map ButtonSample.t).Pairwise (· ≤ ·) := by
    have hone : List.Sublist [e.2] (e.2 :: ks) := List.singleton_sublist.mpr (List.mem_cons_self ..)
    exact horder.sublist ((hone.append_left js).map ButtonSample.t)
  rw [he]
  exact does_as_shown_iff pressedNow js e.2 hprefix (hturn e _ hsuffix)

theorem long_press_as_shown :
    DoesAsShown (buttonRun false longPress, ⟨false, 16040⟩) (buttonPast false longPress) :=
  (run_does_as_shown_iff false (longPress ++ [(⟨false, 16040⟩ : ButtonSample)]) (by decide)
    (forall_past_of_tails (by decide +kernel))).mpr
    (forall_past_of_tails (by decide +kernel)) (buttonRun false longPress, ⟨false, 16040⟩)
    (buttonPast false longPress)
    (suffix_history ButtonState.step (buttonLogicInit false) longPress ⟨false, 16040⟩ [])

/-- The button does what the LED showed, whenever it is polled. -/
def ButtonHonest : Prop :=
  ∀ (pressedNow : Bool) (xs : List ButtonSample), (xs.map ButtonSample.t).Pairwise (· ≤ ·) →
    (∀ e past, e :: past <:+ buttonPast pressedNow xs →
      ∀ t₀ ∈ pressStart past, e.2.t < t₀ + 2 ^ 32) →
    ∀ e past, e :: past <:+ buttonPast pressedNow xs → DoesAsShown e past

/-- The press begins at 20 ms. The LED shows the portal colour up to its end. -/
def crossedPress : List ButtonSample :=
  [⟨true, 0⟩, ⟨true, 10⟩, ⟨true, 20⟩, ⟨true, 15000⟩, ⟨false, 15005⟩, ⟨false, 15012⟩]

/-- The update at 15022 ms accepts the release, and resets. -/
theorem reset_not_shown : ¬ButtonHonest := by
  intro h
  have hshown := h false (crossedPress ++ [(⟨false, 15022⟩ : ButtonSample)]) (by decide)
    (forall_past_of_tails (by decide +kernel)) (buttonRun false crossedPress, ⟨false, 15022⟩)
    (buttonPast false crossedPress)
    (suffix_history ButtonState.step (buttonLogicInit false) crossedPress ⟨false, 15022⟩ [])
  obtain ⟨d, hd, hfeedback⟩ := hshown.acts (by decide +kernel)
  have hlast : d = (buttonRun false (crossedPress.take 5), ⟨false, 15012⟩) :=
    (Option.some.inj hd).symm
  rw [hlast] at hfeedback
  exact absurd hfeedback (by decide +kernel)

end RelayBoard
