import Mathlib.Data.List.Basic

/- Runs of a deterministic system: a state, a step for each input, and the fold of
   the steps over a list of inputs. What every step preserves, a run preserves;
   what holds at the end of a run is shown from what its last step does. -/
namespace Lib
variable {σ α : Type} {step : σ → α → σ}

theorem run_invariant (P : σ → Prop) (hstep : ∀ s a, P s → P (step s a)) {s : σ} (hs : P s)
    (inputs : List α) : P (inputs.foldl step s) := by
  induction inputs generalizing s with
  | nil => exact hs
  | cons a inputs ih => exact ih (hstep s a hs)

/-- An invariant of the steps whose inputs, in the state they meet, satisfy `Q`. -/
theorem run_invariant_of (P : σ → Prop) {Q : σ → α → Prop}
    (hstep : ∀ s a, P s → Q s a → P (step s a)) {s : σ} (hs : P s) {inputs : List α}
    (hinputs : ∀ before a after, inputs = before ++ a :: after → Q (before.foldl step s) a) :
    P (inputs.foldl step s) := by
  induction inputs generalizing s with
  | nil => exact hs
  | cons a inputs ih =>
    refine ih (hstep s a hs (hinputs [] a inputs rfl)) fun before b after h => ?_
    exact hinputs (a :: before) b after (by rw [h, List.cons_append])

/-- The inputs of a run meet a condition when the first does and the rest do from the state
    it leaves. -/
theorem inputs_cons {Q : σ → α → Prop} {s : σ} {x : α} {inputs : List α} (hx : Q s x)
    (hrest : ∀ before a after, inputs = before ++ a :: after → Q (before.foldl step (step s x)) a) :
    ∀ before a after, x :: inputs = before ++ a :: after → Q (before.foldl step s) a := by
  intro before a after h
  cases before with
  | nil =>
    cases h
    exact hx
  | cons y before =>
    cases h
    exact hrest before a after rfl

theorem inputs_nil {Q : σ → α → Prop} {s : σ} :
    ∀ before a after, [] = before ++ a :: after → Q (before.foldl step s) a := by
  intro before a after h
  exact absurd h.symm (List.append_ne_nil_of_right_ne_nil _ (List.cons_ne_nil _ _))

end Lib
