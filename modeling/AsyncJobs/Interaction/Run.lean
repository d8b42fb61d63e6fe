import Mathlib.Tactic.Common

/-!
# Runs of a step function

A run takes its actions one after the other and ends when one of them is not possible.
A run under a condition also ends at the first action that does not meet it, so what the
steps that meet it preserve holds after the whole run.
-/

namespace Interaction

variable {σ α : Type*}

/-- The state a list of actions leads to, if each of them is possible and meets the
condition in the state it is taken in. -/
def runWhile (step : σ → α → Option σ) (meets : σ → α → Bool) (s : σ) : List α → Option σ
  | [] => some s
  | a :: actions =>
    if meets s a then
      match step s a with
      | none => none
      | some next => runWhile step meets next actions
    else none

def run (step : σ → α → Option σ) (s : σ) (actions : List α) : Option σ :=
  runWhile step (fun _ _ => true) s actions

variable {step : σ → α → Option σ} {meets : σ → α → Bool}

theorem run_cons {s s' : σ} {a : α} (h : step s a = some s') (actions : List α) :
    run step s (a :: actions) = run step s' actions := by
  simp [run, runWhile, h]

theorem run_append {s s' : σ} {actions : List α} (h : run step s actions = some s')
    (more : List α) : run step s (actions ++ more) = run step s' more := by
  induction actions generalizing s with
  | nil =>
    cases h
    rfl
  | cons a actions ih =>
    simp only [run, runWhile, if_true] at h
    split at h
    · cases h
    · rename_i next hnext
      rw [List.cons_append, run_cons hnext]
      exact ih h

theorem runWhile_induction {P : σ → Prop}
    (hstep : ∀ {s s' : σ} {a : α}, P s → meets s a = true → step s a = some s' → P s') :
    ∀ (actions : List α) {s s' : σ}, P s → runWhile step meets s actions = some s' → P s' := by
  intro actions
  induction actions with
  | nil =>
    rintro s s' h ⟨⟩
    exact h
  | cons a actions ih =>
    intro s s' h hr
    simp only [runWhile] at hr
    split_ifs at hr with hmeets
    split at hr
    · cases hr
    · rename_i next hnext
      exact ih (hstep h hmeets hnext) hr

theorem run_induction {P : σ → Prop}
    (hstep : ∀ {s s' : σ} {a : α}, P s → step s a = some s' → P s') (actions : List α) {s s' : σ}
    (h : P s) (hr : run step s actions = some s') : P s' :=
  runWhile_induction (fun h _ hs => hstep h hs) actions h hr

theorem run_of_runWhile {s s' : σ} {actions : List α}
    (h : runWhile step meets s actions = some s') : run step s actions = some s' := by
  induction actions generalizing s with
  | nil => exact h
  | cons a actions ih =>
    simp only [runWhile] at h
    split_ifs at h
    split at h
    · cases h
    · rename_i next hnext
      rw [run_cons hnext]
      exact ih h

/-- What the actions of this kind preserve holds after every run that takes no others. -/
theorem run_induction_of {P : σ → Prop} {A : α → Prop}
    (hstep : ∀ {s s' : σ} {a : α}, P s → A a → step s a = some s' → P s') :
    ∀ (actions : List α) {s s' : σ}, (∀ a ∈ actions, A a) → P s →
      run step s actions = some s' → P s' := by
  intro actions
  induction actions with
  | nil =>
    rintro s s' - h ⟨⟩
    exact h
  | cons a actions ih =>
    intro s s' hA h hr
    simp only [run, runWhile, if_true] at hr
    split at hr
    · cases hr
    · rename_i next hnext
      have hrest : ∀ a ∈ actions, A a := fun b hb => hA b (List.mem_cons_of_mem a hb)
      exact ih hrest (hstep h (hA a (List.mem_cons_self ..)) hnext) hr

end Interaction
