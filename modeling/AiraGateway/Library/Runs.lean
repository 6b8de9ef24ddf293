import Mathlib.Data.List.Basic

/-!
# Runs of a partial step function

A system is a step function `σ → α → Option σ`: an action is either impossible in a state or
leads to one next state. `Run step ok s acts t` says that the actions `acts` lead from `s` to
`t` and that each one meets the side condition `ok` in the state it is taken in. Side
conditions are what a statement assumes of the environment (a deadline not yet passed, an
amount that is not negative), so they stay apart from what the system itself does.

* **Step to run** (`Run.invariant`): what one step keeps, a run keeps.
* **Exhibiting a run** (`run_of_checkedRun`): taking the actions one by one is a run.
-/

namespace AiraGateway

universe u v

variable {σ : Type u} {α : Type v} {step : σ → α → Option σ} {ok : σ → α → Prop}

/-- `Run step ok s acts t`: the actions `acts` lead from `s` to `t`, each one meeting `ok`
where it is taken. -/
inductive Run (step : σ → α → Option σ) (ok : σ → α → Prop) : σ → List α → σ → Prop
  | nil (s : σ) : Run step ok s [] s
  | cons {s t u : σ} {a : α} {acts : List α} (hok : ok s a) (hstep : step s a = some t)
      (rest : Run step ok t acts u) : Run step ok s (a :: acts) u

namespace Run

variable {s t : σ} {acts : List α}

/-- **Step to run**: what every step keeps, every run keeps. -/
theorem invariant {P : σ → Prop}
    (hstep : ∀ s a t, P s → ok s a → step s a = some t → P t)
    (h : Run step ok s acts t) (hs : P s) : P t := by
  induction h with
  | nil => exact hs
  | cons hok hst _ ih => exact ih (hstep _ _ _ hs hok hst)

/-- A run keeps to every weaker condition. -/
theorem mono {ok' : σ → α → Prop} (himp : ∀ s a, ok s a → ok' s a) (h : Run step ok s acts t) :
    Run step ok' s acts t := by
  induction h with
  | nil s => exact .nil s
  | cons hok hst _ ih => exact .cons (himp _ _ hok) hst ih

theorem append {u : σ} {more : List α} (h : Run step ok s acts t) (h' : Run step ok t more u) :
    Run step ok s (acts ++ more) u := by
  induction h with
  | nil => exact h'
  | cons hok hst _ ih => exact .cons hok hst (ih h')

end Run

/-- Take the actions one after the other, stopping where a side condition fails. -/
def checkedRun (step : σ → α → Option σ) (ok : σ → α → Prop) [∀ s a, Decidable (ok s a)] :
    σ → List α → Option σ
  | s, [] => some s
  | s, a :: acts => if ok s a then (step s a).bind (checkedRun step ok · acts) else none

/-- A run can be exhibited by taking it. -/
theorem run_of_checkedRun [∀ s a, Decidable (ok s a)] {s t : σ} {acts : List α}
    (h : checkedRun step ok s acts = some t) : Run step ok s acts t := by
  induction acts generalizing s with
  | nil =>
    obtain rfl : s = t := Option.some.inj h
    exact .nil s
  | cons a acts ih =>
    rw [checkedRun] at h
    split_ifs at h with hok
    obtain ⟨u, hst, hrest⟩ := Option.bind_eq_some_iff.mp h
    exact .cons hok hst (ih hrest)

end AiraGateway
