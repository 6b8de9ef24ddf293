import Mathlib.Data.Nat.Basic
import Mathlib.Tactic.Common

/-!
# Systems under a schedule

A system of several parties takes one step at a time; a schedule says whose turn it is. A party
that cannot do anything in its turn leaves the state as it is, so every schedule gives one run.

* What every step keeps holds at every time (`stateAt_invariant`), and what it keeps from some time
  on holds from then on (`stateAt_invariant_from`).
* **A goal is reached** (`eventually_of_rank`) where in every state one party's turn brings it
  nearer, nobody else's takes it farther away or another party out of its turn, and every party
  has its turn again and again.
-/

namespace AiraGateway

universe u v

variable {σ : Type u} {α : Type v} (step : σ → α → Option σ)

/-- The state at a time. -/
def stateAt (start : σ) (schedule : ℕ → α) : ℕ → σ
  | 0 => start
  | t + 1 =>
    let s := stateAt start schedule t
    (step s (schedule t)).getD s

/-- A party has its turn again and again. -/
def Often (schedule : ℕ → α) (a : α) : Prop := ∀ t, ∃ t', t ≤ t' ∧ schedule t' = a

/-- What happens from one time to the next. -/
theorem stateAt_succ (start : σ) (schedule : ℕ → α) (t : ℕ) :
    step (stateAt step start schedule t) (schedule t) = some (stateAt step start schedule (t + 1)) ∨
      stateAt step start schedule (t + 1) = stateAt step start schedule t := by
  rw [stateAt]
  cases hstep : step (stateAt step start schedule t) (schedule t) with
  | none => exact .inr rfl
  | some next => exact .inl rfl

variable {step} {start : σ} {schedule : ℕ → α}

theorem stateAt_invariant_from {P : σ → Prop} {t t' : ℕ}
    (hstep : ∀ s a next, P s → step s a = some next → P next) (hle : t ≤ t')
    (h : P (stateAt step start schedule t)) : P (stateAt step start schedule t') := by
  induction t', hle using Nat.le_induction with
  | base => exact h
  | succ t' _ ih =>
    obtain hnext | hsame := stateAt_succ step start schedule t'
    · exact hstep _ _ _ ih hnext
    · rw [hsame]
      exact ih

theorem stateAt_invariant {P : σ → Prop}
    (hstep : ∀ s a next, P s → step s a = some next → P next) (h : P start) (t : ℕ) :
    P (stateAt step start schedule t) :=
  stateAt_invariant_from hstep (Nat.zero_le t) h

/-- **A goal is reached** where in every state somebody's turn brings it nearer. -/
theorem eventually_of_rank {I G : σ → Prop} {A : α → Prop} (rank : σ → ℕ)
    (helpful : σ → α) (hinv : ∀ t, I (stateAt step start schedule t))
    (hallowed : ∀ t, A (schedule t)) (hoften : ∀ s, Often schedule (helpful s))
    (hhelpful : ∀ s, I s → ¬G s →
      ∃ next, step s (helpful s) = some next ∧ (G next ∨ rank next < rank s))
    (hother : ∀ s a next, I s → ¬G s → A a → step s a = some next →
      G next ∨ rank next < rank s ∨ rank next = rank s ∧ helpful next = helpful s) (t : ℕ) :
    ∃ t', t ≤ t' ∧ G (stateAt step start schedule t') := by
  induction hrank : rank (stateAt step start schedule t) using Nat.strong_induction_on
    generalizing t with
  | _ r ih =>
    obtain ⟨turn, hle, hturn⟩ := hoften (stateAt step start schedule t) t
    -- until that turn the rank stays and so does who is to act, or the goal has come nearer
    have huntil : ∀ now, t ≤ now → now ≤ turn →
        (∃ t', t ≤ t' ∧ G (stateAt step start schedule t')) ∨
          (rank (stateAt step start schedule now) = r ∧
            helpful (stateAt step start schedule now) =
              helpful (stateAt step start schedule t)) := by
      intro now hnow
      induction now, hnow using Nat.le_induction with
      | base => exact fun _ => .inr ⟨hrank, rfl⟩
      | succ now hnow ihNow =>
        intro hturn'
        obtain hgoal | ⟨hsame, hactor⟩ := ihNow (by omega)
        · exact .inl hgoal
        by_cases hgoal : G (stateAt step start schedule now)
        · exact .inl ⟨now, hnow, hgoal⟩
        obtain hnext | hstays := stateAt_succ step start schedule now
        · obtain hreached | hless | ⟨hequal, hkept⟩ :=
            hother _ _ _ (hinv now) hgoal (hallowed now) hnext
          · exact .inl ⟨now + 1, by omega, hreached⟩
          · obtain ⟨t', hlater, hreached⟩ := ih _ (hsame ▸ hless) (now + 1) rfl
            exact .inl ⟨t', by omega, hreached⟩
          · exact .inr ⟨hequal.trans hsame, hkept.trans hactor⟩
        · rw [hstays]
          exact .inr ⟨hsame, hactor⟩
    obtain hgoal | ⟨hsame, hactor⟩ := huntil turn hle (le_refl turn)
    · exact hgoal
    by_cases hgoal : G (stateAt step start schedule turn)
    · exact ⟨turn, hle, hgoal⟩
    obtain ⟨next, hnext, hnearer⟩ := hhelpful _ (hinv turn) hgoal
    have hstate : stateAt step start schedule (turn + 1) = next := by
      rw [stateAt, hturn, ← hactor, hnext, Option.getD_some]
    obtain hreached | hless := hnearer
    · exact ⟨turn + 1, by omega, hstate ▸ hreached⟩
    · obtain ⟨t', hlater, hreached⟩ := ih _ (hsame ▸ hless) (turn + 1) (congrArg rank hstate)
      exact ⟨t', by omega, hreached⟩

end AiraGateway
