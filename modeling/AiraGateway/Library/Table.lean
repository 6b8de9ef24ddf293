import Mathlib.Data.Option.Basic

/-!
# Tables

A table as a program that only reads and writes rows sees it: what each key holds. A row is put
under its key, a row that may be there is inserted or overwritten (`Table.upsert`), and rows are
deleted or changed by a condition on the key and the row.
-/

namespace AiraGateway

universe u v

/-- What each key holds. -/
def Table (κ : Type u) (ρ : Type v) := κ → Option ρ

namespace Table

variable {κ : Type u} {ρ : Type v}

def empty : Table κ ρ := fun _ => none

/-- Insert a row, or overwrite what is there. -/
def upsert [DecidableEq κ] (t : Table κ ρ) (key : κ) (insert : ρ) (overwrite : ρ → ρ) :
    Table κ ρ :=
  fun k => if k = key then some ((t key).elim insert overwrite) else t k

/-- The rows a condition does not name. -/
def deleteWhere (t : Table κ ρ) (cond : κ → ρ → Bool) : Table κ ρ :=
  fun key => (t key).filter fun row => !cond key row

/-- The rows a condition names, changed. -/
def updateWhere (t : Table κ ρ) (cond : κ → ρ → Bool) (change : ρ → ρ) : Table κ ρ :=
  fun key => (t key).map fun row => if cond key row then change row else row

/-- A row after an upsert: the one at the key, or one that was there. -/
theorem upsert_eq_some [DecidableEq κ] {t : Table κ ρ} {key k : κ} {insert row : ρ}
    {overwrite : ρ → ρ} :
    t.upsert key insert overwrite k = some row ↔
      (k = key ∧ (t key).elim insert overwrite = row) ∨ (k ≠ key ∧ t k = some row) := by
  rw [upsert]
  by_cases hk : k = key
  · simp [hk]
  · simp [hk]

theorem upsert_of_ne [DecidableEq κ] {t : Table κ ρ} {key k : κ} {insert : ρ}
    {overwrite : ρ → ρ} (h : k ≠ key) : t.upsert key insert overwrite k = t k :=
  if_neg h

theorem upsert_self [DecidableEq κ] {t : Table κ ρ} {key : κ} {insert : ρ}
    {overwrite : ρ → ρ} :
    t.upsert key insert overwrite key = some ((t key).elim insert overwrite) :=
  if_pos rfl

theorem deleteWhere_eq_some {t : Table κ ρ} {cond : κ → ρ → Bool} {key : κ} {row : ρ} :
    t.deleteWhere cond key = some row ↔ t key = some row ∧ cond key row = false := by
  simp [deleteWhere, Option.filter_eq_some_iff]

theorem updateWhere_eq_some {t : Table κ ρ} {cond : κ → ρ → Bool} {change : ρ → ρ} {key : κ}
    {row : ρ} :
    t.updateWhere cond change key = some row ↔
      ∃ old, t key = some old ∧ (if cond key old then change old else old) = row := by
  simp [updateWhere, Option.map_eq_some_iff]

/-! ### Rows a table does not have -/

/-- No row is as the condition says. -/
def Lacks (t : Table κ ρ) (cond : κ → ρ → Prop) : Prop :=
  ∀ key row, t key = some row → ¬cond key row

variable {t : Table κ ρ} {cond : κ → ρ → Prop} {named : κ → ρ → Bool}

/-- Deleting what the condition names leaves no such row. -/
theorem lacks_deleteWhere (h : ∀ key row, cond key row → named key row = true) :
    (t.deleteWhere named).Lacks cond := by
  intro key row hrow hcond
  have hkept := (deleteWhere_eq_some.mp hrow).2
  rw [h key row hcond] at hkept
  exact absurd hkept (by decide)

/-- Deleting rows adds none. -/
theorem Lacks.deleteWhere (h : t.Lacks cond) : (t.deleteWhere named).Lacks cond :=
  fun key row hrow => h key row (deleteWhere_eq_some.mp hrow).1

/-- An upsert that writes no such row leaves none. -/
theorem Lacks.upsert [DecidableEq κ] {key : κ} {insert : ρ} {overwrite : ρ → ρ}
    (h : t.Lacks cond) (hnew : ¬cond key ((t key).elim insert overwrite)) :
    (t.upsert key insert overwrite).Lacks cond := by
  intro k row hrow
  rcases upsert_eq_some.mp hrow with ⟨rfl, rfl⟩ | ⟨-, hold⟩
  · exact hnew
  · exact h k row hold

end Table

end AiraGateway
