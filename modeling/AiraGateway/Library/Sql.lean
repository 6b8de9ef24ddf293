import Mathlib.Data.List.Basic

/-!
# Conditions over columns that may be absent

What a query's condition says of a row is true, false or unknown, and a row is selected where it is
true. A comparison with an absent value is unknown, and so is its negation: what is selected by a
condition and what is selected by its negation need not be all there is.

* `selects_or`, `selects_and`: selection distributes over both connectives, whatever is unknown.
* `selects_eq`, `selects_isIn`, `selects_notIn`: what a comparison selects is there.
-/

namespace AiraGateway.Sql

universe u

/-- What a condition says of a row; unknown is nothing. -/
abbrev Truth := Option Bool

/-- The row is selected. -/
def Selects (truth : Truth) : Prop := truth = some true

instance (truth : Truth) : Decidable (Selects truth) := inferInstanceAs (Decidable (_ = _))

/-- False where either side is, true where both are, and unknown otherwise. -/
def and (a b : Truth) : Truth :=
  if a = some false ∨ b = some false then some false
  else if a = some true ∧ b = some true then some true else none

/-- True where either side is, false where both are, and unknown otherwise. -/
def or (a b : Truth) : Truth :=
  if a = some true ∨ b = some true then some true
  else if a = some false ∧ b = some false then some false else none

def not (a : Truth) : Truth := a.map (!·)

/-- Any of some conditions. -/
def anyOf (conditions : List Truth) : Truth := conditions.foldr or (some false)

variable {α : Type u}

def isNull (column : Option α) : Truth := some column.isNone

def isNotNull (column : Option α) : Truth := some column.isSome

def eq [DecidableEq α] (column : Option α) (value : α) : Truth := column.map (· = value)

def isIn [DecidableEq α] (column : Option α) (values : List α) : Truth := column.map (· ∈ values)

def notIn [DecidableEq α] (column : Option α) (values : List α) : Truth := not (isIn column values)

/-- The rows that every condition selects. -/
def select (conditions : List (α → Truth)) (rows : List α) : List α :=
  rows.filter fun row => conditions.all fun condition => decide (Selects (condition row))

@[simp]
theorem selects_and {a b : Truth} : Selects (and a b) ↔ Selects a ∧ Selects b := by
  rcases a with _ | _ | _ <;> rcases b with _ | _ | _ <;> decide

@[simp]
theorem selects_or {a b : Truth} : Selects (or a b) ↔ Selects a ∨ Selects b := by
  rcases a with _ | _ | _ <;> rcases b with _ | _ | _ <;> decide

@[simp]
theorem selects_anyOf {conditions : List Truth} :
    Selects (anyOf conditions) ↔ ∃ condition ∈ conditions, Selects condition := by
  induction conditions with
  | nil => simp [anyOf, Selects]
  | cons condition conditions ih =>
    have hcons : Selects (anyOf (condition :: conditions)) ↔
        Selects condition ∨ Selects (anyOf conditions) := selects_or
    rw [hcons, ih, List.exists_mem_cons_iff]

@[simp]
theorem selects_isNull {column : Option α} : Selects (isNull column) ↔ column = none := by
  simp [Selects, isNull]

@[simp]
theorem selects_isNotNull {column : Option α} : Selects (isNotNull column) ↔ column ≠ none := by
  simp [Selects, isNotNull, Option.isSome_iff_ne_none]

variable [DecidableEq α]

@[simp]
theorem selects_eq {column : Option α} {value : α} :
    Selects (eq column value) ↔ column = some value := by
  simp [Selects, eq, Option.map_eq_some_iff]

@[simp]
theorem selects_isIn {column : Option α} {values : List α} :
    Selects (isIn column values) ↔ ∃ value ∈ values, column = some value := by
  have hmap : Selects (isIn column values) ↔ ∃ value, column = some value ∧ value ∈ values := by
    simp [Selects, isIn, Option.map_eq_some_iff]
  rw [hmap]
  exact ⟨fun ⟨value, hsome, hmem⟩ => ⟨value, hmem, hsome⟩,
    fun ⟨value, hmem, hsome⟩ => ⟨value, hsome, hmem⟩⟩

@[simp]
theorem selects_notIn {column : Option α} {values : List α} :
    Selects (notIn column values) ↔ ∃ value, value ∉ values ∧ column = some value := by
  have hmap : Selects (notIn column values) ↔ ∃ value, column = some value ∧ value ∉ values := by
    simp [Selects, notIn, not, isIn, Option.map_eq_some_iff]
  rw [hmap]
  exact ⟨fun ⟨value, hsome, hmem⟩ => ⟨value, hmem, hsome⟩,
    fun ⟨value, hmem, hsome⟩ => ⟨value, hsome, hmem⟩⟩

omit [DecidableEq α] in
theorem mem_select {conditions : List (α → Truth)} {rows : List α} {row : α} :
    row ∈ select conditions rows ↔
      row ∈ rows ∧ ∀ condition ∈ conditions, Selects (condition row) := by
  simp [select]

omit [DecidableEq α] in
/-- Rows that are changed where no condition looks are selected as they were. -/
theorem select_map {conditions : List (α → Truth)} {f : α → α} {rows : List α}
    (h : ∀ condition ∈ conditions, ∀ row ∈ rows,
      Selects (condition (f row)) ↔ Selects (condition row)) :
    select conditions (rows.map f) = (select conditions rows).map f := by
  have hsame : ∀ row ∈ rows, (conditions.all fun condition => decide (Selects (condition (f row)))) =
      conditions.all fun condition => decide (Selects (condition row)) := by
    intro row hrow
    rw [Bool.eq_iff_iff, List.all_eq_true, List.all_eq_true]
    exact forall₂_congr fun condition hcondition => by
      rw [decide_eq_true_iff, decide_eq_true_iff, h condition hcondition row hrow]
  rw [select, select, List.filter_map]
  exact congrArg _ (List.filter_congr hsame)

omit [DecidableEq α] in
/-- Rows that are changed only where they are selected neither before nor after. -/
theorem select_map_of_fixed {conditions : List (α → Truth)} {f : α → α} {rows : List α}
    (h : ∀ row ∈ rows, f row ≠ row → (∃ condition ∈ conditions, ¬Selects (condition row)) ∧
      ∃ condition ∈ conditions, ¬Selects (condition (f row))) :
    select conditions (rows.map f) = select conditions rows := by
  induction rows with
  | nil => rfl
  | cons row rows ih =>
    have hrest := ih fun other hother => h other (List.mem_cons_of_mem _ hother)
    have hcons : ∀ (row : α) (rows : List α), select conditions (row :: rows) =
        if conditions.all (fun condition => decide (Selects (condition row))) then
          row :: select conditions rows else select conditions rows :=
      fun row rows => List.filter_cons
    rw [List.map_cons, hcons, hcons, hrest]
    by_cases hfixed : f row = row
    · rw [hfixed]
    · obtain ⟨⟨c, hc, hrow⟩, d, hd, hchanged⟩ := h row (List.mem_cons_self ..) hfixed
      rw [if_neg fun hall => hchanged (of_decide_eq_true (List.all_eq_true.mp hall d hd)),
        if_neg fun hall => hrow (of_decide_eq_true (List.all_eq_true.mp hall c hc))]

end AiraGateway.Sql
