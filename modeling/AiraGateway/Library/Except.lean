import Mathlib.Data.List.Forall2

/-!
# Computations that may be refused

What is known of a computation in `Except` that answers: each of its steps did.

* A bind (`bind_eq_ok_iff`, `exists_bind_iff`, `exists_bind_ok_iff`) and a pass over a list
  (`mapM_eq_ok_iff`, `mem_of_mapM_eq_ok`, `exists_mapM_ok_iff`).
-/

namespace AiraGateway

universe u v

variable {ε : Type u} {α β : Type v}

theorem error_ne_ok {e : ε} {a : α} : Except.error e ≠ Except.ok a := by
  simp only [ne_eq, reduceCtorEq, not_false_eq_true]

theorem bind_eq_ok_iff {x : Except ε α} {f : α → Except ε β} {b : β} :
    (x >>= f) = .ok b ↔ ∃ a, x = .ok a ∧ f a = .ok b := by
  cases x with
  | error e => exact ⟨fun h => (nomatch h), fun ⟨_, h, _⟩ => (nomatch h)⟩
  | ok a =>
    constructor
    · intro h
      exact ⟨a, rfl, h⟩
    · rintro ⟨_, ha, h⟩
      cases ha
      exact h

theorem exists_bind_iff {x : Except ε α} {f : α → Except ε β} :
    (∃ b, (x >>= f) = .ok b) ↔ ∃ a, x = .ok a ∧ ∃ b, f a = .ok b := by
  simp only [bind_eq_ok_iff]
  exact ⟨fun ⟨b, a, ha, hb⟩ => ⟨a, ha, b, hb⟩, fun ⟨a, ha, b, hb⟩ => ⟨b, a, ha, hb⟩⟩

/-- What is made of an answer is refused only where that is. -/
theorem exists_bind_ok_iff {x : Except ε α} {g : α → β} :
    (∃ b, (x >>= fun a => .ok (g a)) = .ok b) ↔ ∃ a, x = .ok a := by
  rw [exists_bind_iff]
  exact ⟨fun ⟨a, ha, _⟩ => ⟨a, ha⟩, fun ⟨a, ha⟩ => ⟨a, ha, g a, rfl⟩⟩

variable {f : α → Except ε β} {l : List α}

/-- A pass answers with the answers, one for each. -/
theorem mapM_eq_ok_iff {bs : List β} :
    l.mapM f = .ok bs ↔ List.Forall₂ (fun a b => f a = .ok b) l bs := by
  induction l generalizing bs with
  | nil =>
    rw [List.mapM_nil, List.forall₂_nil_left_iff]
    constructor
    · rintro ⟨⟩
      rfl
    · rintro rfl
      rfl
  | cons a l ih =>
    rw [List.mapM_cons, bind_eq_ok_iff, List.forall₂_cons_left_iff]
    constructor
    · rintro ⟨b, hb, h⟩
      obtain ⟨rest, hrest, h⟩ := bind_eq_ok_iff.mp h
      cases h
      exact ⟨b, rest, hb, ih.mp hrest, rfl⟩
    · rintro ⟨b, rest, hb, hrest, rfl⟩
      exact ⟨b, hb, bind_eq_ok_iff.mpr ⟨rest, ih.mpr hrest, rfl⟩⟩

/-- A pass whose steps change nothing answers with the list. -/
theorem eq_of_mapM_eq_ok {g : α → Except ε α} {bs : List α}
    (hg : ∀ a ∈ l, ∀ b, g a = .ok b → b = a) (h : l.mapM g = .ok bs) : bs = l := by
  have hsteps := mapM_eq_ok_iff.mp h
  clear h
  induction hsteps with
  | nil => rfl
  | cons hstep _ ih =>
    rw [List.forall_mem_cons] at hg
    rw [hg.1 _ hstep, ih hg.2]

/-- A pass reads no more of its step than it does at the elements. -/
theorem mapM_congr {g : α → Except ε β} (h : ∀ a ∈ l, f a = g a) : l.mapM f = l.mapM g := by
  induction l with
  | nil => rfl
  | cons a l ih =>
    rw [List.forall_mem_cons] at h
    rw [List.mapM_cons, List.mapM_cons, h.1, ih h.2]

/-- What a pass answers with is what its steps do. -/
theorem mem_of_mapM_eq_ok {bs : List β} (h : l.mapM f = .ok bs) {b : β} :
    b ∈ bs ↔ ∃ a ∈ l, f a = .ok b := by
  have hsteps := mapM_eq_ok_iff.mp h
  clear h
  induction hsteps with
  | nil => simp
  | @cons a b' l bs hb _ ih =>
    simp only [List.mem_cons, exists_eq_or_imp, ih]
    refine or_congr_left ?_
    rw [hb, Except.ok.injEq]
    exact eq_comm

/-- A pass is refused only where one of its steps is. -/
theorem exists_mapM_ok_iff : (∃ bs, l.mapM f = .ok bs) ↔ ∀ a ∈ l, ∃ b, f a = .ok b := by
  simp only [mapM_eq_ok_iff]
  constructor
  · rintro ⟨bs, h⟩
    induction h with
    | nil => simp
    | cons hb _ ih => exact List.forall_mem_cons.mpr ⟨⟨_, hb⟩, ih⟩
  · intro h
    induction l with
    | nil => exact ⟨[], .nil⟩
    | cons a l ih =>
      rw [List.forall_mem_cons] at h
      obtain ⟨⟨b, hb⟩, hrest⟩ := h
      obtain ⟨bs, hbs⟩ := ih hrest
      exact ⟨b :: bs, .cons hb hbs⟩

end AiraGateway
