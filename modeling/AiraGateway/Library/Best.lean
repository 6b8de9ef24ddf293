import AiraGateway.Library.Dict
import Mathlib.Data.List.Induction
import Mathlib.Order.Lattice

/-!
# The best of each slot

One pass over a list of rows that keeps, for every slot, the highest-ranked row met so far. A row
takes a slot over only when it outranks the one that holds it, so of two equal rows the earlier
one stays.

* `dictGet_bestOfEach`: what holds a slot is a row of it that no other row of it outranks.
* `dictGet_bestOfEach_iff`: where rows of one slot that rank alike are one row, it is *the* row
  that none outranks, and the order of the list does not matter.
-/

namespace AiraGateway

universe u v w

variable {α : Type u} {κ : Type v} {ρ : Type w} [DecidableEq κ] [LinearOrder ρ]

section Pass

variable (slot : α → κ) (rank : α → ρ)

/-- Let a row have its slot if the slot is free or held by a lower one. -/
def keepBest (chosen : List (κ × α)) (row : α) : List (κ × α) :=
  match dictGet chosen (slot row) with
  | none => dictSet chosen (slot row) row
  | some held => if rank held < rank row then dictSet chosen (slot row) row else chosen

def bestOfEach (rows : List α) : List (κ × α) := rows.foldl (keepBest slot rank) []

/-- No row of the same slot outranks it. -/
structure Leads (rows : List α) (row : α) : Prop where
  mem : row ∈ rows
  unbeaten : ∀ other ∈ rows, slot other = slot row → rank other ≤ rank row

end Pass

variable {slot : α → κ} {rank : α → ρ} {rows : List α} {row : α} {s : κ}

theorem bestOfEach_append_singleton :
    bestOfEach slot rank (rows ++ [row]) = keepBest slot rank (bestOfEach slot rank rows) row := by
  rw [bestOfEach, List.foldl_append]
  rfl

/-- What holds a slot after one more row. -/
theorem dictGet_keepBest (chosen : List (κ × α)) (row : α) (s : κ) :
    dictGet (keepBest slot rank chosen row) s =
      if s = slot row ∧ ∀ held, dictGet chosen s = some held → rank held < rank row then some row
      else dictGet chosen s := by
  rw [keepBest]
  split
  · next hfree =>
    rw [dictGet_dictSet]
    refine if_congr ⟨fun hs => ⟨hs, fun held hheld => ?_⟩, And.left⟩ rfl rfl
    rw [hs, hfree] at hheld
    cases hheld
  · next held hheld =>
    by_cases hs : s = slot row
    · subst hs
      simp only [hheld, Option.some.injEq, true_and, forall_eq']
      split_ifs with hlt
      · rw [dictGet_dictSet, if_pos rfl]
      · exact hheld
    · rw [if_neg (not_and_of_not_left _ hs)]
      split_ifs with hlt
      · rw [dictGet_dictSet, if_neg hs]
      · rfl

variable (slot rank) in
/-- **A slot that some row is of is held.** -/
theorem exists_dictGet_bestOfEach (h : row ∈ rows) :
    ∃ held, dictGet (bestOfEach slot rank rows) (slot row) = some held := by
  induction rows using List.reverseRecOn with
  | nil => exact absurd h List.not_mem_nil
  | append_singleton rows last ih =>
    rw [bestOfEach_append_singleton, dictGet_keepBest]
    split_ifs with hlast
    · exact ⟨last, rfl⟩
    · rcases List.mem_append.mp h with hrow | hrow
      · exact ih hrow
      · obtain rfl : row = last := List.mem_singleton.mp hrow
        -- the last row did not take its own slot, so something holds it
        by_contra hnone
        refine hlast ⟨rfl, fun held hheld => absurd ⟨held, hheld⟩ hnone⟩

/-- **What holds a slot leads it.** -/
theorem dictGet_bestOfEach (h : dictGet (bestOfEach slot rank rows) s = some row) :
    slot row = s ∧ Leads slot rank rows row := by
  induction rows using List.reverseRecOn generalizing row with
  | nil => cases h
  | append_singleton rows last ih =>
    rw [bestOfEach_append_singleton, dictGet_keepBest] at h
    split_ifs at h with hlast
    · obtain rfl : last = row := Option.some.inj h
      obtain ⟨hs, hbeats⟩ := hlast
      refine ⟨hs.symm, List.mem_append_right _ (List.mem_singleton.mpr rfl), ?_⟩
      intro other hother hslot
      rcases List.mem_append.mp hother with hother | hother
      · obtain ⟨held, hheld⟩ := exists_dictGet_bestOfEach slot rank hother
        rw [hslot, ← hs] at hheld
        obtain ⟨hof, hleads⟩ := ih hheld
        exact le_trans (hleads.unbeaten other hother (by rw [hslot, ← hs, hof]))
          (le_of_lt (hbeats held hheld))
      · rw [List.mem_singleton.mp hother]
    · obtain ⟨hs, hleads⟩ := ih h
      refine ⟨hs, List.mem_append_left _ hleads.mem, ?_⟩
      intro other hother hslot
      rcases List.mem_append.mp hother with hother | hother
      · exact hleads.unbeaten other hother hslot
      · obtain rfl := List.mem_singleton.mp hother
        refine not_lt.mp fun hlt => hlast ⟨by rw [hslot, hs], fun held hheld => ?_⟩
        rw [h] at hheld
        obtain rfl := Option.some.inj hheld
        exact hlt

/-- **Without ties the choice is the lead**, whatever the order of the rows. -/
theorem dictGet_bestOfEach_iff
    (hties : ∀ a ∈ rows, ∀ b ∈ rows, slot a = slot b → rank a = rank b → a = b) :
    dictGet (bestOfEach slot rank rows) s = some row ↔ slot row = s ∧ Leads slot rank rows row := by
  refine ⟨dictGet_bestOfEach, ?_⟩
  rintro ⟨rfl, hleads⟩
  obtain ⟨held, hheld⟩ := exists_dictGet_bestOfEach slot rank hleads.mem
  obtain ⟨hslot, hheldLeads⟩ := dictGet_bestOfEach hheld
  have hrank : rank held = rank row :=
    le_antisymm (hleads.unbeaten held hheldLeads.mem hslot)
      (hheldLeads.unbeaten row hleads.mem hslot.symm)
  rw [hheld, hties held hheldLeads.mem row hleads.mem hslot hrank]

end AiraGateway
