import Mathlib.Data.List.AList
import Mathlib.Algebra.BigOperators.Group.Finset.Basic
import Mathlib.Tactic.Abel

/-!
# Sums over a keyed store

A keyed store is an association list without repeated keys (`AList`). The one fact needed
beyond its lookup laws: a sum over the stored entries is the sum, over every possible key, of
what that key holds (`sum_entries_eq_sum_lookup`). A program that keeps such a sum up to date by
single insertions and removals can then be compared with a sum over the parties that own the
keys, and that sum follows one party at a time (`sum_comp_update`).
-/

namespace AiraGateway

variable {κ β M : Type*} [DecidableEq κ] [AddCommMonoid M]

/-- A sum over the entries of a store is the sum over all keys of what each one holds. -/
theorem sum_entries_eq_sum_lookup [Fintype κ] (s : AList fun _ : κ => β) (f : β → M) :
    (s.entries.map fun e => f e.2).sum = ∑ k, (s.lookup k).elim 0 f := by
  have hentry : ∀ e ∈ s.entries, f e.2 = (s.lookup e.1).elim 0 f := by
    intro e he
    have hlook : s.lookup e.1 = some e.2 := AList.mem_lookup_iff.mpr he
    rw [hlook, Option.elim_some]
  calc (s.entries.map fun e => f e.2).sum
      = (s.entries.map fun e => (s.lookup e.1).elim 0 f).sum := by
        rw [List.map_congr_left hentry]
    _ = (s.keys.map fun k => (s.lookup k).elim 0 f).sum := by
        rw [AList.keys, List.keys, List.map_map]
        rfl
    _ = ∑ k ∈ s.keys.toFinset, (s.lookup k).elim 0 f :=
        (List.sum_toFinset _ s.keys_nodup).symm
    _ = ∑ k, (s.lookup k).elim 0 f := by
        refine Finset.sum_subset (Finset.subset_univ _) fun k _ hk => ?_
        have hnone : s.lookup k = none := by
          rw [AList.lookup_eq_none, AList.mem_keys]
          simpa using hk
        rw [hnone, Option.elim_none]

/-- Changing what one party holds changes a sum over all parties by the difference. -/
theorem sum_comp_update {G : Type*} [AddCommGroup G] [Fintype κ] (g : κ → β) (k : κ) (x : β)
    (f : β → G) :
    ∑ j, f (Function.update g k x j) = ∑ j, f (g j) - f (g k) + f x := by
  have hrest : ∑ j ∈ Finset.univ.erase k, f (Function.update g k x j)
      = ∑ j ∈ Finset.univ.erase k, f (g j) := by
    refine Finset.sum_congr rfl fun j hj => ?_
    rw [Function.update_of_ne (Finset.ne_of_mem_erase hj)]
  rw [← Finset.add_sum_erase _ _ (Finset.mem_univ k),
    ← Finset.add_sum_erase _ (fun j => f (g j)) (Finset.mem_univ k), hrest,
    Function.update_self]
  abel

end AiraGateway
